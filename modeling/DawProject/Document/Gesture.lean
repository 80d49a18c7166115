import DawProject.Document.Frame
import DawProject.Document.Journal

/-!
A gesture and its undo. The edits between a `beginGroup` and an `endGroup` make
one entry: the first inverse captured under each key. Undoing it replays them,
the last one first, on the document the gesture left.
-/

namespace DawProject.Document

/-- No group is open and nothing is being replayed. -/
structure Project.AtRest (p : Project) : Prop where
  grouping : p.journal.grouping = none
  route : p.journal.route = .normal

/-- The document after the edits. -/
def editsDoc : List Edit → ProjectDef → ProjectDef
  | [], d => d
  | e :: edits, d => editsDoc edits ((e d).result d)

/-- The inverses the edits capture. -/
def editsCaptures : List Edit → ProjectDef → List InverseOp
  | [], _ => []
  | e :: edits, d =>
      match e d with
      | .throws _ => editsCaptures edits d
      | .ignored => editsCaptures edits d
      | .writes inverse doc => inverse :: editsCaptures edits doc

/-- The first capture under each key. -/
def keptOps (ops : List InverseOp) : List InverseOp :=
  (ops.foldl (UndoGroup.record targetKey) {}).ops

/-- The edits as one gesture. -/
def Project.gesture (p : Project) (edits : List Edit) : Project :=
  (edits.foldl Project.edit p.beginGroup).endGroup

section Record

/-- The keys do not depend on what else is recorded with an inverse. -/
theorem ops_record_map (n : Option Nat) (ops : List InverseOp) {g : UndoGroup Captured}
    {h : UndoGroup InverseOp} (hops : g.ops.map Captured.op = h.ops) (hseen : g.seen = h.seen) :
    ((ops.map fun op => (⟨op, n⟩ : Captured)).foldl (UndoGroup.record Captured.key) g).ops.map
        Captured.op =
      (ops.foldl (UndoGroup.record targetKey) h).ops := by
  induction ops generalizing g h with
  | nil => exact hops
  | cons op ops ih =>
      rw [List.map_cons, List.foldl_cons, List.foldl_cons]
      have hkey : Captured.key ⟨op, n⟩ = targetKey op := rfl
      apply ih
      · simp only [UndoGroup.record, hkey, hseen]
        split
        · exact hops
        · simp [hops]
      · simp only [UndoGroup.record, hkey, hseen]
        split
        · exact hseen
        · rfl

/-- Keys that begin differently differ. -/
theorem append_ne_append {a b : String} (x y : String) (n : Nat) (ha : n ≤ a.toList.length)
    (hb : n ≤ b.toList.length) (h : a.toList.take n ≠ b.toList.take n) : a ++ x ≠ b ++ y := by
  intro heq
  apply h
  have htake := congrArg (fun s => s.toList.take n) heq
  simpa [String.toList_append, List.take_append_of_le_length, ha, hb] using htake

theorem keptOps_eq_nil_iff {ops : List InverseOp} : keptOps ops = [] ↔ ops = [] :=
  ops_record_eq_nil_iff

/-- Distinct keys are all kept. -/
theorem ops_record_of_nodup {ops : List InverseOp} {g : UndoGroup InverseOp}
    (hnew : ∀ op ∈ ops, targetKey op ∉ g.seen) (hnodup : (ops.map targetKey).Nodup) :
    (ops.foldl (UndoGroup.record targetKey) g).ops = g.ops ++ ops := by
  induction ops generalizing g with
  | nil => exact (List.append_nil _).symm
  | cons op ops ih =>
      rw [List.map_cons, List.nodup_cons] at hnodup
      have hunseen : ¬g.seen.contains (targetKey op) = true := by
        rw [List.contains_iff_mem]
        exact hnew op List.mem_cons_self
      rw [List.foldl_cons, UndoGroup.record, if_neg hunseen, ih _ hnodup.2, List.append_assoc]
      · rfl
      · intro other hother hseen
        rcases List.mem_cons.mp hseen with heq | hold
        · exact hnodup.1 (heq ▸ List.mem_map_of_mem hother)
        · exact hnew other (List.mem_cons_of_mem op hother) hold

theorem keptOps_of_nodup {ops : List InverseOp} (hnodup : (ops.map targetKey).Nodup) :
    keptOps ops = ops := by
  rw [keptOps, ops_record_of_nodup (fun _ _ => List.not_mem_nil) hnodup]
  rfl

end Record

section Gesture

variable {p : Project}

/-- Edits inside an open group add to it, and to nothing else. -/
theorem edits_in_group (edits : List Edit) {g : UndoGroup Captured}
    (hroute : p.journal.route = .normal) (hgroup : p.journal.grouping = some g) :
    (edits.foldl Project.edit p).doc = editsDoc edits p.doc ∧
      (edits.foldl Project.edit p).journal =
        { p.journal with
          redoStack := if editsCaptures edits p.doc = [] then p.journal.redoStack else []
          grouping := some (((editsCaptures edits p.doc).map fun op =>
            (⟨op, some p.gestures⟩ : Captured)).foldl (UndoGroup.record Captured.key) g) } := by
  induction edits generalizing p g with
  | nil =>
      refine ⟨rfl, ?_⟩
      simp only [List.foldl_nil, editsCaptures, List.map_nil, if_true, ← hgroup]
  | cons e edits ih =>
      rw [List.foldl_cons, editsDoc, editsCaptures]
      cases heffect : e p.doc with
      | throws message =>
          have hsame : p.edit e = p := by
            rw [Project.edit, heffect]
          rw [hsame]
          exact ih hroute hgroup
      | ignored =>
          have hsame : p.edit e = p := by
            rw [Project.edit, heffect]
          rw [hsame]
          exact ih hroute hgroup
      | writes inverse doc =>
          have hedit : p.edit e = { p.capture inverse with doc := doc } := by
            rw [Project.edit, heffect]
          have hgestures : (p.edit e).gestures = p.gestures := by
            simp only [hedit, Project.capture, hroute, hgroup]
          have hjournal : (p.edit e).journal =
              { p.journal with
                redoStack := []
                grouping := some (g.record Captured.key ⟨inverse, some p.gestures⟩) } := by
            simp only [hedit, Project.capture, hroute, hgroup, UndoJournal.capture, if_true]
          have hdoc : (p.edit e).doc = doc := by
            rw [hedit]
          obtain ⟨hlast, hstacks⟩ := ih (p := p.edit e)
            (g := g.record Captured.key ⟨inverse, some p.gestures⟩)
            (by rw [hjournal]; exact hroute) (by rw [hjournal])
          rw [hdoc] at hlast hstacks
          refine ⟨hlast, ?_⟩
          rw [hstacks, hgestures, hjournal]
          simp

theorem beginGroup_of_atRest (hrest : p.AtRest) :
    p.beginGroup.doc = p.doc ∧ p.beginGroup.journal = { p.journal with grouping := some {} } := by
  simp [Project.beginGroup, UndoJournal.beginGroup, hrest.grouping]

/-- A gesture that captures nothing leaves the journal as it was. -/
theorem gesture_of_silent (hrest : p.AtRest) {edits : List Edit}
    (hnone : editsCaptures edits p.doc = []) :
    (p.gesture edits).doc = editsDoc edits p.doc ∧ (p.gesture edits).journal = p.journal := by
  obtain ⟨hdoc, hjournal⟩ := beginGroup_of_atRest hrest
  obtain ⟨hlast, hstacks⟩ := edits_in_group (p := p.beginGroup) edits (g := {})
    (by rw [hjournal]; exact hrest.route) (by rw [hjournal])
  rw [hdoc] at hlast hstacks
  refine ⟨hlast, ?_⟩
  simp only [Project.gesture, Project.endGroup, UndoJournal.endGroup, hstacks, hnone, hjournal,
    List.map_nil, List.foldl_nil, if_true, ← hrest.grouping]

/-- A gesture that captures something makes one entry. -/
theorem gesture_of_captures (hrest : p.AtRest) {edits : List Edit}
    (hsome : editsCaptures edits p.doc ≠ []) :
    (p.gesture edits).AtRest ∧ (p.gesture edits).doc = editsDoc edits p.doc ∧
      (p.gesture edits).journal.redoStack = [] ∧
      ∃ e : UndoGroup Captured,
        (p.gesture edits).journal.undoStack = UndoJournal.pushCapped p.journal.undoStack e ∧
        e.ops.map Captured.op = keptOps (editsCaptures edits p.doc) := by
  obtain ⟨hdoc, hjournal⟩ := beginGroup_of_atRest hrest
  obtain ⟨hlast, hstacks⟩ := edits_in_group (p := p.beginGroup) edits (g := {})
    (by rw [hjournal]; exact hrest.route) (by rw [hjournal])
  rw [hdoc] at hlast hstacks
  have hkept := ops_record_map (some p.beginGroup.gestures) (editsCaptures edits p.doc)
    (g := {}) (h := {}) rfl rfl
  generalize ((editsCaptures edits p.doc).map fun op =>
    (⟨op, some p.beginGroup.gestures⟩ : Captured)).foldl (UndoGroup.record Captured.key) {} = e
    at hkept hstacks
  have hne : e.ops ≠ [] := by
    intro hempty
    rw [hempty, List.map_nil] at hkept
    exact hsome (keptOps_eq_nil_iff.mp hkept.symm)
  have hclosed : (p.gesture edits).journal =
      { p.journal with
        redoStack := []
        undoStack := UndoJournal.pushCapped p.journal.undoStack e } := by
    simp only [Project.gesture, Project.endGroup, UndoJournal.endGroup, hstacks, hjournal, hne,
      hsome, if_false, UndoJournal.push, hrest.route, hrest.grouping, reduceCtorEq]
  refine ⟨⟨?_, ?_⟩, hlast, ?_, e, ?_, hkept⟩
  · rw [hclosed]
    exact hrest.grouping
  · rw [hclosed]
    exact hrest.route
  · rw [hclosed]
  · rw [hclosed]

theorem pushCapped_cons (stack : List (UndoGroup Captured)) (e : UndoGroup Captured) :
    ∃ rest, UndoJournal.pushCapped stack e = e :: rest := by
  unfold UndoJournal.pushCapped
  split
  · rename_i hfull
    cases stack with
    | nil => simp [MAX_ENTRIES] at hfull
    | cons f stack => exact ⟨_, rfl⟩
  · exact ⟨_, rfl⟩

/-- The undo of a gesture replays what it kept, the last one first. -/
theorem undo_gesture (hrest : p.AtRest) {edits : List Edit}
    (hsome : editsCaptures edits p.doc ≠ []) (freshId : Nat → String) :
    ((p.gesture edits).undo freshId).doc =
      replayDoc freshId (keptOps (editsCaptures edits p.doc)).reverse (editsDoc edits p.doc) := by
  obtain ⟨hclosed, hdoc, _, e, hstack, hops⟩ := gesture_of_captures hrest hsome
  obtain ⟨rest, hpush⟩ := pushCapped_cons p.journal.undoStack e
  rw [undo_eq hclosed.grouping (hstack.trans hpush), hdoc, List.map_reverse, hops]

/-- An edit outside a group makes an entry of its own. -/
theorem edit_of_writes (hrest : p.AtRest) {e : Edit} {inverse : InverseOp} {doc : ProjectDef}
    (heffect : e p.doc = .writes inverse doc) :
    (p.edit e).AtRest ∧ (p.edit e).doc = doc ∧ (p.edit e).journal.redoStack = [] ∧
      ∃ c : UndoGroup Captured,
        (p.edit e).journal.undoStack = UndoJournal.pushCapped p.journal.undoStack c ∧
        c.ops.map Captured.op = [inverse] := by
  have hjournal : (p.edit e).journal =
      { p.journal with
        redoStack := []
        undoStack := UndoJournal.pushCapped p.journal.undoStack
          ⟨[⟨inverse, some (p.gestures + 1)⟩], [targetKey inverse]⟩ } := by
    simp only [Project.edit, heffect, Project.capture, hrest.route, hrest.grouping,
      UndoJournal.capture, UndoJournal.push, if_true, if_false, reduceCtorEq]
    rfl
  refine ⟨⟨?_, ?_⟩, ?_, ?_,
    ⟨[⟨inverse, some (p.gestures + 1)⟩], [targetKey inverse]⟩, ?_, rfl⟩
  · rw [hjournal]
    exact hrest.grouping
  · rw [hjournal]
    exact hrest.route
  · rw [Project.edit, heffect]
  · rw [hjournal]
  · rw [hjournal]

/-- The inverse that an edit captures takes the document back. -/
def TakesBack (e : Edit) : Prop :=
  ∀ d inverse doc, e d = .writes inverse doc →
    ∀ freshId, ∃ again, mutatorOf freshId inverse doc = .writes again d

/-- Edits that take back, replayed the last one first, lead back. -/
theorem leads_captures {edits : List Edit} (hback : ∀ e ∈ edits, TakesBack e) (d : ProjectDef) :
    Leads (editsCaptures edits d).reverse (editsDoc edits d) d := by
  induction edits generalizing d with
  | nil => exact .nil
  | cons e edits ih =>
      have hrest := ih (fun e he => hback e (List.mem_cons_of_mem _ he)) ((e d).result d)
      rw [editsDoc, editsCaptures]
      cases heffect : e d with
      | throws message =>
          rw [heffect] at hrest
          exact hrest
      | ignored =>
          rw [heffect] at hrest
          exact hrest
      | writes inverse doc =>
          rw [heffect] at hrest
          rw [List.reverse_cons]
          exact hrest.concat (hback e List.mem_cons_self d inverse doc heffect)

/-- The undo of a gesture whose captures have distinct keys. -/
theorem undo_gesture_of_takesBack (hrest : p.AtRest) {edits : List Edit}
    (hsome : editsCaptures edits p.doc ≠ []) (hback : ∀ e ∈ edits, TakesBack e)
    (hkeys : ((editsCaptures edits p.doc).map targetKey).Nodup) (freshId : Nat → String) :
    ((p.gesture edits).undo freshId).doc = p.doc := by
  rw [undo_gesture hrest hsome, keptOps_of_nodup hkeys]
  exact (leads_captures hback p.doc).replayDoc freshId

/-- Edits that capture nothing write nothing. -/
theorem editsDoc_of_silent {edits : List Edit} {d : ProjectDef}
    (hnone : editsCaptures edits d = []) : editsDoc edits d = d := by
  induction edits with
  | nil => rfl
  | cons e edits ih =>
      rw [editsCaptures] at hnone
      rw [editsDoc]
      cases heffect : e d with
      | throws message =>
          rw [heffect] at hnone
          exact ih hnone
      | ignored =>
          rw [heffect] at hnone
          exact ih hnone
      | writes inverse doc =>
          rw [heffect] at hnone
          cases hnone

theorem replayDoc_cons_of_writes {freshId : Nat → String} {op inverse : InverseOp}
    {ops : List InverseOp} {d doc : ProjectDef}
    (heffect : mutatorOf (freshId ops.length) op d = .writes inverse doc) :
    replayDoc freshId (op :: ops) d = replayDoc freshId ops doc := by
  rw [replayDoc, heffect]

theorem replayDoc_singleton (freshId : Nat → String) (op : InverseOp) (d : ProjectDef) :
    replayDoc freshId [op] d = (mutatorOf (freshId 0) op d).result d := by
  rw [replayDoc, List.length_nil]
  cases mutatorOf (freshId 0) op d <;> rfl

/-- The undo of an edit outside a group. -/
theorem undo_edit (hrest : p.AtRest) {e : Edit} {inverse : InverseOp} {doc : ProjectDef}
    (heffect : e p.doc = .writes inverse doc) (freshId : Nat → String) :
    ((p.edit e).undo freshId).doc = (mutatorOf (freshId 0) inverse doc).result doc := by
  obtain ⟨hclosed, hdoc, _, c, hstack, hops⟩ := edit_of_writes hrest heffect
  obtain ⟨rest, hpush⟩ := pushCapped_cons p.journal.undoStack c
  rw [undo_eq hclosed.grouping (hstack.trans hpush), hdoc, List.map_reverse, hops,
    List.reverse_singleton, replayDoc_singleton]

end Gesture

end DawProject.Document
