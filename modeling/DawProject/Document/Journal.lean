import DawProject.Document.Calls
import DawProject.Lib.Run

/-!
The journal over whole runs of a project. While undo and redo are not called
inside an open group, the captures of a gesture end in one entry, nothing that
was captured outside a replay is on the redo stack, and as many redos as undos
give the document back.
-/

namespace DawProject.Document

section Record

variable {α : Type} {key : α → String}

theorem mem_ops_of_record {l : List α} {g : UndoGroup α} {a : α}
    (ha : a ∈ (l.foldl (UndoGroup.record key) g).ops) : a ∈ g.ops ∨ a ∈ l := by
  induction l generalizing g with
  | nil => exact Or.inl ha
  | cons b l ih =>
      rcases ih ha with hg | hl
      · rw [UndoGroup.record] at hg
        split at hg
        · exact Or.inl hg
        · rcases List.mem_append.mp hg with hold | hlast
          · exact Or.inl hold
          · rw [List.mem_singleton.mp hlast]
            exact Or.inr List.mem_cons_self
      · exact Or.inr (List.mem_cons_of_mem b hl)

theorem ops_record_ne_nil {l : List α} {g : UndoGroup α} (hg : g.ops ≠ []) :
    (l.foldl (UndoGroup.record key) g).ops ≠ [] := by
  induction l generalizing g with
  | nil => exact hg
  | cons b l ih =>
      apply ih
      rw [UndoGroup.record]
      split
      · exact hg
      · exact List.append_ne_nil_of_left_ne_nil hg _

/-- A group that captured something keeps something. -/
theorem ops_record_eq_nil_iff {l : List α} :
    (l.foldl (UndoGroup.record key) {}).ops = [] ↔ l = [] := by
  cases l with
  | nil => exact ⟨fun _ => rfl, fun _ => rfl⟩
  | cons b l =>
      constructor
      · intro hops
        have hfirst : (({} : UndoGroup α).record key b).ops ≠ [] := List.cons_ne_nil b []
        have hkept : (l.foldl (UndoGroup.record key) (({} : UndoGroup α).record key b)).ops ≠ [] :=
          ops_record_ne_nil hfirst
        exact absurd hops hkept
      · exact nofun

end Record

section Replay

/-- The document that a replay ends with. -/
def replayDoc (freshId : Nat → String) : List InverseOp → ProjectDef → ProjectDef
  | [], d => d
  | op :: ops, d =>
      match mutatorOf (freshId ops.length) op d with
      | .throws _ => d
      | .ignored => replayDoc freshId ops d
      | .writes _ doc => replayDoc freshId ops doc

/-- The captures of a replay, in order. -/
def replayCaptures (freshId : Nat → String) : List InverseOp → ProjectDef → List InverseOp
  | [], _ => []
  | op :: ops, d =>
      match mutatorOf (freshId ops.length) op d with
      | .throws _ => []
      | .ignored => replayCaptures freshId ops d
      | .writes inverse doc => inverse :: replayCaptures freshId ops doc

/-- What a replay captures belongs to no gesture. -/
def ofReplay (op : InverseOp) : Captured := ⟨op, none⟩

/-- The entry that a replay makes. -/
def replayEntry (freshId : Nat → String) (ops : List Captured) (d : ProjectDef) :
    UndoGroup Captured :=
  ((replayCaptures freshId (ops.map Captured.op) d).map ofReplay).foldl
    (UndoGroup.record Captured.key) {}

variable {p : Project} {direction : Route}

theorem capture_of_replay {g : UndoGroup Captured} (hroute : p.journal.route = direction)
    (hdirection : direction ≠ .normal) (hgroup : p.journal.grouping = some g) (op : InverseOp) :
    p.capture op =
      { p with
        journal := { p.journal with grouping := some (g.record Captured.key (ofReplay op)) } } := by
  subst hroute
  rw [Project.capture, hgroup]
  cases hroute : p.journal.route with
  | normal => exact absurd hroute hdirection
  | toRedo => simp [UndoJournal.capture, hroute, hgroup, ofReplay]
  | toUndo => simp [UndoJournal.capture, hroute, hgroup, ofReplay]

theorem replay_eq {g : UndoGroup Captured} (hroute : p.journal.route = direction)
    (hdirection : direction ≠ .normal) (hgroup : p.journal.grouping = some g)
    (freshId : Nat → String) (ops : List Captured) :
    Project.replay freshId ops p =
      { p with
        doc := replayDoc freshId (ops.map Captured.op) p.doc
        journal :=
          { p.journal with
            grouping := some
              (((replayCaptures freshId (ops.map Captured.op) p.doc).map ofReplay).foldl
                (UndoGroup.record Captured.key) g) } } := by
  induction ops generalizing p g with
  | nil =>
      rw [Project.replay]
      simp only [List.map_nil, replayDoc, replayCaptures, List.foldl_nil, ← hgroup]
  | cons c ops ih =>
      rw [Project.replay, List.map_cons, replayDoc, replayCaptures, List.length_map]
      cases heffect : mutatorOf (freshId ops.length) c.op p.doc with
      | throws message => simp only [List.map_nil, List.foldl_nil, ← hgroup]
      | ignored => exact ih hroute hgroup
      | writes inverse doc =>
          dsimp only
          rw [capture_of_replay hroute hdirection hgroup]
          refine ih (g := g.record Captured.key (ofReplay inverse)) ?_ ?_
          · exact hroute
          · rfl

/-- A replay outside a group, to either stack. -/
theorem routeReplay_eq (hgroup : p.journal.grouping = none) (hdirection : direction ≠ .normal)
    (freshId : Nat → String) (ops : List Captured) :
    p.routeReplay direction freshId ops =
      { p with
        doc := replayDoc freshId (ops.map Captured.op) p.doc
        journal :=
          { (if (replayEntry freshId ops p.doc).ops = [] then p.journal
            else
              UndoJournal.push { p.journal with route := direction }
                (replayEntry freshId ops p.doc)) with
            grouping := none
            route := .normal }
        entries := p.entries ++
          [replayEntry freshId ops p.doc].filter fun g => g.ops ≠ [] } := by
  have henter : p.journal.enterReplay direction =
      { p.journal with route := direction, grouping := some {} } := by
    simp only [UndoJournal.enterReplay, UndoJournal.beginGroup, hgroup]
  rw [Project.routeReplay, henter, replay_eq rfl hdirection rfl]
  simp only [Project.endGroup, UndoJournal.leaveReplay, UndoJournal.endGroup, replayEntry]
  split <;> rename_i hempty
  · simp [hempty]
  · simp only [hempty, UndoJournal.push, if_false, Option.toList_some, List.filter_cons,
      List.filter_nil, ne_eq, not_false_eq_true, decide_true, if_true]
    split <;> rfl

/-- An entry on top of a stack, unless it is empty. -/
def pushEntry (stack : List (UndoGroup Captured)) (g : UndoGroup Captured) :
    List (UndoGroup Captured) :=
  if g.ops = [] then stack else UndoJournal.pushCapped stack g

variable {e : UndoGroup Captured} {rest : List (UndoGroup Captured)}

theorem undo_eq (hgroup : p.journal.grouping = none) (hstack : p.journal.undoStack = e :: rest)
    (freshId : Nat → String) :
    p.undo freshId =
      { p with
        doc := replayDoc freshId (e.ops.reverse.map Captured.op) p.doc
        journal :=
          { undoStack := rest
            redoStack := pushEntry p.journal.redoStack (replayEntry freshId e.ops.reverse p.doc) }
        entries := p.entries ++
          [replayEntry freshId e.ops.reverse p.doc].filter fun g => g.ops ≠ [] } := by
  have hpop : p.journal.popUndo = some (e.ops.reverse, { p.journal with undoStack := rest }) := by
    rw [UndoJournal.popUndo, hstack]
  rw [Project.undo, hpop]
  dsimp only
  rw [routeReplay_eq (p := { p with journal := { p.journal with undoStack := rest } }) hgroup
    (by decide)]
  simp only [pushEntry, UndoJournal.push, if_true]
  split <;> rfl

theorem redo_eq (hgroup : p.journal.grouping = none) (hstack : p.journal.redoStack = e :: rest)
    (freshId : Nat → String) :
    p.redo freshId =
      { p with
        doc := replayDoc freshId (e.ops.reverse.map Captured.op) p.doc
        journal :=
          { undoStack := pushEntry p.journal.undoStack (replayEntry freshId e.ops.reverse p.doc)
            redoStack := rest }
        entries := p.entries ++
          [replayEntry freshId e.ops.reverse p.doc].filter fun g => g.ops ≠ [] } := by
  have hpop : p.journal.popRedo = some (e.ops.reverse, { p.journal with redoStack := rest }) := by
    rw [UndoJournal.popRedo, hstack]
  rw [Project.redo, hpop]
  dsimp only
  rw [routeReplay_eq (p := { p with journal := { p.journal with redoStack := rest } }) hgroup
    (by decide)]
  simp only [pushEntry, UndoJournal.push, reduceCtorEq, if_false]
  split <;> rfl

theorem mem_of_mem_pushEntry {stack : List (UndoGroup Captured)} {g e : UndoGroup Captured}
    (he : e ∈ pushEntry stack g) : e ∈ stack ∨ (e = g ∧ g.ops ≠ []) := by
  rw [pushEntry] at he
  split at he
  · exact Or.inl he
  · rename_i hne
    have hcons : e ∈ g :: stack := by
      rw [UndoJournal.pushCapped] at he
      split at he
      · exact List.dropLast_subset _ he
      · exact he
    rcases List.mem_cons.mp hcons with rfl | hold
    · exact Or.inr ⟨rfl, hne⟩
    · exact Or.inl hold

theorem kept_pushEntry {stack : List (UndoGroup Captured)} {g : UndoGroup Captured}
    (hkept : ∀ e ∈ stack, e.ops ≠ []) : ∀ e ∈ pushEntry stack g, e.ops ≠ [] := by
  intro e he
  rcases mem_of_mem_pushEntry he with hold | ⟨rfl, hne⟩
  · exact hkept e hold
  · exact hne

theorem gesture_of_replayEntry {freshId : Nat → String} {ops : List Captured} {d : ProjectDef}
    {c : Captured} (hc : c ∈ (replayEntry freshId ops d).ops) : c.gesture = none := by
  rcases mem_ops_of_record hc with hnil | hmem
  · cases hnil
  · obtain ⟨op, -, rfl⟩ := List.mem_map.mp hmem
    rfl

end Replay

section Gestures

variable {p : Project} {n : Nat}

/-- The captures of a gesture. -/
def Project.capturesOf (p : Project) (n : Nat) : List Captured :=
  p.captured.filter fun c => c.gesture == some n

/-- The entries that hold a capture of a gesture. -/
def Project.entriesOf (p : Project) (n : Nat) : List (UndoGroup Captured) :=
  p.entries.filter fun e => e.ops.any fun c => c.gesture == some n

/-- The entry of a gesture: its captures, the first one under each key. -/
def Project.gestureEntry (p : Project) (n : Nat) : UndoGroup Captured :=
  (p.capturesOf n).foldl (UndoGroup.record Captured.key) {}

/-- The gesture is the one whose group is open. -/
def Project.Open (p : Project) (n : Nat) : Prop :=
  p.journal.grouping ≠ none ∧ n = p.gestures

structure Sound (p : Project) : Prop where
  route : p.journal.route = .normal
  kept : ∀ e ∈ p.journal.undoStack, e.ops ≠ []
  captured : ∀ c ∈ p.captured, ∃ n ≤ p.gestures, c.gesture = some n
  group : ∀ g, p.journal.grouping = some g → g = p.gestureEntry p.gestures
  redo : ∀ e ∈ p.journal.redoStack, ∀ c ∈ e.ops, c.gesture = none
  unclosed : ∀ n, p.Open n → p.entriesOf n = []
  silent : ∀ n, p.capturesOf n = [] → p.entriesOf n = []
  closed : ∀ n, ¬p.Open n → p.capturesOf n ≠ [] → p.entriesOf n = [p.gestureEntry n]

/-- A gesture that has not begun has captured nothing. -/
theorem Sound.capturesOf_later (hs : Sound p) (hn : p.gestures < n) : p.capturesOf n = [] := by
  rw [Project.capturesOf, List.filter_eq_nil_iff]
  intro c hc heq
  obtain ⟨m, hm, hgesture⟩ := hs.captured c hc
  rw [hgesture, beq_iff_eq, Option.some.injEq] at heq
  omega

theorem sound_started (doc : ProjectDef) : Sound { doc := doc } := by
  refine ⟨rfl, ?_, ?_, ?_, ?_, fun _ _ => rfl, fun _ _ => rfl, fun _ _ hne => absurd rfl hne⟩
  · intro e he
    cases he
  · intro c hc
    cases hc
  · intro g hg
    cases hg
  · intro e he
    cases he

theorem capturesOf_append {q : Project} {c : Captured} {m : Nat}
    (hcaptured : q.captured = p.captured ++ [c]) (hgesture : c.gesture = some m) :
    q.capturesOf n = if n = m then p.capturesOf n ++ [c] else p.capturesOf n := by
  rw [Project.capturesOf, hcaptured, List.filter_append, List.filter_cons, List.filter_nil,
    hgesture]
  split <;> split <;> rename_i heq hne
  · rfl
  · exact absurd (Option.some.inj (beq_iff_eq.mp heq)).symm hne
  · exact absurd (by rw [hne]; exact beq_self_eq_true _) heq
  · exact List.append_nil _

theorem entriesOf_append {q : Project} {e : UndoGroup Captured}
    (hentries : q.entries = p.entries ++ [e]) :
    q.entriesOf n =
      if e.ops.any fun c => c.gesture == some n then p.entriesOf n ++ [e] else p.entriesOf n := by
  rw [Project.entriesOf, hentries, List.filter_append, List.filter_cons, List.filter_nil]
  split
  · rfl
  · exact List.append_nil _

theorem Sound.beginGroup (hs : Sound p) : Sound p.beginGroup := by
  cases hgroup : p.journal.grouping with
  | some g =>
      have hsame : p.beginGroup = p := by
        simp only [Project.beginGroup, UndoJournal.beginGroup, hgroup, Option.isSome_some, if_true]
      rw [hsame]
      exact hs
  | none =>
      have hnew : p.beginGroup =
          { p with
            journal := { p.journal with grouping := some {} }
            gestures := p.gestures + 1 } := by
        simp only [Project.beginGroup, UndoJournal.beginGroup, hgroup, Option.isSome_none,
          Bool.false_eq_true, if_false]
      have hnone : p.capturesOf (p.gestures + 1) = [] := hs.capturesOf_later (Nat.lt_succ_self _)
      rw [hnew]
      refine ⟨hs.route, hs.kept, ?_, ?_, hs.redo, ?_, hs.silent, ?_⟩
      · intro c hc
        obtain ⟨m, hm, hgesture⟩ := hs.captured c hc
        exact ⟨m, Nat.le_succ_of_le hm, hgesture⟩
      · rintro g ⟨⟩
        exact (congrArg (List.foldl (UndoGroup.record Captured.key) {}) hnone).symm
      · rintro m ⟨-, rfl⟩
        exact hs.silent _ hnone
      · intro m _ hm
        exact hs.closed m (fun hopen => hopen.1 hgroup) hm

/-- A capture in the open group. -/
theorem Sound.captureOpen (hs : Sound p) {q : Project} {g : UndoGroup Captured} {c : Captured}
    (hgroup : p.journal.grouping = some g) (hgesture : c.gesture = some p.gestures)
    (hcaptured : q.captured = p.captured ++ [c]) (hgestures : q.gestures = p.gestures)
    (hentries : q.entries = p.entries)
    (hjournal : q.journal =
      { p.journal with redoStack := [], grouping := some (g.record Captured.key c) }) :
    Sound q := by
  have hcaptures : ∀ m, q.capturesOf m =
      if m = p.gestures then p.capturesOf m ++ [c] else p.capturesOf m :=
    fun m => capturesOf_append hcaptured hgesture
  have hentriesOf : ∀ m, q.entriesOf m = p.entriesOf m := by
    intro m
    rw [Project.entriesOf, hentries]
    rfl
  have hopen : p.journal.grouping ≠ none := by
    rw [hgroup]
    exact Option.some_ne_none g
  refine ⟨?_, ?_, ?_, ?_, ?_, ?_, ?_, ?_⟩
  · rw [hjournal]
    exact hs.route
  · rw [hjournal]
    exact hs.kept
  · intro d hd
    rw [hcaptured] at hd
    rw [hgestures]
    rcases List.mem_append.mp hd with hold | hlast
    · exact hs.captured d hold
    · rw [List.mem_singleton.mp hlast]
      exact ⟨p.gestures, le_refl _, hgesture⟩
  · intro g' hg'
    rw [hjournal] at hg'
    cases hg'
    rw [Project.gestureEntry, hgestures, hcaptures, if_pos rfl, List.foldl_append, List.foldl_cons,
      List.foldl_nil, hs.group g hgroup]
    rfl
  · rw [hjournal]
    intro e he
    cases he
  · rintro m ⟨-, hm⟩
    rw [hentriesOf]
    exact hs.unclosed m ⟨hopen, hm.trans hgestures⟩
  · intro m hm
    rw [hcaptures] at hm
    rw [hentriesOf]
    split at hm
    · cases hcons : p.capturesOf m <;> rw [hcons] at hm <;> cases hm
    · exact hs.silent m hm
  · intro m hclosed hm
    have hne : m ≠ p.gestures := by
      intro heq
      apply hclosed
      rw [Project.Open, hjournal, hgestures]
      exact ⟨Option.some_ne_none _, heq⟩
    rw [hcaptures, if_neg hne] at hm
    rw [hentriesOf, Project.gestureEntry, hcaptures, if_neg hne]
    exact hs.closed m (fun hopen => hne hopen.2) hm

/-- A capture outside a group, with its entry. -/
theorem Sound.captureAlone (hs : Sound p) {q : Project} {c : Captured}
    (hgroup : p.journal.grouping = none) (hgesture : c.gesture = some (p.gestures + 1))
    (hcaptured : q.captured = p.captured ++ [c]) (hgestures : q.gestures = p.gestures + 1)
    (hentries : q.entries = p.entries ++ [⟨[c], [c.key]⟩]) (hroute : q.journal.route = .normal)
    (hgrouping : q.journal.grouping = none) (hredo : q.journal.redoStack = [])
    (hundo : q.journal.undoStack = pushEntry p.journal.undoStack ⟨[c], [c.key]⟩) : Sound q := by
  have hcaptures : ∀ m, q.capturesOf m =
      if m = p.gestures + 1 then p.capturesOf m ++ [c] else p.capturesOf m :=
    fun m => capturesOf_append hcaptured hgesture
  have hnone : p.capturesOf (p.gestures + 1) = [] := hs.capturesOf_later (Nat.lt_succ_self _)
  have hentriesOf : ∀ m, q.entriesOf m =
      if m = p.gestures + 1 then p.entriesOf m ++ [⟨[c], [c.key]⟩] else p.entriesOf m := by
    intro m
    rw [entriesOf_append hentries, List.any_cons, List.any_nil, Bool.or_false, hgesture]
    simp only [beq_iff_eq, Option.some.injEq, eq_comm (a := m)]
  refine ⟨hroute, ?_, ?_, ?_, ?_, ?_, ?_, ?_⟩
  · rw [hundo]
    exact kept_pushEntry hs.kept
  · intro d hd
    rw [hcaptured] at hd
    rw [hgestures]
    rcases List.mem_append.mp hd with hold | hlast
    · obtain ⟨m, hm, hd⟩ := hs.captured d hold
      exact ⟨m, Nat.le_succ_of_le hm, hd⟩
    · rw [List.mem_singleton.mp hlast]
      exact ⟨p.gestures + 1, le_refl _, hgesture⟩
  · intro g hg
    rw [hgrouping] at hg
    cases hg
  · rw [hredo]
    intro e he
    cases he
  · rintro m ⟨hopen, -⟩
    exact absurd hgrouping hopen
  · intro m hm
    rw [hcaptures] at hm
    rw [hentriesOf]
    split at hm
    · cases hcons : p.capturesOf m <;> rw [hcons] at hm <;> cases hm
    · rename_i hne
      rw [if_neg hne]
      exact hs.silent m hm
  · intro m _ hm
    rw [hentriesOf, Project.gestureEntry, hcaptures]
    by_cases heq : m = p.gestures + 1
    · rw [if_pos heq, if_pos heq, heq, hs.silent _ hnone, hnone]
      rfl
    · rw [hcaptures, if_neg heq] at hm
      rw [if_neg heq, if_neg heq]
      exact hs.closed m (fun hopen => hopen.1 hgroup) hm

theorem Sound.edit (hs : Sound p) (e : Edit) : Sound (p.edit e) := by
  rw [Project.edit]
  cases e p.doc with
  | throws message => exact hs
  | ignored => exact hs
  | writes inverse doc =>
      dsimp only
      cases hgroup : p.journal.grouping with
      | some g =>
          have hcapture : p.capture inverse =
              { p with
                journal := p.journal.capture Captured.key ⟨inverse, some p.gestures⟩
                captured := p.captured ++ [⟨inverse, some p.gestures⟩] } := by
            rw [Project.capture, hgroup, hs.route]
          rw [hcapture]
          refine hs.captureOpen hgroup (c := ⟨inverse, some p.gestures⟩) rfl rfl rfl rfl ?_
          simp only [UndoJournal.capture, hs.route, hgroup, if_true]
      | none =>
          have hcapture : p.capture inverse =
              { p with
                journal := p.journal.capture Captured.key ⟨inverse, some (p.gestures + 1)⟩
                gestures := p.gestures + 1
                captured := p.captured ++ [⟨inverse, some (p.gestures + 1)⟩]
                entries := p.entries ++ [⟨[⟨inverse, some (p.gestures + 1)⟩],
                  [Captured.key ⟨inverse, some (p.gestures + 1)⟩]⟩] } := by
            rw [Project.capture, hgroup, hs.route]
          rw [hcapture]
          refine hs.captureAlone hgroup (c := ⟨inverse, some (p.gestures + 1)⟩) rfl rfl rfl rfl
            ?_ ?_ ?_ ?_
          all_goals
            simp [UndoJournal.capture, UndoJournal.push, pushEntry, hs.route, hgroup]

/-- The end of an open group, with its entry. -/
theorem Sound.endGroup (hs : Sound p) : Sound p.endGroup := by
  cases hgroup : p.journal.grouping with
  | none =>
      have hsame : p.endGroup = p := by
        simp only [Project.endGroup, UndoJournal.endGroup, hgroup, Option.toList_none,
          List.filter_nil, List.append_nil]
        rw [← hgroup]
      rw [hsame]
      exact hs
  | some g =>
      have hg := hs.group g hgroup
      have hempty : g.ops = [] ↔ p.capturesOf p.gestures = [] := by
        rw [hg]
        exact ops_record_eq_nil_iff
      by_cases hnil : g.ops = []
      · have hend : p.endGroup = { p with journal := { p.journal with grouping := none } } := by
          simp [Project.endGroup, UndoJournal.endGroup, hgroup, hnil]
        rw [hend]
        refine ⟨hs.route, hs.kept, hs.captured, nofun, hs.redo, ?_, hs.silent, ?_⟩
        · rintro m ⟨hopen, -⟩
          exact absurd rfl hopen
        · intro m _ hm
          refine hs.closed m ?_ hm
          rintro ⟨-, rfl⟩
          exact hm (hempty.mp hnil)
      · have hend : p.endGroup =
            { p with
              journal :=
                { p.journal with
                  grouping := none
                  undoStack := UndoJournal.pushCapped p.journal.undoStack g }
              entries := p.entries ++ [g] } := by
          simp [Project.endGroup, UndoJournal.endGroup, UndoJournal.push, hgroup, hnil, hs.route]
        have hmentions : ∀ m, (g.ops.any fun c => c.gesture == some m) = true ↔
            m = p.gestures := by
          have hall : ∀ c ∈ g.ops, c.gesture = some p.gestures := by
            intro c hc
            rw [hg] at hc
            rcases mem_ops_of_record hc with hold | hmem
            · cases hold
            · exact beq_iff_eq.mp (List.mem_filter.mp hmem).2
          intro m
          rw [List.any_eq_true]
          constructor
          · rintro ⟨c, hc, hm⟩
            rw [hall c hc, beq_iff_eq, Option.some.injEq] at hm
            exact hm.symm
          · rintro rfl
            obtain ⟨c, hc⟩ := List.exists_mem_of_ne_nil _ hnil
            exact ⟨c, hc, beq_iff_eq.mpr (hall c hc)⟩
        have hentriesOf : ∀ m, p.endGroup.entriesOf m =
            if m = p.gestures then p.entriesOf m ++ [g] else p.entriesOf m := by
          intro m
          rw [entriesOf_append (p := p) (e := g) (by rw [hend])]
          simp only [hmentions]
        have hcaptures : p.endGroup.capturesOf = p.capturesOf := by
          rw [hend]
          rfl
        have hclosed : ∀ m, ¬p.endGroup.Open m := by
          rintro m ⟨hopen, -⟩
          rw [hend] at hopen
          exact hopen rfl
        have hunclosed := hs.unclosed p.gestures ⟨by rw [hgroup]; exact Option.some_ne_none g, rfl⟩
        refine ⟨?_, ?_, ?_, ?_, ?_, fun m hopen => absurd hopen (hclosed m), ?_, ?_⟩
        · rw [hend]
          exact hs.route
        · have hpush := kept_pushEntry (g := g) hs.kept
          rw [pushEntry, if_neg hnil] at hpush
          rw [hend]
          exact hpush
        · rw [hend]
          exact hs.captured
        · rw [hend]
          exact nofun
        · rw [hend]
          exact hs.redo
        · intro m hm
          rw [hcaptures] at hm
          have hne : m ≠ p.gestures := by
            rintro rfl
            exact hnil (hempty.mpr hm)
          rw [hentriesOf, if_neg hne]
          exact hs.silent m hm
        · intro m _ hm
          rw [hcaptures] at hm
          rw [hentriesOf, Project.gestureEntry, hcaptures]
          split
          · rename_i heq
            rw [heq, hunclosed, List.nil_append, hg]
            rfl
          · rename_i hne
            exact hs.closed m (fun hopen => hne hopen.2) hm

/-- A replay outside a group leaves the gestures as they are. -/
theorem Sound.replayed (hs : Sound p) {q : Project} {freshId : Nat → String}
    {ops : List Captured} {d : ProjectDef} (hgroup : p.journal.grouping = none)
    (hcaptured : q.captured = p.captured) (hgestures : q.gestures = p.gestures)
    (hentries : q.entries = p.entries ++
      [replayEntry freshId ops d].filter fun g => g.ops ≠ [])
    (hroute : q.journal.route = .normal) (hgrouping : q.journal.grouping = none)
    (hundo : ∀ e ∈ q.journal.undoStack, e.ops ≠ [])
    (hredo : ∀ e ∈ q.journal.redoStack, e ∈ p.journal.redoStack ∨ e = replayEntry freshId ops d) :
    Sound q := by
  have hcaptures : q.capturesOf = p.capturesOf := by
    funext m
    rw [Project.capturesOf, hcaptured]
    rfl
  have hforeign : ∀ m, ((replayEntry freshId ops d).ops.any fun c => c.gesture == some m) =
      false := by
    intro m
    rw [List.any_eq_false]
    intro c hc
    rw [gesture_of_replayEntry hc]
    exact Bool.false_ne_true
  have hentriesOf : ∀ m, q.entriesOf m = p.entriesOf m := by
    intro m
    rw [Project.entriesOf, hentries, List.filter_append]
    have hnone : List.filter (fun e : UndoGroup Captured => e.ops.any fun c => c.gesture == some m)
        ([replayEntry freshId ops d].filter fun g => g.ops ≠ []) = [] := by
      rw [List.filter_eq_nil_iff]
      intro e he
      rw [List.mem_singleton.mp (List.mem_of_mem_filter he), hforeign]
      exact Bool.false_ne_true
    rw [hnone]
    exact List.append_nil _
  refine ⟨hroute, hundo, ?_, ?_, ?_, ?_, ?_, ?_⟩
  · rw [hcaptured, hgestures]
    exact hs.captured
  · intro g hg
    rw [hgrouping] at hg
    cases hg
  · intro e he c hc
    rcases hredo e he with hold | rfl
    · exact hs.redo e hold c hc
    · exact gesture_of_replayEntry hc
  · rintro m ⟨hopen, -⟩
    exact absurd hgrouping hopen
  · intro m hm
    rw [hcaptures] at hm
    rw [hentriesOf]
    exact hs.silent m hm
  · intro m _ hm
    rw [hcaptures] at hm
    rw [hentriesOf, Project.gestureEntry, hcaptures]
    exact hs.closed m (fun hopen => hopen.1 hgroup) hm

theorem Sound.undo (hs : Sound p) (hgroup : p.journal.grouping = none) (freshId : Nat → String) :
    Sound (p.undo freshId) := by
  cases hstack : p.journal.undoStack with
  | nil =>
      rw [Project.undo, UndoJournal.popUndo, hstack]
      exact hs
  | cons e rest =>
      rw [undo_eq hgroup hstack]
      refine hs.replayed hgroup rfl rfl rfl rfl rfl ?_ ?_
      · intro e' he
        apply hs.kept
        rw [hstack]
        exact List.mem_cons_of_mem e he
      · intro e' he
        exact (mem_of_mem_pushEntry he).imp_right And.left

theorem Sound.redone (hs : Sound p) (hgroup : p.journal.grouping = none)
    (freshId : Nat → String) : Sound (p.redo freshId) := by
  cases hstack : p.journal.redoStack with
  | nil =>
      rw [Project.redo, UndoJournal.popRedo, hstack]
      exact hs
  | cons e rest =>
      rw [redo_eq hgroup hstack]
      refine hs.replayed hgroup rfl rfl rfl rfl rfl ?_ ?_
      · exact kept_pushEntry hs.kept
      · intro e' he
        rw [hstack]
        exact Or.inl (List.mem_cons_of_mem e he)

end Gestures

section Returns

/-- A replay of `ops` that writes at every step, whatever ids it draws, and
ends at a document. -/
inductive Leads : List InverseOp → ProjectDef → ProjectDef → Prop where
  | nil {d : ProjectDef} : Leads [] d d
  | cons {op : InverseOp} {ops : List InverseOp} {d doc last : ProjectDef}
      (hwrites : ∀ freshId, ∃ inverse, mutatorOf freshId op d = .writes inverse doc)
      (hrest : Leads ops doc last) : Leads (op :: ops) d last

theorem Leads.concat {ops : List InverseOp} {op : InverseOp} {d doc last : ProjectDef}
    (hops : Leads ops d doc)
    (hwrites : ∀ freshId, ∃ inverse, mutatorOf freshId op doc = .writes inverse last) :
    Leads (ops ++ [op]) d last := by
  induction hops with
  | nil => exact .cons hwrites .nil
  | cons hfirst _ ih => exact .cons hfirst (ih hwrites)

theorem Leads.replayDoc {ops : List InverseOp} {d last : ProjectDef} (hops : Leads ops d last)
    (freshId : Nat → String) : replayDoc freshId ops d = last := by
  induction hops with
  | nil => rfl
  | @cons op ops d doc last hwrites _ ih =>
      obtain ⟨inverse, heffect⟩ := hwrites (freshId ops.length)
      rw [Document.replayDoc, heffect]
      exact ih

/-- Every inverse of a replay is written, what it captures gives back the
document it was captured on, and no two captures have one key. -/
def Reversible : List String → List InverseOp → ProjectDef → Prop
  | _, [], _ => True
  | seen, op :: ops, d =>
      ∀ freshId, ∃ inverse doc, mutatorOf freshId op d = .writes inverse doc ∧
        targetKey inverse ∉ seen ∧
        (∀ freshId', ∃ again, mutatorOf freshId' inverse doc = .writes again d) ∧
        Reversible (targetKey inverse :: seen) ops doc

theorem Reversible.leads {seen : List String} {ops : List InverseOp} {d : ProjectDef}
    (hops : Reversible seen ops d) (freshId : Nat → String) :
    Leads (replayCaptures freshId ops d).reverse (replayDoc freshId ops d) d := by
  induction ops generalizing seen d with
  | nil => exact .nil
  | cons op ops ih =>
      obtain ⟨inverse, doc, heffect, -, hback, hrest⟩ := hops (freshId ops.length)
      rw [replayCaptures, replayDoc, heffect]
      dsimp only
      rw [List.reverse_cons]
      exact (ih hrest).concat hback

/-- A reversible replay loses no capture. -/
theorem Reversible.record {g : UndoGroup Captured} {ops : List InverseOp} {d : ProjectDef}
    (hops : Reversible g.seen ops d) (freshId : Nat → String) :
    (((replayCaptures freshId ops d).map ofReplay).foldl (UndoGroup.record Captured.key) g).ops =
      g.ops ++ (replayCaptures freshId ops d).map ofReplay := by
  induction ops generalizing g d with
  | nil => exact (List.append_nil _).symm
  | cons op ops ih =>
      obtain ⟨inverse, doc, heffect, hnew, -, hrest⟩ := hops (freshId ops.length)
      have hrecord : g.record Captured.key (ofReplay inverse) =
          ⟨g.ops ++ [ofReplay inverse], targetKey inverse :: g.seen⟩ := by
        have hunseen : ¬g.seen.contains (targetKey inverse) = true := by
          rw [List.contains_iff_mem]
          exact hnew
        exact if_neg hunseen
      rw [replayCaptures, heffect]
      dsimp only
      rw [List.map_cons, List.foldl_cons, hrecord, ih hrest, List.append_assoc,
        List.singleton_append]

/-- Each undo finds an entry, and its replay is reversible. -/
def ReversibleUndos : List (Nat → String) → Project → Prop
  | [], _ => True
  | freshId :: undos, p =>
      (∃ e rest, p.journal.undoStack = e :: rest ∧
        Reversible [] (e.ops.reverse.map Captured.op) p.doc) ∧
      ReversibleUndos undos (p.undo freshId)

variable {p : Project} {e : UndoGroup Captured} {rest : List (UndoGroup Captured)}

theorem pushEntry_of_kept {stack : List (UndoGroup Captured)} {g : UndoGroup Captured}
    (hg : g.ops ≠ []) (hcap : stack.length < MAX_ENTRIES) : pushEntry stack g = g :: stack := by
  rw [pushEntry, if_neg hg, UndoJournal.pushCapped, if_neg]
  rw [List.length_cons]
  omega

/-- An undo leaves on the redo stack an entry that leads back. -/
theorem redoStack_of_undo (hs : Sound p) (hgroup : p.journal.grouping = none)
    (hstack : p.journal.undoStack = e :: rest)
    (hreversible : Reversible [] (e.ops.reverse.map Captured.op) p.doc)
    (hcap : p.journal.redoStack.length < MAX_ENTRIES) (freshId : Nat → String) :
    ∃ g, (p.undo freshId).journal.redoStack = g :: p.journal.redoStack ∧
      Leads (g.ops.reverse.map Captured.op) (p.undo freshId).doc p.doc := by
  have hops : (replayEntry freshId e.ops.reverse p.doc).ops =
      (replayCaptures freshId (e.ops.reverse.map Captured.op) p.doc).map ofReplay :=
    hreversible.record (g := {}) freshId
  have hback := hreversible.leads freshId
  have hne : (replayEntry freshId e.ops.reverse p.doc).ops ≠ [] := by
    rw [hops, ne_eq, List.map_eq_nil_iff]
    have hkept : e.ops ≠ [] := hs.kept e (by rw [hstack]; exact List.mem_cons_self)
    obtain ⟨op, ops, hcons⟩ := List.exists_cons_of_ne_nil
      (l := e.ops.reverse.map Captured.op) (by simpa using hkept)
    rw [hcons] at hreversible ⊢
    obtain ⟨inverse, doc, heffect, -⟩ := hreversible (freshId ops.length)
    rw [replayCaptures, heffect]
    exact List.cons_ne_nil _ _
  refine ⟨replayEntry freshId e.ops.reverse p.doc, ?_, ?_⟩
  · rw [undo_eq hgroup hstack]
    exact pushEntry_of_kept hne hcap
  · rw [undo_eq hgroup hstack, hops, ← List.map_reverse, List.map_map]
    have hid : Captured.op ∘ ofReplay = id := rfl
    rw [hid, List.map_id]
    exact hback

/-- As many redos as undos give back the document and the redo stack. -/
theorem redos_of_undos {undos redos : List (Nat → String)} (hs : Sound p)
    (hgroup : p.journal.grouping = none) (hlength : undos.length = redos.length)
    (hcap : p.journal.redoStack.length + undos.length ≤ MAX_ENTRIES)
    (hreversible : ReversibleUndos undos p) :
    (redos.foldl Project.redo (undos.foldl Project.undo p)).doc = p.doc ∧
      (redos.foldl Project.redo (undos.foldl Project.undo p)).journal.redoStack =
        p.journal.redoStack ∧
      (redos.foldl Project.redo (undos.foldl Project.undo p)).journal.grouping = none := by
  induction undos generalizing p redos with
  | nil =>
      rw [List.length_nil] at hlength
      rw [List.length_eq_zero_iff.mp hlength.symm]
      exact ⟨rfl, rfl, hgroup⟩
  | cons freshId undos ih =>
      obtain ⟨⟨e, rest, hstack, hfirst⟩, hlater⟩ := hreversible
      rw [List.length_cons] at hlength hcap
      rcases List.eq_nil_or_concat redos with rfl | ⟨before, last, rfl⟩
      · cases hlength
      have hbefore : undos.length = before.length := by
        rw [List.length_concat] at hlength
        omega
      obtain ⟨g, hredo, hleads⟩ :=
        redoStack_of_undo hs hgroup hstack hfirst (by omega) freshId
      have hnone : (p.undo freshId).journal.grouping = none := by
        rw [undo_eq hgroup hstack]
      obtain ⟨hdoc, hstack', hgroup'⟩ := ih (hs.undo hgroup freshId) hnone hbefore
        (by rw [hredo, List.length_cons]; omega) hlater
      rw [List.concat_eq_append, List.foldl_append, List.foldl_cons, List.foldl_cons,
        List.foldl_nil, redo_eq hgroup' (hstack'.trans hredo)]
      refine ⟨?_, rfl, rfl⟩
      dsimp only
      rw [hdoc]
      exact hleads.replayDoc last

end Returns

section Law

/-- Undo and redo are not called inside an open group, unless they find no
entry. -/
def OrderlyCall (p : Project) : Call → Prop
  | .undo _ => p.journal.grouping = none ∨ p.journal.undoStack = []
  | .redo _ => p.journal.grouping = none ∨ p.journal.redoStack = []
  | _ => True

def OrderlyStep (p q : Project) : Prop := ∃ call, OrderlyCall p call ∧ q = p.step call

theorem Sound.step {p : Project} (hs : Sound p) {call : Call} (horderly : OrderlyCall p call) :
    Sound (p.step call) := by
  cases call with
  | beginGroup => exact hs.beginGroup
  | endGroup => exact hs.endGroup
  | edit e => exact hs.edit e
  | undo freshId =>
      rcases horderly with hgroup | hempty
      · exact hs.undo hgroup freshId
      · rw [Project.step, Project.undo, UndoJournal.popUndo, hempty]
        exact hs
  | redo freshId =>
      rcases horderly with hgroup | hempty
      · exact hs.redone hgroup freshId
      · rw [Project.step, Project.redo, UndoJournal.popRedo, hempty]
        exact hs

theorem sound_of_run {doc : ProjectDef} {p : Project}
    (hrun : Run.Reaches OrderlyStep { doc := doc } p) : Sound p := by
  apply hrun.invariant (P := Sound) (sound_started doc)
  rintro a _ ⟨call, horderly, rfl⟩ ha
  exact ha.step horderly

end Law

section Example

/-- A project with one track. -/
def oneTrack (gain : ℚ) : Project where
  doc := { tracks := [{ id := "t", name := "Piste", gain := gain }] }

end Example

end DawProject.Document
