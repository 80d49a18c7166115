import DawProject.Document.Frame
import DawProject.Document.Journal

/-!
A project among peers. Local calls, undo and redo are interleaved with remote
changes, which never touch the journal. The log is history that no step reads:
each capture with what its call wrote.
-/

namespace DawProject.Document

structure Shared where
  project : Project
  log : List (Captured × List Target) := []

inductive SharedCall where
  | beginGroup
  | endGroup
  | edit (m : Mutator)
  | undo (freshId : Nat → String)
  | redo (freshId : Nat → String)
  | remote (doc : ProjectDef)

section Log

/-- What `Project.capture` records of an inverse. -/
def Project.tag (p : Project) (op : InverseOp) : Captured :=
  match p.journal.route, p.journal.grouping with
  | .normal, some _ => ⟨op, some p.gestures⟩
  | .normal, none => ⟨op, some (p.gestures + 1)⟩
  | _, _ => ⟨op, none⟩

def Project.editLog (p : Project) (m : Mutator) : List (Captured × List Target) :=
  match m.edit p.doc with
  | .throws _ => []
  | .ignored => []
  | .writes inverse _ => [(p.tag inverse, m.writes p.doc)]

/-- The log of `replay`. -/
def replayLog (freshId : Nat → String) :
    List InverseOp → ProjectDef → List (Captured × List Target)
  | [], _ => []
  | op :: ops, d =>
      let m := Mutator.named (freshId ops.length) op
      match m.edit d with
      | .throws _ => []
      | .ignored => replayLog freshId ops d
      | .writes inverse doc => (ofReplay inverse, m.writes d) :: replayLog freshId ops doc

/-- The log of an undo or a redo that pops these inverses. -/
def Project.popLog (p : Project) (freshId : Nat → String)
    (popped : Option (List Captured × UndoJournal Captured)) : List (Captured × List Target) :=
  match popped with
  | none => []
  | some (ops, _) => replayLog freshId (ops.map Captured.op) p.doc

end Log

namespace Shared

def step (s : Shared) : SharedCall → Shared
  | .beginGroup => { s with project := s.project.beginGroup }
  | .endGroup => { s with project := s.project.endGroup }
  | .edit m => { project := s.project.edit m.edit, log := s.log ++ s.project.editLog m }
  | .undo freshId =>
      { project := s.project.undo freshId
        log := s.log ++ s.project.popLog freshId s.project.journal.popUndo }
  | .redo freshId =>
      { project := s.project.redo freshId
        log := s.log ++ s.project.popLog freshId s.project.journal.popRedo }
  | .remote doc => { s with project := { s.project with doc := doc } }

def run (s : Shared) (calls : List SharedCall) : Shared := calls.foldl step s

/-- What the calls wrote whose captures the next undo replays. -/
def undone (s : Shared) : Set Target :=
  { x | ∃ e rest, s.project.journal.undoStack = e :: rest ∧
      ∃ c ∈ e.ops, ∃ written, (c, written) ∈ s.log ∧ x ∈ written }

end Shared

section Held

variable {p : Project} {c : Captured} {op : InverseOp}

/-- A capture the journal has, in a stack or in the open group. -/
def Held (j : UndoJournal Captured) (c : Captured) : Prop :=
  (∃ e ∈ j.undoStack, c ∈ e.ops) ∨ (∃ e ∈ j.redoStack, c ∈ e.ops) ∨
    ∃ g, j.grouping = some g ∧ c ∈ g.ops

theorem mem_pushCapped {stack : List (UndoGroup Captured)} {g e : UndoGroup Captured}
    (he : e ∈ UndoJournal.pushCapped stack g) : e = g ∨ e ∈ stack := by
  rw [UndoJournal.pushCapped] at he
  split at he
  · exact List.mem_cons.mp (List.dropLast_subset _ he)
  · exact List.mem_cons.mp he

theorem held_push {j : UndoJournal Captured} {g : UndoGroup Captured} (h : Held (j.push g) c) :
    Held j c ∨ c ∈ g.ops := by
  rw [UndoJournal.push] at h
  split at h
  · rcases h with hundo | ⟨e, he, hc⟩ | hgroup
    · exact Or.inl (Or.inl hundo)
    · rcases mem_pushCapped he with rfl | hold
      · exact Or.inr hc
      · exact Or.inl (Or.inr (Or.inl ⟨e, hold, hc⟩))
    · exact Or.inl (Or.inr (Or.inr hgroup))
  · rcases h with ⟨e, he, hc⟩ | hredo | hgroup
    · rcases mem_pushCapped he with rfl | hold
      · exact Or.inr hc
      · exact Or.inl (Or.inl ⟨e, hold, hc⟩)
    · exact Or.inl (Or.inr (Or.inl hredo))
    · exact Or.inl (Or.inr (Or.inr hgroup))

theorem held_beginGroup {j : UndoJournal Captured} (h : Held j.beginGroup c) : Held j c := by
  rw [UndoJournal.beginGroup] at h
  cases hgroup : j.grouping with
  | some g =>
      rw [hgroup] at h
      exact h
  | none =>
      rw [hgroup] at h
      rcases h with hundo | hredo | ⟨g, heq, hc⟩
      · exact Or.inl hundo
      · exact Or.inr (Or.inl hredo)
      · cases heq
        cases hc

theorem held_closed {j : UndoJournal Captured} (h : Held { j with grouping := none } c) :
    Held j c := by
  rcases h with hundo | hredo | ⟨g, heq, hc⟩
  · exact Or.inl hundo
  · exact Or.inr (Or.inl hredo)
  · cases heq

theorem held_endGroup {j : UndoJournal Captured} (h : Held j.endGroup c) : Held j c := by
  rw [UndoJournal.endGroup] at h
  cases hgroup : j.grouping with
  | none =>
      rw [hgroup] at h
      exact held_closed h
  | some g =>
      rw [hgroup] at h
      dsimp only at h
      split at h
      · exact held_closed h
      · rcases held_push h with hold | hc
        · exact held_closed hold
        · exact Or.inr (Or.inr ⟨g, hgroup, hc⟩)

theorem held_journal_capture {j : UndoJournal Captured} {new : Captured}
    (h : Held (j.capture Captured.key new) c) : Held j c ∨ c = new := by
  have hcleared : ∀ {k : UndoJournal Captured},
      k = (if j.route = .normal then { j with redoStack := [] } else j) → Held k c → Held j c := by
    rintro k rfl hk
    split at hk
    · rcases hk with hundo | ⟨e, he, -⟩ | hgroup
      · exact Or.inl hundo
      · cases he
      · exact Or.inr (Or.inr hgroup)
    · exact hk
  dsimp only [UndoJournal.capture] at h
  split at h
  · rename_i g hgroup
    rcases h with hundo | hredo | ⟨g', heq, hc⟩
    · exact Or.inl (hcleared rfl (Or.inl hundo))
    · exact Or.inl (hcleared rfl (Or.inr (Or.inl hredo)))
    · cases heq
      rw [UndoGroup.record] at hc
      split at hc
      · exact Or.inl (hcleared rfl (Or.inr (Or.inr ⟨g, hgroup, hc⟩)))
      · rcases List.mem_append.mp hc with hold | hnew
        · exact Or.inl (hcleared rfl (Or.inr (Or.inr ⟨g, hgroup, hold⟩)))
        · exact Or.inr (List.mem_singleton.mp hnew)
  · rcases held_push h with hold | hnew
    · exact Or.inl (hcleared rfl hold)
    · exact Or.inr (List.mem_singleton.mp hnew)

theorem journal_capture : (p.capture op).journal = p.journal.capture Captured.key (p.tag op) := by
  rw [Project.capture, Project.tag]
  cases p.journal.route <;> cases p.journal.grouping <;> rfl

theorem held_capture (h : Held (p.capture op).journal c) : Held p.journal c ∨ c = p.tag op := by
  rw [journal_capture] at h
  exact held_journal_capture h

theorem route_capture : (p.capture op).journal.route = p.journal.route := by
  rw [journal_capture]
  simp only [UndoJournal.capture, UndoJournal.push]
  cases hroute : p.journal.route <;> cases hgroup : p.journal.grouping <;> simp [hroute, hgroup]

theorem op_tag : (p.tag op).op = op := by
  rw [Project.tag]
  split <;> rfl

theorem tag_of_replay (hroute : p.journal.route ≠ .normal) : p.tag op = ofReplay op := by
  rw [Project.tag]
  cases h : p.journal.route with
  | normal => exact absurd h hroute
  | _ => rfl

end Held

section Replays

variable {p : Project} {c : Captured} {direction : Route} {freshId : Nat → String}
  {ops : List Captured}

theorem doc_replay (p : Project) (freshId : Nat → String) (ops : List Captured) :
    (Project.replay freshId ops p).doc = replayDoc freshId (ops.map Captured.op) p.doc := by
  induction ops generalizing p with
  | nil => rfl
  | cons o ops ih =>
      rw [Project.replay, List.map_cons, replayDoc, List.length_map]
      cases mutatorOf (freshId ops.length) o.op p.doc with
      | throws message => rfl
      | ignored => exact ih p
      | writes inverse doc => exact ih { p.capture inverse with doc := doc }

theorem held_replay (hroute : p.journal.route ≠ .normal)
    (h : Held (Project.replay freshId ops p).journal c) :
    Held p.journal c ∨
      ∃ written, (c, written) ∈ replayLog freshId (ops.map Captured.op) p.doc := by
  induction ops generalizing p with
  | nil => exact Or.inl h
  | cons o ops ih =>
      rw [Project.replay] at h
      rw [List.map_cons, replayLog, List.length_map, Mutator.edit]
      cases heffect : mutatorOf (freshId ops.length) o.op p.doc with
      | throws message =>
          rw [heffect] at h
          exact Or.inl h
      | ignored =>
          rw [heffect] at h
          exact ih hroute h
      | writes inverse doc =>
          rw [heffect] at h
          have hcaptured : (p.capture inverse).journal.route ≠ .normal := by rwa [route_capture]
          rcases @ih { p.capture inverse with doc := doc } hcaptured h with
            hbefore | ⟨written, hlog⟩
          · rcases held_capture hbefore with hold | rfl
            · exact Or.inl hold
            · rw [tag_of_replay hroute]
              exact Or.inr ⟨_, List.mem_cons_self⟩
          · exact Or.inr ⟨written, List.mem_cons_of_mem _ hlog⟩

theorem held_routeReplay (hdirection : direction ≠ .normal)
    (h : Held (p.routeReplay direction freshId ops).journal c) :
    Held p.journal c ∨
      ∃ written, (c, written) ∈ replayLog freshId (ops.map Captured.op) p.doc := by
  have hroute : (p.journal.enterReplay direction).route ≠ .normal := by
    rw [UndoJournal.enterReplay, UndoJournal.beginGroup]
    split <;> exact hdirection
  have hended := held_endGroup h
  rcases held_replay (p := { p with journal := p.journal.enterReplay direction }) hroute hended with
    hentered | hlog
  · have hbegun : Held { p.journal with route := direction } c := held_beginGroup hentered
    exact Or.inl hbegun
  · exact Or.inr hlog

theorem targets_of_replayLog {ops : List InverseOp} {d : ProjectDef} {written : List Target}
    (h : (c, written) ∈ replayLog freshId ops d) : ∀ x ∈ c.op.targets, x ∈ written := by
  induction ops generalizing d with
  | nil => cases h
  | cons op ops ih =>
      dsimp only [replayLog] at h
      split at h
      · cases h
      · exact ih h
      · rename_i inverse doc heffect
        rcases List.mem_cons.mp h with hfirst | hlater
        · cases hfirst
          exact targets_of_capture heffect
        · exact ih hlater

theorem replayDoc_within {T : Set Target} {ops : List InverseOp} {d : ProjectDef}
    (hT : ∀ op ∈ ops, ∀ x ∈ op.targets, x ∈ T) : Within T d (replayDoc freshId ops d) := by
  induction ops generalizing d with
  | nil => exact .refl d
  | cons op ops ih =>
      have hfirst := mutatorOf_within (d := d) (freshId ops.length) op (hT op List.mem_cons_self)
      have hrest := fun d => @ih d fun o ho => hT o (List.mem_cons_of_mem op ho)
      rw [replayDoc]
      cases heffect : mutatorOf (freshId ops.length) op d with
      | throws message => exact .refl d
      | ignored => exact hrest d
      | writes inverse doc =>
          rw [heffect] at hfirst
          exact hfirst.trans (hrest doc)

end Replays

section Law

variable {s : Shared}

/-- Every capture the journal has is in the log, and has no target that its
call did not write. -/
structure Logged (s : Shared) : Prop where
  targets : ∀ c written, (c, written) ∈ s.log → ∀ x ∈ c.op.targets, x ∈ written
  held : ∀ c, Held s.project.journal c → ∃ written, (c, written) ∈ s.log

theorem Logged.grow {log : List (Captured × List Target)} {q : Project} (hs : Logged s)
    (htargets : ∀ c written, (c, written) ∈ log → ∀ x ∈ c.op.targets, x ∈ written)
    (hheld : ∀ c, Held q.journal c →
      Held s.project.journal c ∨ ∃ written, (c, written) ∈ log) :
    Logged { project := q, log := s.log ++ log } where
  targets c written hlog := by
    rcases List.mem_append.mp hlog with hold | hnew
    · exact hs.targets c written hold
    · exact htargets c written hnew
  held c hc := by
    rcases hheld c hc with hold | ⟨written, hnew⟩
    · obtain ⟨written, hlog⟩ := hs.held c hold
      exact ⟨written, List.mem_append_left _ hlog⟩
    · exact ⟨written, List.mem_append_right _ hnew⟩

theorem Logged.edit (hs : Logged s) (m : Mutator) : Logged (s.step (.edit m)) := by
  apply hs.grow
  · intro c written hlog
    rw [Project.editLog] at hlog
    split at hlog
    · cases hlog
    · cases hlog
    · rename_i inverse doc heffect
      cases List.mem_singleton.mp hlog
      rw [op_tag]
      exact targets_of_capture heffect
  · intro c hc
    rw [Project.edit] at hc
    rw [Project.editLog]
    cases heffect : m.edit s.project.doc with
    | throws message =>
        rw [heffect] at hc
        exact Or.inl hc
    | ignored =>
        rw [heffect] at hc
        exact Or.inl hc
    | writes inverse doc =>
        rw [heffect] at hc
        rcases held_capture hc with hold | rfl
        · exact Or.inl hold
        · exact Or.inr ⟨_, List.mem_singleton_self _⟩

theorem Logged.undo (hs : Logged s) (freshId : Nat → String) :
    Logged (s.step (.undo freshId)) := by
  apply hs.grow
  · intro c written hlog
    dsimp only [Project.popLog] at hlog
    split at hlog
    · cases hlog
    · exact targets_of_replayLog hlog
  · intro c hc
    rw [Project.undo] at hc
    cases hstack : s.project.journal.undoStack with
    | nil =>
        rw [UndoJournal.popUndo, hstack] at hc
        exact Or.inl hc
    | cons e rest =>
        simp only [UndoJournal.popUndo, hstack, Project.popLog] at hc ⊢
        have hne : Route.toRedo ≠ .normal := by decide
        rcases held_routeReplay hne hc with hpopped | hlog
        · left
          rcases hpopped with ⟨e', he', hc'⟩ | hothers
          · exact Or.inl ⟨e', by rw [hstack]; exact List.mem_cons_of_mem e he', hc'⟩
          · exact Or.inr hothers
        · exact Or.inr hlog

theorem Logged.redo (hs : Logged s) (freshId : Nat → String) :
    Logged (s.step (.redo freshId)) := by
  apply hs.grow
  · intro c written hlog
    dsimp only [Project.popLog] at hlog
    split at hlog
    · cases hlog
    · exact targets_of_replayLog hlog
  · intro c hc
    rw [Project.redo] at hc
    cases hstack : s.project.journal.redoStack with
    | nil =>
        rw [UndoJournal.popRedo, hstack] at hc
        exact Or.inl hc
    | cons e rest =>
        simp only [UndoJournal.popRedo, hstack, Project.popLog] at hc ⊢
        have hne : Route.toUndo ≠ .normal := by decide
        rcases held_routeReplay hne hc with hpopped | hlog
        · left
          rcases hpopped with hundo | ⟨e', he', hc'⟩ | hgroup
          · exact Or.inl hundo
          · exact Or.inr (Or.inl ⟨e', by rw [hstack]; exact List.mem_cons_of_mem e he', hc'⟩)
          · exact Or.inr (Or.inr hgroup)
        · exact Or.inr hlog

theorem Logged.step (hs : Logged s) (call : SharedCall) : Logged (s.step call) := by
  cases call with
  | beginGroup => exact ⟨hs.targets, fun c hc => hs.held c (held_beginGroup hc)⟩
  | endGroup => exact ⟨hs.targets, fun c hc => hs.held c (held_endGroup hc)⟩
  | edit m => exact hs.edit m
  | undo freshId => exact hs.undo freshId
  | redo freshId => exact hs.redo freshId
  | remote doc => exact ⟨hs.targets, hs.held⟩

theorem Logged.run (hs : Logged s) (calls : List SharedCall) : Logged (s.run calls) := by
  induction calls generalizing s with
  | nil => exact hs
  | cons call calls ih => exact ih (hs.step call)

theorem logged_started (doc : ProjectDef) : Logged { project := { doc := doc } } where
  targets _ _ hlog := nomatch hlog
  held c hc := by
    rcases hc with ⟨e, he, -⟩ | ⟨e, he, -⟩ | ⟨g, hg, -⟩
    · cases he
    · cases he
    · cases hg

theorem Logged.undo_within (hs : Logged s) (freshId : Nat → String) :
    Within s.undone s.project.doc (s.step (.undo freshId)).project.doc := by
  rw [Shared.step, Project.undo]
  cases hstack : s.project.journal.undoStack with
  | nil =>
      rw [UndoJournal.popUndo, hstack]
      exact .refl _
  | cons e rest =>
      rw [UndoJournal.popUndo, hstack]
      have hdoc := doc_replay
        { s.project with
          journal := { s.project.journal with undoStack := rest }.enterReplay .toRedo }
        freshId e.ops.reverse
      dsimp only [Project.routeReplay, Project.endGroup]
      rw [hdoc]
      apply replayDoc_within
      intro op hop x hx
      obtain ⟨c, hc, rfl⟩ := List.mem_map.mp hop
      have hmem : c ∈ e.ops := List.mem_reverse.mp hc
      have htop : e ∈ s.project.journal.undoStack := by
        rw [hstack]
        exact List.mem_cons_self
      obtain ⟨written, hlog⟩ := hs.held c (Or.inl ⟨e, htop, hmem⟩)
      exact ⟨e, rest, hstack, c, hmem, written, hlog, hs.targets c written hlog x hx⟩

end Law

section Example

/-- A clip of the web, at a tick. -/
def musicalClip (startTick lengthTick : Int) : ClipDef where
  id := "c"
  startTick := some startTick
  lengthTick := some lengthTick

def oneClip (startTick lengthTick : Int) : ProjectDef where
  schemaVersion := 2
  tracks := [{ id := "t", name := "Piste", clips := [musicalClip startTick lengthTick] }]

end Example

end DawProject.Document
