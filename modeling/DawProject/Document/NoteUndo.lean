import DawProject.Document.Gesture
import DawProject.Document.Lookup

/-!
The notes of a clip over runs of `toggleNote` and `updateNote`, their undos and
their redos. Each call is an entry of its own. What an undo replays captures the
call it takes back, so the stacks hold the same calls at every position of the
run, and the notes are those of the position up to their order.
-/

namespace DawProject.Document

open Keyed

/-- A call that edits the notes of a clip. -/
inductive NoteOp where
  | toggle (note : NoteDef)
  | update (noteId : String) (patch : NotePatch)

namespace NoteOp

/-- The call as the journal names it. -/
def inverseOp (trackId clipId : String) : NoteOp → InverseOp
  | .toggle note => .toggleNote trackId clipId note
  | .update noteId patch => .updateNote trackId clipId noteId patch

/-- The notes after the call, with the id that a note born without one takes. -/
def after (freshId : String) (notes : List NoteDef) : NoteOp → List NoteDef
  | .toggle note =>
      if notes.any (sameNote note) then notes.eraseP (sameNote note)
      else notes ++ [{ note with id := some (note.id.getD freshId) }]
  | .update noteId patch =>
      updateFirst (fun n => n.id == some noteId) (fun n => n.applyPatch patch) notes

/-- The call that is captured: a toggle is its own inverse. -/
def back (notes : List NoteDef) : NoteOp → NoteOp
  | .toggle note => .toggle note
  | .update noteId patch =>
      .update noteId
        (((notes.find? fun n => n.id == some noteId).map patch.before).getD patch)

end NoteOp

/-- A note has a value in each field of the patch. -/
structure NotePatch.Within (patch : NotePatch) (n : NoteDef) : Prop where
  startSample : patch.startSample.isSome → n.startSample.isSome
  lengthSamples : patch.lengthSamples.isSome → n.lengthSamples.isSome
  startTick : patch.startTick.isSome → n.startTick.isSome
  lengthTick : patch.lengthTick.isSome → n.lengthTick.isSome

/-- A toggle with an id, of a note that is not there or that is there once, as
it is written in the call; an update of the only note with its id, in fields
that the note has. -/
def NoteOp.Steady (notes : List NoteDef) : NoteOp → Prop
  | .toggle note =>
      note.id.isSome ∧
        (notes.filter (sameNote note) = [] ∨ notes.filter (sameNote note) = [note])
  | .update noteId patch =>
      ∃ n, notes.filter (fun n => n.id == some noteId) = [n] ∧ patch.Within n

section Patch

variable {patch : NotePatch} {n : NoteDef}

/-- A field written and written back. -/
theorem field_back {value before : Option Int} (hwithin : value.isSome → before.isSome) :
    (value.bind fun _ => before).or (value.or before) = before ∧
      ((value.bind fun _ => before).bind fun _ => value.or before) = value ∧
      ((value.bind fun _ => before).isSome → (value.or before).isSome) := by
  cases value with
  | none => simp
  | some v =>
      obtain ⟨w, rfl⟩ := Option.isSome_iff_exists.mp (hwithin rfl)
      simp

theorem applyPatch_before (hwithin : patch.Within n) :
    (n.applyPatch patch).applyPatch (patch.before n) = n := by
  have hpitch : ((patch.pitch.map fun _ => n.pitch).getD (patch.pitch.getD n.pitch)) = n.pitch := by
    cases patch.pitch <;> rfl
  have hvelocity : ((patch.velocity.map fun _ => n.velocity).getD
      (patch.velocity.getD n.velocity)) = n.velocity := by
    cases patch.velocity <;> rfl
  simp only [NoteDef.applyPatch, NotePatch.before, hpitch, hvelocity,
    (field_back hwithin.startSample).1, (field_back hwithin.lengthSamples).1,
    (field_back hwithin.startTick).1, (field_back hwithin.lengthTick).1]

theorem before_before (hwithin : patch.Within n) :
    (patch.before n).before (n.applyPatch patch) = patch := by
  have hpitch : ((patch.pitch.map fun _ => n.pitch).map fun _ => patch.pitch.getD n.pitch) =
      patch.pitch := by
    cases patch.pitch <;> rfl
  have hvelocity : ((patch.velocity.map fun _ => n.velocity).map
      fun _ => patch.velocity.getD n.velocity) = patch.velocity := by
    cases patch.velocity <;> rfl
  simp only [NoteDef.applyPatch, NotePatch.before, hpitch, hvelocity,
    (field_back hwithin.startSample).2.1, (field_back hwithin.lengthSamples).2.1,
    (field_back hwithin.startTick).2.1, (field_back hwithin.lengthTick).2.1]

theorem within_before (hwithin : patch.Within n) :
    (patch.before n).Within (n.applyPatch patch) where
  startSample := (field_back hwithin.startSample).2.2
  lengthSamples := (field_back hwithin.lengthSamples).2.2
  startTick := (field_back hwithin.startTick).2.2
  lengthTick := (field_back hwithin.lengthTick).2.2

end Patch

section Steps

variable {op : NoteOp} {notes : List NoteDef}

theorem born_eq {note : NoteDef} (hid : note.id.isSome) (freshId : String) :
    { note with id := some (note.id.getD freshId) } = note := by
  obtain ⟨id, heq⟩ := Option.isSome_iff_exists.mp hid
  rw [heq, Option.getD_some, ← heq]

theorem after_toggle_absent {note : NoteDef} (hid : note.id.isSome)
    (habsent : notes.filter (sameNote note) = []) (freshId : String) :
    (NoteOp.toggle note).after freshId notes = notes ++ [note] := by
  have hnone : ¬notes.any (sameNote note) = true := by
    rw [List.any_eq_true]
    rintro ⟨n, hn, hsame⟩
    exact List.filter_eq_nil_iff.mp habsent n hn hsame
  rw [NoteOp.after, if_neg hnone, born_eq hid]

theorem after_toggle_present {note : NoteDef} (hpresent : notes.filter (sameNote note) = [note])
    (freshId : String) :
    (NoteOp.toggle note).after freshId notes = notes.eraseP (sameNote note) := by
  have hmem : note ∈ notes.filter (sameNote note) := by
    rw [hpresent]
    exact List.mem_cons_self
  obtain ⟨hn, hsame⟩ := List.mem_filter.mp hmem
  rw [NoteOp.after, if_pos (List.any_eq_true.mpr ⟨note, hn, hsame⟩)]

theorem eraseP_perm {p : NoteDef → Bool} {n : NoteDef} {notes' : List NoteDef}
    (hsingle : notes.filter p = [n]) (hsingle' : notes'.filter p = [n])
    (hperm : notes.Perm notes') : (notes'.eraseP p).Perm (notes.eraseP p) :=
  ((perm_eraseP_of_single hsingle').1.symm.trans
    (hperm.symm.trans (perm_eraseP_of_single hsingle).1)).cons_inv

theorem back_update {noteId : String} {n : NoteDef}
    (hsingle : notes.filter (fun n => n.id == some noteId) = [n]) (patch : NotePatch) :
    (NoteOp.update noteId patch).back notes = .update noteId (patch.before n) := by
  rw [NoteOp.back, find_of_single hsingle]
  rfl

theorem after_update {noteId : String} {n : NoteDef}
    (hsingle : notes.filter (fun n => n.id == some noteId) = [n]) (patch : NotePatch)
    (freshId : String) :
    ((NoteOp.update noteId patch).after freshId notes).Perm
      (n.applyPatch patch :: notes.eraseP fun n => n.id == some noteId) :=
  perm_updateFirst_of_single (f := fun n : NoteDef => n.applyPatch patch) hsingle

/-- A steady call on notes in another order. -/
theorem NoteOp.Steady.perm {notes' : List NoteDef} (hsteady : op.Steady notes)
    (hperm : notes.Perm notes') :
    op.Steady notes' ∧ op.back notes' = op.back notes ∧
      ∀ freshId, (op.after freshId notes').Perm (op.after freshId notes) := by
  cases op with
  | toggle note =>
      obtain ⟨hid, habsent | hpresent⟩ := hsteady
      · have habsent' : notes'.filter (sameNote note) = [] := by
          have hfilter := hperm.filter (sameNote note)
          rw [habsent] at hfilter
          exact hfilter.nil_eq.symm
        refine ⟨⟨hid, Or.inl habsent'⟩, rfl, fun freshId => ?_⟩
        rw [after_toggle_absent hid habsent', after_toggle_absent hid habsent]
        exact hperm.symm.append_right [note]
      · have hpresent' : notes'.filter (sameNote note) = [note] := by
          have hfilter := hperm.filter (sameNote note)
          rw [hpresent] at hfilter
          exact hfilter.singleton_eq.symm
        refine ⟨⟨hid, Or.inr hpresent'⟩, rfl, fun freshId => ?_⟩
        rw [after_toggle_present hpresent', after_toggle_present hpresent]
        exact eraseP_perm hpresent hpresent' hperm
  | update noteId patch =>
      obtain ⟨n, hsingle, hwithin⟩ := hsteady
      have hsingle' : notes'.filter (fun n => n.id == some noteId) = [n] := by
        have hfilter := hperm.filter fun n => n.id == some noteId
        rw [hsingle] at hfilter
        exact hfilter.singleton_eq.symm
      refine ⟨⟨n, hsingle', hwithin⟩, ?_, fun freshId => ?_⟩
      · rw [back_update hsingle', back_update hsingle]
      · have hrest := eraseP_perm hsingle hsingle' hperm
        exact (after_update hsingle' patch freshId).trans
          ((hrest.cons _).trans (after_update hsingle patch freshId).symm)

/-- A steady call draws no id. -/
theorem NoteOp.Steady.after_eq (hsteady : op.Steady notes) (freshId freshId' : String) :
    op.after freshId notes = op.after freshId' notes := by
  cases op with
  | toggle note => rw [NoteOp.after, NoteOp.after, born_eq hsteady.1, born_eq hsteady.1]
  | update noteId patch => rfl

/-- What a steady call captures takes it back, and captures it again. -/
theorem NoteOp.Steady.back (hsteady : op.Steady notes) (freshId : String) :
    (op.back notes).Steady (op.after freshId notes) ∧
      (op.back notes).back (op.after freshId notes) = op ∧
      ∀ freshId', ((op.back notes).after freshId' (op.after freshId notes)).Perm notes := by
  cases op with
  | toggle note =>
      obtain ⟨hid, habsent | hpresent⟩ := hsteady
      · have hborn : (notes ++ [note]).filter (sameNote note) = [note] := by
          rw [List.filter_append, habsent, List.filter_singleton, sameNote_self]
          rfl
        rw [after_toggle_absent hid habsent]
        refine ⟨⟨hid, Or.inr hborn⟩, rfl, fun freshId' => ?_⟩
        rw [NoteOp.back, after_toggle_present hborn]
        exact ((perm_eraseP_of_single hborn).1.symm.trans (List.perm_append_singleton _ _)).cons_inv
      · obtain ⟨hrest, hgone⟩ := perm_eraseP_of_single hpresent
        rw [after_toggle_present hpresent]
        refine ⟨⟨hid, Or.inl hgone⟩, rfl, fun freshId' => ?_⟩
        rw [NoteOp.back, after_toggle_absent hid hgone]
        exact (List.perm_append_singleton _ _).trans hrest.symm
  | update noteId patch =>
      obtain ⟨n, hsingle, hwithin⟩ := hsteady
      obtain ⟨hrest, hgone⟩ := perm_eraseP_of_single hsingle
      have hkept : ((n.applyPatch patch).id == some noteId) = true := by
        have hmem : n ∈ notes.filter fun n => n.id == some noteId := by
          rw [hsingle]
          exact List.mem_cons_self
        exact (List.mem_filter.mp hmem).2
      have hwritten := after_update hsingle patch freshId
      have hsingle' : ((NoteOp.update noteId patch).after freshId notes).filter
          (fun n => n.id == some noteId) = [n.applyPatch patch] := by
        have hfilter := hwritten.filter fun n => n.id == some noteId
        rw [List.filter_cons_of_pos (p := fun n : NoteDef => n.id == some noteId) hkept, hgone]
          at hfilter
        exact hfilter.symm.singleton_eq.symm
      obtain ⟨hrest', _⟩ := perm_eraseP_of_single hsingle'
      rw [back_update hsingle]
      refine ⟨⟨_, hsingle', within_before hwithin⟩, ?_, fun freshId' => ?_⟩
      · rw [back_update hsingle', before_before hwithin]
      · refine (after_update hsingle' _ freshId').trans ?_
        rw [applyPatch_before hwithin]
        exact (((hrest'.symm.trans hwritten).cons_inv).cons n).trans hrest.symm

end Steps

section Calls

variable {d : ProjectDef} {trackId clipId : String} {op : NoteOp} {notes : List NoteDef}

/-- The notes of a clip. -/
def notesIn (trackId clipId : String) (d : ProjectDef) : Option (List NoteDef) :=
  (d.findClip trackId clipId).map fun c => c.notes.getD []

theorem notesIn_updateClip {f : ClipDef → ClipDef} (hid : ∀ c, (f c).id = c.id) :
    notesIn trackId clipId (d.updateClip trackId clipId f) =
      (d.findClip trackId clipId).map fun c => (f c).notes.getD [] := by
  rw [notesIn, findClip_updateClip hid, Option.map_map]
  rfl

theorem findClip_bumped (bump : Bool) :
    (if bump then ensureV2 d else d).findClip trackId clipId = d.findClip trackId clipId := by
  split
  · rw [ProjectDef.findClip, ProjectDef.findTrack, tracks_ensureV2]
    rfl
  · rfl

/-- What a steady call writes and captures. -/
theorem effect_of_steady (hnotes : notesIn trackId clipId d = some notes)
    (hsteady : op.Steady notes) (freshId : String) :
    ∃ doc, mutatorOf freshId (op.inverseOp trackId clipId) d =
        .writes ((op.back notes).inverseOp trackId clipId) doc ∧
      notesIn trackId clipId doc = some (op.after freshId notes) := by
  obtain ⟨clip, hclip, rfl⟩ := Option.map_eq_some_iff.mp hnotes
  cases op with
  | toggle note =>
      refine ⟨_, by simp only [NoteOp.inverseOp, mutatorOf, toggleNote, hclip]; rfl, ?_⟩
      rw [NoteOp.after]
      split
      · rw [notesIn_updateClip, hclip]
        · rfl
        · exact fun _ => rfl
      · rw [notesIn_updateClip, findClip_bumped, hclip]
        · rfl
        · exact fun _ => rfl
  | update noteId patch =>
      obtain ⟨n, hsingle, _⟩ := hsteady
      have hfind : ((d.findClip trackId clipId).bind fun c =>
          (c.notes.getD []).find? fun n => n.id == some noteId) = some n := by
        rw [hclip]
        exact find_of_single hsingle
      rw [back_update hsingle]
      refine ⟨_, by simp only [NoteOp.inverseOp, mutatorOf, updateNote, hfind]; rfl, ?_⟩
      rw [notesIn_updateClip, hclip]
      · simp only [Option.map_some, NoteOp.after]
        cases clip.notes <;> rfl
      · exact fun _ => rfl

end Calls


section Stacks

variable {stack : List (UndoGroup Captured)} {e : UndoGroup Captured}

/-- The calls of an entry. -/
def opsOf (e : UndoGroup Captured) : List InverseOp := e.ops.map Captured.op

/-- A push keeps what is on top of a stack that is not full of it. -/
theorem pushCapped_top {top rest : List (List InverseOp)} (hstack : stack.map opsOf = top ++ rest)
    (hcount : top.length < MAX_ENTRIES) :
    ∃ rest', (UndoJournal.pushCapped stack e).map opsOf = opsOf e :: (top ++ rest') := by
  rw [UndoJournal.pushCapped]
  split
  · rename_i hfull
    have hlength := congrArg List.length hstack
    rw [List.length_map, List.length_append] at hlength
    rw [List.length_cons] at hfull
    have hrest : rest ≠ [] := by
      rintro rfl
      rw [List.length_nil] at hlength
      omega
    refine ⟨rest.dropLast, ?_⟩
    rw [List.map_dropLast, List.map_cons, hstack, List.dropLast_cons_of_ne_nil (by simp [hrest]),
      List.dropLast_append_of_ne_nil hrest]
  · exact ⟨rest, by rw [List.map_cons, hstack]⟩

theorem pushEntry_top {top rest : List (List InverseOp)} {op : InverseOp} (hentry : opsOf e = [op])
    (hstack : stack.map opsOf = top ++ rest) (hcount : top.length < MAX_ENTRIES) :
    ∃ rest', (pushEntry stack e).map opsOf = [op] :: (top ++ rest') := by
  have hne : e.ops ≠ [] := by
    intro hempty
    rw [opsOf, hempty] at hentry
    cases hentry
  rw [pushEntry, if_neg hne, ← hentry]
  exact pushCapped_top hstack hcount

theorem opsOf_replayEntry {freshId : Nat → String} {op inverse : InverseOp} {d doc : ProjectDef}
    (hops : opsOf e = [op]) (heffect : mutatorOf (freshId 0) op d = .writes inverse doc) :
    opsOf (replayEntry freshId e.ops.reverse d) = [inverse] ∧
      replayDoc freshId (e.ops.reverse.map Captured.op) d = doc := by
  have hreplayed : e.ops.reverse.map Captured.op = [op] := by
    rw [List.map_reverse, ← opsOf, hops]
    rfl
  have hcaptures : replayCaptures freshId [op] d = [inverse] := by
    rw [replayCaptures, List.length_nil, heffect]
    rfl
  constructor
  · rw [replayEntry, hreplayed, hcaptures]
    rfl
  · rw [hreplayed, replayDoc_singleton, heffect]
    rfl

end Stacks

/-- A run of steady calls: the call and the notes at each position. -/
structure NoteRun where
  length : Nat
  op : Nat → NoteOp
  notes : Nat → List NoteDef
  steady : ∀ i < length, (op i).Steady (notes i)
  step : ∀ i < length, ∃ freshId, notes (i + 1) = (op i).after freshId (notes i)
  short : length ≤ MAX_ENTRIES

namespace NoteRun

variable {r : NoteRun} {trackId clipId : String} {i : Nat} {p : Project}

/-- What the undo stack holds on top after `i` calls. -/
def undos (r : NoteRun) (trackId clipId : String) (i : Nat) : List (List InverseOp) :=
  (List.range i).reverse.map fun k => [((r.op k).back (r.notes k)).inverseOp trackId clipId]

/-- What the redo stack holds on top before the calls from `i` on. -/
def redos (r : NoteRun) (trackId clipId : String) (i : Nat) : List (List InverseOp) :=
  (List.range' i (r.length - i)).map fun k => [(r.op k).inverseOp trackId clipId]

theorem undos_succ (r : NoteRun) (trackId clipId : String) (i : Nat) :
    r.undos trackId clipId (i + 1) =
      [((r.op i).back (r.notes i)).inverseOp trackId clipId] :: r.undos trackId clipId i := by
  rw [undos, List.range_succ, List.reverse_append]
  rfl

theorem redos_of_lt (hi : i < r.length) :
    r.redos trackId clipId i =
      [(r.op i).inverseOp trackId clipId] :: r.redos trackId clipId (i + 1) := by
  have hcount : r.length - i = (r.length - (i + 1)) + 1 := by omega
  rw [redos, hcount, List.range'_succ]
  rfl

/-- A project at a position of the run. -/
structure StandsAt (r : NoteRun) (trackId clipId : String) (i : Nat) (p : Project) : Prop where
  inside : i ≤ r.length
  rest : p.AtRest
  notes : ∃ notes, notesIn trackId clipId p.doc = some notes ∧ notes.Perm (r.notes i)
  undo : ∃ older, p.journal.undoStack.map opsOf = r.undos trackId clipId i ++ older
  redo : ∃ later, p.journal.redoStack.map opsOf = r.redos trackId clipId i ++ later

/-- An undo goes one position back. -/
theorem StandsAt.undone (h : r.StandsAt trackId clipId (i + 1) p) (freshId : Nat → String) :
    r.StandsAt trackId clipId i (p.undo freshId) := by
  have hi : i < r.length := h.inside
  obtain ⟨notes, hnotes, hperm⟩ := h.notes
  obtain ⟨older, hundo⟩ := h.undo
  obtain ⟨later, hredo⟩ := h.redo
  obtain ⟨fresh, hstep⟩ := r.step i hi
  rw [undos_succ, List.cons_append, List.map_eq_cons_iff] at hundo
  obtain ⟨e, rest, hstack, hops, hrest⟩ := hundo
  obtain ⟨hsteady, hback, hafter⟩ := (r.steady i hi).back fresh
  rw [← hstep] at hsteady hback hafter
  obtain ⟨hsteady', hback', hafter'⟩ := hsteady.perm hperm.symm
  obtain ⟨doc, heffect, hdoc⟩ := effect_of_steady hnotes hsteady' (freshId 0)
  rw [hback', hback] at heffect
  obtain ⟨hentry, hreplay⟩ := opsOf_replayEntry hops heffect
  have hcount : (r.redos trackId clipId (i + 1)).length < MAX_ENTRIES := by
    have := r.short
    simp only [redos, List.length_map, List.length_range']
    omega
  obtain ⟨later', hpushed⟩ := pushEntry_top hentry hredo hcount
  rw [undo_eq h.rest.grouping hstack, hreplay]
  refine ⟨hi.le, ⟨rfl, rfl⟩, ⟨_, hdoc, (hafter' _).trans (hafter _)⟩, ⟨older, hrest⟩, later', ?_⟩
  dsimp only
  rw [hpushed, redos_of_lt hi, List.cons_append]

/-- A redo goes one position on. -/
theorem StandsAt.redone (h : r.StandsAt trackId clipId i p) (hi : i < r.length)
    (freshId : Nat → String) : r.StandsAt trackId clipId (i + 1) (p.redo freshId) := by
  obtain ⟨notes, hnotes, hperm⟩ := h.notes
  obtain ⟨older, hundo⟩ := h.undo
  obtain ⟨later, hredo⟩ := h.redo
  obtain ⟨fresh, hstep⟩ := r.step i hi
  rw [redos_of_lt hi, List.cons_append, List.map_eq_cons_iff] at hredo
  obtain ⟨e, rest, hstack, hops, hrest⟩ := hredo
  obtain ⟨hsteady', hback', hafter'⟩ := (r.steady i hi).perm hperm.symm
  obtain ⟨doc, heffect, hdoc⟩ := effect_of_steady hnotes hsteady' (freshId 0)
  rw [hback'] at heffect
  obtain ⟨hentry, hreplay⟩ := opsOf_replayEntry hops heffect
  have hcount : (r.undos trackId clipId i).length < MAX_ENTRIES := by
    have := r.short
    simp only [undos, List.length_map, List.length_reverse, List.length_range]
    omega
  obtain ⟨older', hpushed⟩ := pushEntry_top hentry hundo hcount
  rw [redo_eq h.rest.grouping hstack, hreplay]
  refine ⟨hi, ⟨rfl, rfl⟩, ⟨_, hdoc, ?_⟩, ⟨older', ?_⟩, later, hrest⟩
  · rw [hstep, (r.steady i hi).after_eq fresh (freshId 0)]
    exact hafter' _
  · dsimp only
    rw [hpushed, undos_succ, List.cons_append]

theorem StandsAt.undos {undos : List (Nat → String)} (h : r.StandsAt trackId clipId i p)
    (hcount : undos.length ≤ i) :
    r.StandsAt trackId clipId (i - undos.length) (undos.foldl Project.undo p) := by
  induction undos generalizing i p with
  | nil => exact h
  | cons freshId undos ih =>
      obtain ⟨k, rfl⟩ := Nat.exists_eq_add_of_le' (Nat.lt_of_lt_of_le (Nat.succ_pos _) hcount)
      rw [List.length_cons] at hcount ⊢
      have hlater := ih (h.undone freshId) (by omega)
      rwa [Nat.add_sub_add_right]

theorem StandsAt.redos {redos : List (Nat → String)} (h : r.StandsAt trackId clipId i p)
    (hcount : i + redos.length ≤ r.length) :
    r.StandsAt trackId clipId (i + redos.length) (redos.foldl Project.redo p) := by
  induction redos generalizing i p with
  | nil => exact h
  | cons freshId redos ih =>
      rw [List.length_cons] at hcount ⊢
      have hlater := ih (h.redone (by omega) freshId) (by omega)
      rwa [Nat.add_right_comm, Nat.add_assoc] at hlater

end NoteRun

section Perform

/-- A call on a clip and the id it draws. -/
structure NoteGesture where
  freshId : String
  op : NoteOp

/-- The call, outside a group. -/
def Project.perform (trackId clipId : String) (p : Project) (g : NoteGesture) : Project :=
  p.edit (mutatorOf g.freshId (g.op.inverseOp trackId clipId))

/-- Each call of the sequence is steady on the notes it finds. -/
def SteadyRun (trackId clipId : String) : List NoteGesture → Project → Prop
  | [], _ => True
  | g :: gestures, p =>
      (∃ notes, notesIn trackId clipId p.doc = some notes ∧ g.op.Steady notes) ∧
        SteadyRun trackId clipId gestures (p.perform trackId clipId g)

/-- Two documents have the same notes in a clip, ids and all fields, up to their
order in the list. -/
def SameNotes (trackId clipId : String) (d d' : ProjectDef) : Prop :=
  ∃ notes notes', notesIn trackId clipId d = some notes ∧ notesIn trackId clipId d' = some notes' ∧
    notes.Perm notes'

variable {trackId clipId : String} {p : Project}

theorem perform_of_steady {g : NoteGesture} {notes : List NoteDef} (hrest : p.AtRest)
    (hnotes : notesIn trackId clipId p.doc = some notes) (hsteady : g.op.Steady notes) :
    (p.perform trackId clipId g).AtRest ∧
      notesIn trackId clipId (p.perform trackId clipId g).doc = some (g.op.after g.freshId notes) ∧
      ∃ c, (p.perform trackId clipId g).journal.undoStack =
          UndoJournal.pushCapped p.journal.undoStack c ∧
        opsOf c = [(g.op.back notes).inverseOp trackId clipId] := by
  obtain ⟨doc, heffect, hdoc⟩ := effect_of_steady hnotes hsteady g.freshId
  obtain ⟨hclosed, hafter, _, c, hstack, hops⟩ := edit_of_writes hrest heffect
  refine ⟨hclosed, ?_, c, hstack, hops⟩
  rw [Project.perform, hafter, hdoc]

variable {gestures : List NoteGesture} {k : Nat} {g : NoteGesture}

/-- The project after the first calls. -/
def Project.after (trackId clipId : String) (p : Project) (gestures : List NoteGesture) (k : Nat) :
    Project :=
  (gestures.take k).foldl (Project.perform trackId clipId) p

theorem after_succ (hg : gestures[k]? = some g) :
    p.after trackId clipId gestures (k + 1) =
      (p.after trackId clipId gestures k).perform trackId clipId g := by
  rw [Project.after, List.take_add_one, hg, List.foldl_append]
  rfl

theorem steady_after (hsteady : SteadyRun trackId clipId gestures p)
    (hg : gestures[k]? = some g) :
    ∃ notes, notesIn trackId clipId (p.after trackId clipId gestures k).doc = some notes ∧
      g.op.Steady notes := by
  induction gestures generalizing p k with
  | nil => cases hg
  | cons f gestures ih =>
      obtain ⟨hfirst, hlater⟩ := hsteady
      cases k with
      | zero =>
          cases hg
          exact hfirst
      | succ k => exact ih hlater hg

/-- The notes after the first calls. -/
def notesAfter (trackId clipId : String) (p : Project) (gestures : List NoteGesture) (k : Nat) :
    List NoteDef :=
  (notesIn trackId clipId (p.after trackId clipId gestures k).doc).getD []

def opAt (gestures : List NoteGesture) (k : Nat) : NoteOp :=
  (gestures[k]?.map NoteGesture.op).getD (.update "" {})

theorem atRest_after (hrest : p.AtRest) (hsteady : SteadyRun trackId clipId gestures p)
    (hk : k ≤ gestures.length) : (p.after trackId clipId gestures k).AtRest := by
  induction k with
  | zero => exact hrest
  | succ k ih =>
      have hg := List.getElem?_eq_getElem (Nat.lt_of_succ_le hk)
      obtain ⟨notes, hnotes, hop⟩ := steady_after hsteady hg
      rw [after_succ hg]
      exact (perform_of_steady (ih (by omega)) hnotes hop).1

/-- A sequence of steady calls is a run. -/
def runOf (hrest : p.AtRest) (hsteady : SteadyRun trackId clipId gestures p)
    (hcount : gestures.length ≤ MAX_ENTRIES) : NoteRun where
  length := gestures.length
  op := opAt gestures
  notes := notesAfter trackId clipId p gestures
  steady := by
    intro i hi
    have hg := List.getElem?_eq_getElem hi
    obtain ⟨notes, hnotes, hop⟩ := steady_after hsteady hg
    rw [opAt, hg, notesAfter, hnotes]
    exact hop
  step := by
    intro i hi
    have hg := List.getElem?_eq_getElem hi
    obtain ⟨notes, hnotes, hop⟩ := steady_after hsteady hg
    obtain ⟨_, hdoc, _⟩ := perform_of_steady (atRest_after hrest hsteady hi.le) hnotes hop
    refine ⟨gestures[i].freshId, ?_⟩
    rw [notesAfter, after_succ hg, hdoc, opAt, hg, notesAfter, hnotes]
    rfl
  short := hcount

theorem notesIn_after (hrest : p.AtRest) (hclip : (p.doc.findClip trackId clipId).isSome)
    (hsteady : SteadyRun trackId clipId gestures p) (hk : k ≤ gestures.length) :
    notesIn trackId clipId (p.after trackId clipId gestures k).doc =
      some (notesAfter trackId clipId p gestures k) := by
  have hsome : ∃ notes, notesIn trackId clipId (p.after trackId clipId gestures k).doc =
      some notes := by
    cases k with
    | zero =>
        obtain ⟨clip, hclip⟩ := Option.isSome_iff_exists.mp hclip
        exact ⟨_, congrArg (Option.map _) hclip⟩
    | succ k =>
        have hg := List.getElem?_eq_getElem (Nat.lt_of_succ_le hk)
        obtain ⟨notes, hnotes, hop⟩ := steady_after hsteady hg
        rw [after_succ hg]
        exact ⟨_, (perform_of_steady (atRest_after hrest hsteady (by omega)) hnotes hop).2.1⟩
  obtain ⟨notes, hnotes⟩ := hsome
  rw [notesAfter, hnotes, Option.getD_some]

/-- Each call leaves its inverse on top of the stack. -/
theorem undoStack_after (hrest : p.AtRest) (hsteady : SteadyRun trackId clipId gestures p)
    (hcount : gestures.length ≤ MAX_ENTRIES) (hk : k ≤ gestures.length) :
    ∃ older, (p.after trackId clipId gestures k).journal.undoStack.map opsOf =
      (runOf hrest hsteady hcount).undos trackId clipId k ++ older := by
  induction k with
  | zero => exact ⟨_, rfl⟩
  | succ k ih =>
      obtain ⟨older, hstack⟩ := ih (by omega)
      have hg := List.getElem?_eq_getElem (Nat.lt_of_succ_le hk)
      obtain ⟨notes, hnotes, hop⟩ := steady_after hsteady hg
      obtain ⟨_, _, c, hpush, hops⟩ :=
        perform_of_steady (atRest_after hrest hsteady (by omega)) hnotes hop
      have hroom : ((runOf hrest hsteady hcount).undos trackId clipId k).length < MAX_ENTRIES := by
        simp only [NoteRun.undos, List.length_map, List.length_reverse, List.length_range]
        omega
      obtain ⟨older', htop⟩ := pushCapped_top (e := c) hstack hroom
      have hback : ((runOf hrest hsteady hcount).op k).back
          ((runOf hrest hsteady hcount).notes k) = gestures[k].op.back notes := by
        change (opAt gestures k).back (notesAfter trackId clipId p gestures k) = _
        rw [opAt, hg, notesAfter, hnotes]
        rfl
      refine ⟨older', ?_⟩
      rw [after_succ hg, hpush, htop, hops, NoteRun.undos_succ, hback]
      rfl

/-- After its calls, a project stands at the end of their run. -/
theorem standsAt_after (hrest : p.AtRest) (hclip : (p.doc.findClip trackId clipId).isSome)
    (hsteady : SteadyRun trackId clipId gestures p) (hcount : gestures.length ≤ MAX_ENTRIES) :
    (runOf hrest hsteady hcount).StandsAt trackId clipId gestures.length
      (p.after trackId clipId gestures gestures.length) where
  inside := le_rfl
  rest := atRest_after hrest hsteady le_rfl
  notes := ⟨_, notesIn_after hrest hclip hsteady le_rfl, .refl _⟩
  undo := undoStack_after hrest hsteady hcount le_rfl
  redo := by
    have hnone : (runOf hrest hsteady hcount).redos trackId clipId gestures.length = [] := by
      rw [NoteRun.redos, runOf, Nat.sub_self]
      rfl
    rw [hnone]
    exact ⟨_, rfl⟩

/-- Undos and redos of steady calls give back the notes of each position: an
undo restores every field of a note that was removed, and a redo finds and gives
back the notes with the ids they had. -/
theorem notes_of_undos_redos (hrest : p.AtRest) (hclip : (p.doc.findClip trackId clipId).isSome)
    (hsteady : SteadyRun trackId clipId gestures p) (hcount : gestures.length ≤ MAX_ENTRIES)
    {undos redos : List (Nat → String)} (hundos : undos.length ≤ gestures.length)
    (hredos : redos.length ≤ undos.length) :
    SameNotes trackId clipId
      (redos.foldl Project.redo
        (undos.foldl Project.undo (gestures.foldl (Project.perform trackId clipId) p))).doc
      ((gestures.take (gestures.length - undos.length + redos.length)).foldl
        (Project.perform trackId clipId) p).doc := by
  have hend := standsAt_after hrest hclip hsteady hcount
  rw [Project.after, List.take_length] at hend
  have hinside : gestures.length - undos.length + redos.length ≤
      (runOf hrest hsteady hcount).length := by
    change _ ≤ gestures.length
    omega
  have hstands := (hend.undos hundos).redos hinside
  obtain ⟨notes, hnotes, hperm⟩ := hstands.notes
  exact ⟨notes, _, hnotes, notesIn_after hrest hclip hsteady (by omega), hperm⟩

/-- A clip with the notes. -/
def clipWith (notes : List NoteDef) : Project where
  doc :=
    { schemaVersion := 2
      tracks :=
        [{ id := "t", name := "Keys"
           clips :=
            [{ id := "c", startTick := some 0, lengthTick := some 1920, notes := some notes }] }] }

def middleC (id : Option String) (velocity : Int) : NoteDef where
  id := id
  pitch := 60
  velocity := velocity
  startTick := some 0
  lengthTick := some 480

/-- A note made louder and then removed. -/
def louderThenGone : List NoteGesture :=
  [⟨"x", .update "n1" { velocity := some 120 }⟩, ⟨"x", .toggle (middleC (some "n1") 120)⟩]

theorem notes_of_undos_redos_louder :
    SameNotes "t" "c"
      ([fun _ => "y"].foldl Project.redo
        ([fun _ => "y", fun _ => "y"].foldl Project.undo
          (louderThenGone.foldl (Project.perform "t" "c")
            (clipWith [middleC (some "n1") 100])))).doc
      ((louderThenGone.take (2 - 2 + 1)).foldl (Project.perform "t" "c")
        (clipWith [middleC (some "n1") 100])).doc := by
  have hsteady : SteadyRun "t" "c" louderThenGone (clipWith [middleC (some "n1") 100]) :=
    ⟨⟨_, rfl, ⟨_, rfl, ⟨nofun, nofun, nofun, nofun⟩⟩⟩, ⟨_, rfl, rfl, Or.inr (by decide)⟩, trivial⟩
  exact notes_of_undos_redos ⟨rfl, rfl⟩ rfl hsteady (by decide) (by decide) (by decide)

/-- A note drawn without an id, and then made louder under the id it took. -/
def drawnThenLouder : List NoteGesture :=
  [⟨"n1", .toggle (middleC none 100)⟩, ⟨"x", .update "n1" { velocity := some 120 }⟩]

/-- The redo draws another id, and the louder velocity finds no note. -/
theorem not_sameNotes_drawn :
    notesIn "t" "c" (drawnThenLouder.foldl (Project.perform "t" "c") (clipWith [])).doc =
        some [middleC (some "n1") 120] ∧
      notesIn "t" "c"
          ([fun _ => "n2", fun _ => "n2"].foldl Project.redo
            ([fun _ => "n2", fun _ => "n2"].foldl Project.undo
              (drawnThenLouder.foldl (Project.perform "t" "c") (clipWith [])))).doc =
        some [middleC (some "n2") 100] ∧
      ¬SameNotes "t" "c"
        ([fun _ => "n2", fun _ => "n2"].foldl Project.redo
          ([fun _ => "n2", fun _ => "n2"].foldl Project.undo
            (drawnThenLouder.foldl (Project.perform "t" "c") (clipWith [])))).doc
        (drawnThenLouder.foldl (Project.perform "t" "c") (clipWith [])).doc := by
  have hbefore : notesIn "t" "c"
      (drawnThenLouder.foldl (Project.perform "t" "c") (clipWith [])).doc =
        some [middleC (some "n1") 120] := by
    decide
  have hafter : notesIn "t" "c"
      ([fun _ => "n2", fun _ => "n2"].foldl Project.redo
        ([fun _ => "n2", fun _ => "n2"].foldl Project.undo
          (drawnThenLouder.foldl (Project.perform "t" "c") (clipWith [])))).doc =
        some [middleC (some "n2") 100] := by
    decide
  refine ⟨hbefore, hafter, ?_⟩
  rintro ⟨notes, notes', hnotes, hnotes', hperm⟩
  rw [hafter] at hnotes
  rw [hbefore] at hnotes'
  cases hnotes
  cases hnotes'
  exact absurd hperm.singleton_eq (by decide)

end Perform

end DawProject.Document
