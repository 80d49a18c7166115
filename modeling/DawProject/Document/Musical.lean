import DawProject.Document.Lookup
import DawProject.Document.Quiet

/-!
The version a musical document has. `ensureV2` bumps it on the first musical
write, and each mutator that can write a tick has to call it by hand. Those that
insert what they are given whole do not: a session keeps its musical documents
in version 2 as long as it gives those no ticks, and undo and redo then keep it
too.
-/

namespace DawProject.Document

open Keyed

section Ticked

def NoteDef.Ticked (n : NoteDef) : Prop := n.startTick.isSome ∨ n.lengthTick.isSome

def ClipDef.Ticked (c : ClipDef) : Prop :=
  c.startTick.isSome ∨ c.lengthTick.isSome ∨ ∃ n ∈ c.notes.getD [], n.Ticked

def TrackDef.Ticked (t : TrackDef) : Prop := ∃ c ∈ t.clips, c.Ticked

/-- A clip or a note of the document has a tick field. -/
def ProjectDef.Ticked (d : ProjectDef) : Prop := ∃ t ∈ d.tracks, t.Ticked

/-- The engine reads the ticks of the document, if it has any. -/
def ProjectDef.Versioned (d : ProjectDef) : Prop := d.Ticked → 2 ≤ d.schemaVersion

end Ticked

section Unannounced

/-- The ticks a call would write without a bump are among its arguments. -/
def InverseOp.Brings : InverseOp → Prop
  | .addTrack track => track.Ticked
  | .addClip _ clip => clip.startTick = none ∧ clip.Ticked
  | .toggleNote _ _ note => note.startTick = none ∧ note.lengthTick.isSome
  | .updateNote _ _ _ patch => patch.startTick.isSome ∨ patch.lengthTick.isSome
  | .restoreScene _ _ clips => ∃ placed ∈ clips, placed.clip.Ticked
  | _ => False

/-- The track of a slot is there, and no clip of it has the slot's id. -/
def ProjectDef.hasRoom (d : ProjectDef) (placed : PlacedClip) : Bool :=
  (d.findTrack placed.trackId).any fun t => !t.clips.any fun c => c.id == placed.clip.id

/-- The slots that `restoreScene` puts back: of those with one id for one track
the first, where there is room. -/
def Lands (d : ProjectDef) (clips : List PlacedClip) (placed : PlacedClip) : Prop :=
  (clips.find? fun x => x.trackId == placed.trackId && x.clip.id == placed.clip.id) =
      some placed ∧
    d.hasRoom placed = true

/-- What a call of a mutator would write to is there. -/
def InverseOp.Finds (d : ProjectDef) : InverseOp → Prop
  | .addClip trackId _ => (d.findTrack trackId).isSome
  | .toggleNote trackId clipId _ => (d.findClip trackId clipId).isSome
  | .updateNote trackId clipId noteId _ =>
      ((d.findClip trackId clipId).bind fun c =>
        (c.notes.getD []).find? fun n => n.id == some noteId).isSome
  | .restoreScene scene _ clips =>
      ((d.scenes.getD []).any fun s => s.id == scene.id) = false ∧
        ∃ placed, Lands d clips placed ∧ placed.clip.Ticked
  | _ => True

/-- A call that brings ticks to a document of version 1 and leaves it there. -/
def InverseOp.Unannounced (d : ProjectDef) (op : InverseOp) : Prop :=
  d.schemaVersion < 2 ∧ op.Brings ∧ op.Finds d

def Mutator.Unannounced (d : ProjectDef) : Mutator → Prop
  | .named _ op => op.Unannounced d
  | _ => False

end Unannounced

/-- Ticks that a call writes, or that its inverse would, were in the document
before, or the document is in version 2. -/
def Effect.Careful (d : ProjectDef) : Effect → Prop
  | .writes inverse doc => doc.Ticked ∨ inverse.Brings → d.Ticked ∨ 2 ≤ doc.schemaVersion
  | _ => True

section Lookups

variable {d : ProjectDef} {trackId clipId : String} {track : TrackDef} {clip : ClipDef}
  {Q : Prop}

theorem ticked_of_find {p : TrackDef → Bool} (hfind : d.tracks.find? p = some track)
    (hticked : track.Ticked) : d.Ticked :=
  ⟨track, List.mem_of_find?_eq_some hfind, hticked⟩

theorem ticked_of_findClip (hfind : d.findClip trackId clipId = some clip)
    (hticked : clip.Ticked) : d.Ticked := by
  obtain ⟨track, htrack, hclip⟩ := Option.bind_eq_some_iff.mp hfind
  exact ticked_of_find htrack ⟨clip, List.mem_of_find?_eq_some hclip, hticked⟩

theorem version_ensureV2 (d : ProjectDef) : 2 ≤ (ensureV2 d).schemaVersion := by
  rw [ensureV2]
  split
  · exact le_refl 2
  · rename_i hversion
    exact not_lt.mp hversion

theorem ticked_updateTrack {f : TrackDef → TrackDef}
    (hf : ∀ t, d.findTrack trackId = some t → (f t).Ticked → t.Ticked ∨ Q)
    (h : (d.updateTrack trackId f).Ticked) : d.Ticked ∨ Q := by
  obtain ⟨t, ht, hticked⟩ := h
  rcases mem_updateFirst ht with hold | ⟨before, hbefore, rfl⟩
  · exact Or.inl ⟨t, hold, hticked⟩
  · exact (hf before hbefore hticked).imp_left (ticked_of_find hbefore)

theorem ticked_updateClip {f : ClipDef → ClipDef} (hf : ∀ c, (f c).Ticked → c.Ticked ∨ Q)
    (h : (d.updateClip trackId clipId f).Ticked) : d.Ticked ∨ Q := by
  refine ticked_updateTrack (fun t _ hticked => ?_) h
  obtain ⟨c, hc, hticked⟩ := hticked
  rcases mem_updateFirst hc with hold | ⟨before, hbefore, rfl⟩
  · exact Or.inl ⟨c, hold, hticked⟩
  · exact (hf before hticked).imp_left fun hold =>
      ⟨before, List.mem_of_find?_eq_some hbefore, hold⟩

end Lookups

section Careful

variable {d : ProjectDef} {inverse : InverseOp} {trackId clipId : String}

theorem ticked_of_schedule {c c' : ClipDef} (heq : c.schedule = c'.schedule)
    (hticked : c.Ticked) : c'.Ticked := by
  obtain ⟨htiming, hnotes⟩ := Prod.mk.inj heq
  have hstart : c.startTick = c'.startTick := congrArg ClipTiming.startTick htiming
  have hlength : c.lengthTick = c'.lengthTick := congrArg ClipTiming.lengthTick htiming
  rwa [ClipDef.Ticked, hstart, hlength, hnotes] at hticked

theorem not_brings_of_quiet (hquiet : inverse.quiet = true) : ¬inverse.Brings := by
  cases inverse <;> first | exact id | cases hquiet

theorem careful_of_quiet {e : Effect} (hquiet : e.Quiet d) : e.Careful d := by
  cases e with
  | throws message => trivial
  | ignored => trivial
  | writes inverse doc =>
      rintro (⟨t, ht, c, hc, hticked⟩ | hbrings)
      · obtain ⟨c', ⟨t', ht', hc'⟩, heq⟩ := hquiet.1 c ⟨t, ht, hc⟩
        exact Or.inl ⟨t', ht', c', hc', ticked_of_schedule heq hticked⟩
      · exact absurd hbrings (not_brings_of_quiet hquiet.2)

/-- A write on a clip that gives it no ticks. -/
theorem careful_updateClip {f : ClipDef → ClipDef} (hticks : ∀ c, (f c).Ticked → c.Ticked)
    (hinverse : ¬inverse.Brings) :
    (Effect.writes inverse (d.updateClip trackId clipId f)).Careful d := by
  rintro (hticked | hbrings)
  · rcases ticked_updateClip (Q := False) (fun c hc => Or.inl (hticks c hc)) hticked with h | h
    · exact Or.inl h
    · exact h.elim
  · exact absurd hbrings hinverse

/-- A write after the lazy bump is free to give any ticks. -/
theorem careful_bumped {f : ProjectDef → ProjectDef}
    (hversion : ∀ d, (f d).schemaVersion = d.schemaVersion) (hinverse : ¬inverse.Brings) :
    (Effect.writes inverse (f (ensureV2 d))).Careful d := by
  rintro (- | hbrings)
  · rw [hversion]
    exact Or.inr (version_ensureV2 d)
  · exact absurd hbrings hinverse

end Careful

section Timing

variable {d : ProjectDef} {trackId clipId : String}

theorem setClipTiming_careful (timing : ClipTiming) :
    (setClipTiming trackId clipId timing d).Careful d := by
  dsimp only [setClipTiming]
  split
  · trivial
  · split
    · exact careful_bumped (f := fun d => d.updateClip trackId clipId fun c => c.setTiming timing)
        (fun _ => rfl) id
    · rename_i hticks
      refine careful_updateClip (fun c hc => ?_) id
      simp only [Bool.or_eq_true, not_or, Bool.not_eq_true, Option.isSome_eq_false_iff,
        Option.isNone_iff_eq_none] at hticks
      simp only [ClipDef.Ticked, ClipDef.setTiming, hticks.1, hticks.2] at hc ⊢
      simp only [Option.map_none, Option.isSome_none, Bool.false_eq_true, false_or] at hc
      exact Or.inr (Or.inr hc)

theorem setClipStart_careful (startSample : Int) :
    (setClipStart trackId clipId startSample d).Careful d := by
  rw [setClipStart]
  split
  · trivial
  · split
    · split
      · trivial
      · exact setClipTiming_careful _
    · exact careful_updateClip (fun _ hc => hc) id

theorem setClipBounds_careful (bounds : ClipBounds) :
    (setClipBounds trackId clipId bounds d).Careful d := by
  rw [setClipBounds]
  split
  · trivial
  · split
    · split
      · trivial
      · exact setClipTiming_careful _
    · exact careful_updateClip (fun _ hc => hc) id

end Timing

section Whole

variable {d : ProjectDef} {trackId clipId : String}

theorem addTrack_careful {track : TrackDef}
    (hcall : ¬(InverseOp.addTrack track).Unannounced d) : (addTrack track d).Careful d := by
  rintro (⟨t, ht, hticked⟩ | hbrings)
  · rcases List.mem_append.mp ht with hold | hnew
    · exact Or.inl ⟨t, hold, hticked⟩
    · cases List.mem_singleton.mp hnew
      right
      by_contra hversion
      exact hcall ⟨not_le.mp hversion, hticked, trivial⟩
  · exact hbrings.elim

theorem deleteTrack_careful : (deleteTrack trackId d).Careful d := by
  rw [deleteTrack]
  split
  · trivial
  · rename_i track hfind
    rintro (⟨t, ht, hticked⟩ | hbrings)
    · exact Or.inl ⟨t, List.mem_of_mem_eraseP ht, hticked⟩
    · exact Or.inl (ticked_of_find hfind hbrings)

theorem addClip_careful {clip : ClipDef}
    (hcall : ¬(InverseOp.addClip trackId clip).Unannounced d) :
    (addClip trackId clip d).Careful d := by
  dsimp only [addClip]
  split
  · trivial
  · rename_i track hfind
    split
    · exact careful_bumped
        (f := fun d => d.updateTrack trackId fun t => { t with clips := t.clips ++ [clip] })
        (fun _ => rfl) id
    · rename_i hmusical
      rintro (hticked | hbrings)
      · refine ticked_updateTrack (fun t _ hwritten => ?_) hticked
        obtain ⟨c, hc, hcticked⟩ := hwritten
        rcases List.mem_append.mp hc with hold | hnew
        · exact Or.inl ⟨c, hold, hcticked⟩
        · cases List.mem_singleton.mp hnew
          right
          by_contra hversion
          have hstart : clip.startTick = none := by
            rwa [isMusicalClip, Bool.not_eq_true, Option.isSome_eq_false_iff,
              Option.isNone_iff_eq_none] at hmusical
          have hfound : (d.findTrack trackId).isSome := by
            rw [hfind]
            rfl
          exact hcall ⟨not_le.mp hversion, ⟨hstart, hcticked⟩, hfound⟩
      · exact hbrings.elim

theorem deleteClip_careful : (deleteClip trackId clipId d).Careful d := by
  rw [deleteClip]
  split
  · trivial
  · rename_i clip hfind
    rintro (hticked | hbrings)
    · refine (ticked_updateTrack (Q := False) (fun t _ hwritten => ?_) hticked).imp_right
        False.elim
      obtain ⟨c, hc, hcticked⟩ := hwritten
      exact Or.inl ⟨c, List.mem_of_mem_eraseP hc, hcticked⟩
    · exact Or.inl (ticked_of_findClip hfind hbrings.2)

end Whole

section Notes

variable {d : ProjectDef} {trackId clipId : String}

theorem ticked_notes {c : ClipDef} {notes : Option (List NoteDef)} {Q : Prop}
    (hnotes : ∀ n ∈ notes.getD [], n.Ticked → (∃ m ∈ c.notes.getD [], m.Ticked) ∨ Q)
    (h : ({ c with notes := notes } : ClipDef).Ticked) : c.Ticked ∨ Q := by
  rcases h with hstart | hlength | ⟨n, hn, hticked⟩
  · exact Or.inl (Or.inl hstart)
  · exact Or.inl (Or.inr (Or.inl hlength))
  · exact (hnotes n hn hticked).imp_left fun hold => Or.inr (Or.inr hold)

theorem toggleNote_careful {freshId : String} {note : NoteDef}
    (hcall : ¬(InverseOp.toggleNote trackId clipId note).Unannounced d) :
    (toggleNote freshId trackId clipId note d).Careful d := by
  rw [toggleNote]
  split
  · trivial
  · rename_i clip hfind
    have hversion : note.startTick = none → note.lengthTick.isSome → 2 ≤ d.schemaVersion := by
      intro hstart hlength
      by_contra hversion
      have hfound : (d.findClip trackId clipId).isSome := by
        rw [hfind]
        rfl
      exact hcall ⟨not_le.mp hversion, ⟨hstart, hlength⟩, hfound⟩
    split
    · rintro (hticked | hbrings)
      · refine (ticked_updateClip (Q := False) (fun c hc => ?_) hticked).imp_right False.elim
        refine ticked_notes (fun n hn hold => Or.inl ⟨n, ?_, hold⟩) hc
        exact List.mem_of_mem_eraseP hn
      · exact Or.inr (hversion hbrings.1 hbrings.2)
    · split
      · rintro -
        exact Or.inr (version_ensureV2 d)
      · rename_i hstart
        rw [Bool.not_eq_true, Option.isSome_eq_false_iff, Option.isNone_iff_eq_none] at hstart
        rintro (hticked | hbrings)
        · refine ticked_updateClip (fun c hc => ticked_notes (fun n hn hwritten => ?_) hc) hticked
          rcases List.mem_append.mp hn with hold | hnew
          · exact Or.inl ⟨n, hold, hwritten⟩
          · cases List.mem_singleton.mp hnew
            rcases hwritten with hgiven | hlength
            · rw [hstart] at hgiven
              cases hgiven
            · exact Or.inr (hversion hstart hlength)
        · exact Or.inr (hversion hbrings.1 hbrings.2)

theorem ticked_applyPatch {n : NoteDef} {patch : NotePatch} (h : (n.applyPatch patch).Ticked) :
    n.Ticked ∨ patch.startTick.isSome ∨ patch.lengthTick.isSome := by
  simp only [NoteDef.Ticked, NoteDef.applyPatch, Option.isSome_or, Bool.or_eq_true] at h ⊢
  tauto

theorem brings_before {n : NoteDef} {patch : NotePatch}
    (h : (patch.before n).startTick.isSome ∨ (patch.before n).lengthTick.isSome) : n.Ticked := by
  rcases h with hstart | hlength
  · obtain ⟨tick, htick⟩ := Option.isSome_iff_exists.mp hstart
    obtain ⟨-, -, hbefore⟩ := Option.bind_eq_some_iff.mp htick
    exact Or.inl (Option.isSome_of_eq_some hbefore)
  · obtain ⟨tick, htick⟩ := Option.isSome_iff_exists.mp hlength
    obtain ⟨-, -, hbefore⟩ := Option.bind_eq_some_iff.mp htick
    exact Or.inr (Option.isSome_of_eq_some hbefore)

theorem updateNote_careful {noteId : String} {patch : NotePatch}
    (hcall : ¬(InverseOp.updateNote trackId clipId noteId patch).Unannounced d) :
    (updateNote trackId clipId noteId patch d).Careful d := by
  rw [updateNote]
  split
  · trivial
  · rename_i before hfind
    rintro (hticked | hbrings)
    · refine ticked_updateClip (fun c hc => ticked_notes (fun n hn hwritten => ?_) hc) hticked
      cases hnotes : c.notes with
      | none =>
          rw [hnotes] at hn
          cases hn
      | some notes =>
          rw [hnotes] at hn
          rcases mem_updateFirst hn with hold | ⟨m, hm, rfl⟩
          · exact Or.inl ⟨n, hold, hwritten⟩
          · rcases ticked_applyPatch hwritten with hold | hpatch
            · exact Or.inl ⟨m, List.mem_of_find?_eq_some hm, hold⟩
            · right
              by_contra hversion
              refine hcall ⟨not_le.mp hversion, hpatch, ?_⟩
              rw [InverseOp.Finds, hfind]
              rfl
    · left
      obtain ⟨clip, hclip, hnote⟩ := Option.bind_eq_some_iff.mp hfind
      exact ticked_of_findClip hclip
        (Or.inr (Or.inr ⟨before, List.mem_of_find?_eq_some hnote, brings_before hbrings⟩))

end Notes

section Scenes

variable {d : ProjectDef}

theorem deleteScene_careful {sceneId : String} : (deleteScene sceneId d).Careful d := by
  rw [deleteScene]
  split
  · trivial
  · rintro (⟨t, ht, c, hc, hticked⟩ | ⟨placed, hplaced, hticked⟩)
    · obtain ⟨before, hbefore, rfl⟩ := List.mem_map.mp ht
      exact Or.inl ⟨before, hbefore, c, (List.mem_filter.mp hc).1, hticked⟩
    · obtain ⟨t, ht, hslot⟩ := List.mem_flatMap.mp hplaced
      obtain ⟨c, hc, rfl⟩ := List.mem_map.mp hslot
      exact Or.inl ⟨t, ht, c, (List.mem_filter.mp hc).1, hticked⟩

theorem id_placeBack (placed : PlacedClip) (t : TrackDef) :
    (if t.clips.any fun c => c.id == placed.clip.id then t
      else { t with clips := t.clips ++ [placed.clip] } : TrackDef).id = t.id := by
  split <;> rfl

/-- A slot put back takes its id, and leaves the other ids as they are. -/
theorem hasRoom_of_placeBack {first placed : PlacedClip}
    (h : (d.placeBack first).hasRoom placed = true) :
    d.hasRoom placed = true ∧
      ¬(first.trackId = placed.trackId ∧ first.clip.id = placed.clip.id) := by
  rw [ProjectDef.hasRoom, Option.any_eq_true] at h
  obtain ⟨t, hfind, hfree⟩ := h
  rw [ProjectDef.hasRoom, Option.any_eq_true]
  by_cases htrack : placed.trackId = first.trackId
  · rw [ProjectDef.placeBack, htrack, findTrack_updateTrack (id_placeBack first)] at hfind
    obtain ⟨before, hbefore, rfl⟩ := Option.map_eq_some_iff.mp hfind
    rw [htrack]
    split at hfree
    · rename_i htaken
      refine ⟨⟨before, hbefore, hfree⟩, ?_⟩
      rintro ⟨-, heq⟩
      rw [heq] at htaken
      rw [htaken] at hfree
      cases hfree
    · simp only [List.any_append, List.any_cons, List.any_nil, Bool.or_false, Bool.not_or,
        Bool.and_eq_true, Bool.not_eq_true', beq_eq_false_iff_ne] at hfree
      refine ⟨⟨before, hbefore, ?_⟩, fun hsame => hfree.2 hsame.2⟩
      rw [hfree.1]
      rfl
  · rw [ProjectDef.placeBack, findTrack_updateTrack_of_ne (id_placeBack first) htrack] at hfind
    exact ⟨⟨t, hfind, hfree⟩, fun hsame => htrack hsame.1.symm⟩

theorem lands_of_placeBack {first placed : PlacedClip} {clips : List PlacedClip}
    (h : Lands (d.placeBack first) clips placed) : Lands d (first :: clips) placed := by
  obtain ⟨hroom, hdiffers⟩ := hasRoom_of_placeBack h.2
  refine ⟨?_, hroom⟩
  rw [List.find?_cons_of_neg]
  · exact h.1
  · simpa using hdiffers

/-- What the slots bring is brought by one that lands. -/
theorem ticked_foldl_placeBack {clips : List PlacedClip}
    (h : (clips.foldl ProjectDef.placeBack d).Ticked) :
    d.Ticked ∨ ∃ placed, Lands d clips placed ∧ placed.clip.Ticked := by
  induction clips generalizing d with
  | nil => exact Or.inl h
  | cons first clips ih =>
      rcases ih h with hplaced | ⟨placed, hlands, hticked⟩
      · refine ticked_updateTrack (fun t hfind hwritten => ?_) hplaced
        split at hwritten
        · exact Or.inl hwritten
        · rename_i hfree
          obtain ⟨c, hc, hticked⟩ := hwritten
          rcases List.mem_append.mp hc with hold | hnew
          · exact Or.inl ⟨c, hold, hticked⟩
          · cases List.mem_singleton.mp hnew
            refine Or.inr ⟨first, ⟨List.find?_cons_of_pos (by simp), ?_⟩, hticked⟩
            rw [ProjectDef.hasRoom, hfind, Option.any_some]
            rwa [Bool.not_eq_true, ← Bool.not_eq_true'] at hfree
      · exact Or.inr ⟨placed, lands_of_placeBack hlands, hticked⟩

theorem version_foldl_placeBack (clips : List PlacedClip) (d : ProjectDef) :
    (clips.foldl ProjectDef.placeBack d).schemaVersion = d.schemaVersion := by
  induction clips generalizing d with
  | nil => rfl
  | cons first clips ih => exact ih (d.placeBack first)

theorem restoreScene_careful {scene : SceneDef} {index : Int} {clips : List PlacedClip}
    (hcall : ¬(InverseOp.restoreScene scene index clips).Unannounced d) :
    (restoreScene scene index clips d).Careful d := by
  rw [restoreScene]
  split
  · trivial
  · rename_i hnew
    rw [Bool.not_eq_true] at hnew
    rintro (hwritten | hbrings)
    · refine (ticked_foldl_placeBack hwritten).imp id fun hplaced => ?_
      obtain ⟨placed, hlands, hticked⟩ := hplaced
      rw [version_foldl_placeBack]
      by_contra hversion
      have hmem : placed ∈ clips := List.mem_of_find?_eq_some hlands.1
      exact hcall ⟨not_le.mp hversion, ⟨placed, hmem, hticked⟩, hnew, placed, hlands, hticked⟩
    · exact hbrings.elim

end Scenes

section Calls

variable {d : ProjectDef}

theorem mutatorOf_careful (freshId : String) {op : InverseOp} (hcall : ¬op.Unannounced d) :
    (mutatorOf freshId op d).Careful d := by
  cases op with
  | addTrack track => exact addTrack_careful hcall
  | deleteTrack trackId => exact deleteTrack_careful
  | addClip trackId clip => exact addClip_careful hcall
  | deleteClip trackId clipId => exact deleteClip_careful
  | setClipTiming trackId clipId timing => exact setClipTiming_careful timing
  | setClipStart trackId clipId startSample => exact setClipStart_careful startSample
  | setClipBounds trackId clipId bounds => exact setClipBounds_careful bounds
  | toggleNote trackId clipId note => exact toggleNote_careful hcall
  | updateNote trackId clipId noteId patch => exact updateNote_careful hcall
  | deleteScene sceneId => exact deleteScene_careful
  | restoreScene scene index clips => exact restoreScene_careful hcall
  | _ => exact careful_of_quiet (mutatorOf_quiet freshId rfl)

theorem edit_careful {m : Mutator} (hcall : ¬m.Unannounced d) : (m.edit d).Careful d := by
  cases m with
  | named freshId op => exact mutatorOf_careful freshId hcall
  | addProcessor trackId proc index => exact careful_of_quiet (addProcessor_quiet proc index)
  | addScene sceneId name => exact Or.imp id False.elim
  | addAutomationLane id trackId target => exact careful_of_quiet (addAutomationLane_quiet target)

theorem version_le_edit (m : Mutator) : d.schemaVersion ≤ ((m.edit d).result d).schemaVersion := by
  have hall : ∀ x : Target, x ∈ Set.univ := Set.mem_univ
  cases m with
  | named freshId op => exact (mutatorOf_within freshId op fun x _ => hall x).version
  | addProcessor trackId proc index => exact (addProcessor_within (hall _) index).version
  | addScene id name => exact (addScene_within (hall _) name).version
  | addAutomationLane id trackId target =>
      exact (addAutomationLane_within (hall _) target).version

end Calls

/-- What a user does to a project. A mutator that groups its captures is its
calls between a `beginGroup` and an `endGroup`. -/
inductive Command where
  | beginGroup
  | endGroup
  | mutate (m : Mutator)
  | undo (freshId : Nat → String)
  | redo (freshId : Nat → String)

def Command.call : Command → Call
  | .beginGroup => .beginGroup
  | .endGroup => .endGroup
  | .mutate m => .edit m.edit
  | .undo freshId => .undo freshId
  | .redo freshId => .redo freshId

/-- A mutator that is called brings no ticks past the bump. -/
def Command.Announced (p : Project) : Command → Prop
  | .mutate m => ¬m.Unannounced p.doc
  | _ => True

/-- Every command of a session is announced in the project it is given to. -/
def AllAnnounced : Project → List Command → Prop
  | _, [] => True
  | p, command :: commands =>
      command.Announced p ∧ AllAnnounced (p.step command.call) commands

section Sessions

variable {p : Project} {c : Captured} {command : Command} {commands : List Command}

/-- A capture that would bring ticks back is held in version 2 only. -/
structure Bumped (p : Project) : Prop where
  versioned : p.doc.Versioned
  held : ∀ c, Held p.journal c → c.op.Brings → 2 ≤ p.doc.schemaVersion

theorem bumped_started {doc : ProjectDef} (hdoc : doc.Versioned) : Bumped { doc := doc } where
  versioned := hdoc
  held c hc := by
    rcases hc with ⟨e, he, -⟩ | ⟨e, he, -⟩ | ⟨g, hg, -⟩
    · cases he
    · cases he
    · cases hg

theorem Bumped.journal (hp : Bumped p) {j : UndoJournal Captured}
    (hj : ∀ c, Held j c → Held p.journal c) : Bumped { p with journal := j } :=
  ⟨hp.versioned, fun c hc => hp.held c (hj c hc)⟩

theorem Bumped.write (hp : Bumped p) {m : Mutator} {inverse : InverseOp} {doc : ProjectDef}
    (hcall : ¬m.Unannounced p.doc) (heffect : m.edit p.doc = .writes inverse doc) :
    Bumped { p.capture inverse with doc := doc } := by
  have hcareful := edit_careful hcall
  have hversion := version_le_edit (d := p.doc) m
  rw [heffect] at hcareful hversion
  have hbumped : doc.Ticked ∨ inverse.Brings → 2 ≤ doc.schemaVersion := by
    intro hticks
    rcases hcareful hticks with hbefore | hafter
    · exact (hp.versioned hbefore).trans hversion
    · exact hafter
  refine ⟨fun hticked => hbumped (Or.inl hticked), fun c hc hbrings => ?_⟩
  rcases held_capture hc with hold | rfl
  · exact (hp.held c hold hbrings).trans hversion
  · rw [op_tag] at hbrings
    exact hbumped (Or.inr hbrings)

theorem Bumped.edit (hp : Bumped p) {m : Mutator} (hcall : ¬m.Unannounced p.doc) :
    Bumped (p.edit m.edit) := by
  rw [Project.edit]
  cases heffect : m.edit p.doc with
  | throws message => exact hp
  | ignored => exact hp
  | writes inverse doc => exact hp.write hcall heffect

/-- A replay brings no ticks past the bump: what it replays was captured. -/
theorem Bumped.replay (hp : Bumped p) (freshId : Nat → String) {ops : List Captured}
    (hops : ∀ c ∈ ops, c.op.Brings → 2 ≤ p.doc.schemaVersion) :
    Bumped (Project.replay freshId ops p) := by
  induction ops generalizing p with
  | nil => exact hp
  | cons o ops ih =>
      have hrest : ∀ c ∈ ops, c.op.Brings → 2 ≤ p.doc.schemaVersion :=
        fun c hc => hops c (List.mem_cons_of_mem o hc)
      have hcall : ¬(Mutator.named (freshId ops.length) o.op).Unannounced p.doc := by
        rintro ⟨hversion, hbrings, -⟩
        exact absurd (hops o List.mem_cons_self hbrings) (not_le.mpr hversion)
      rw [Project.replay]
      cases heffect : mutatorOf (freshId ops.length) o.op p.doc with
      | throws message => exact hp
      | ignored => exact ih hp hrest
      | writes inverse doc =>
          have hversion := version_le_edit (d := p.doc) (.named (freshId ops.length) o.op)
          rw [Mutator.edit, heffect] at hversion
          exact ih (hp.write hcall heffect) fun c hc hbrings => (hrest c hc hbrings).trans hversion

theorem Bumped.endGroup (hp : Bumped p) : Bumped p.endGroup :=
  ⟨hp.versioned, fun c hc => hp.held c (held_endGroup hc)⟩

theorem Bumped.routeReplay (hp : Bumped p) {direction : Route} {freshId : Nat → String}
    {ops : List Captured} (hops : ∀ c ∈ ops, c.op.Brings → 2 ≤ p.doc.schemaVersion) :
    Bumped (p.routeReplay direction freshId ops) := by
  have hentered : Bumped { p with journal := p.journal.enterReplay direction } :=
    hp.journal fun c hc => by
      have hbegun : Held { p.journal with route := direction } c := held_beginGroup hc
      exact hbegun
  have hreplayed := hentered.replay freshId hops
  exact hreplayed.endGroup.journal fun c hc => hc

theorem Bumped.undo (hp : Bumped p) (freshId : Nat → String) : Bumped (p.undo freshId) := by
  rw [Project.undo]
  cases hstack : p.journal.undoStack with
  | nil =>
      rw [UndoJournal.popUndo, hstack]
      exact hp
  | cons e rest =>
      rw [UndoJournal.popUndo, hstack]
      have hpopped : Bumped { p with journal := { p.journal with undoStack := rest } } := by
        refine hp.journal fun c hc => ?_
        rcases hc with ⟨e', he', hc⟩ | hothers
        · exact Or.inl ⟨e', by rw [hstack]; exact List.mem_cons_of_mem e he', hc⟩
        · exact Or.inr hothers
      refine hpopped.routeReplay fun c hc => hp.held c (Or.inl ⟨e, ?_, List.mem_reverse.mp hc⟩)
      rw [hstack]
      exact List.mem_cons_self

theorem Bumped.redo (hp : Bumped p) (freshId : Nat → String) : Bumped (p.redo freshId) := by
  rw [Project.redo]
  cases hstack : p.journal.redoStack with
  | nil =>
      rw [UndoJournal.popRedo, hstack]
      exact hp
  | cons e rest =>
      rw [UndoJournal.popRedo, hstack]
      have hpopped : Bumped { p with journal := { p.journal with redoStack := rest } } := by
        refine hp.journal fun c hc => ?_
        rcases hc with hundo | ⟨e', he', hc⟩ | hgroup
        · exact Or.inl hundo
        · exact Or.inr (Or.inl ⟨e', by rw [hstack]; exact List.mem_cons_of_mem e he', hc⟩)
        · exact Or.inr (Or.inr hgroup)
      refine hpopped.routeReplay fun c hc =>
        hp.held c (Or.inr (Or.inl ⟨e, ?_, List.mem_reverse.mp hc⟩))
      rw [hstack]
      exact List.mem_cons_self

theorem Bumped.step (hp : Bumped p) (hcommand : command.Announced p) :
    Bumped (p.step command.call) := by
  cases command with
  | beginGroup => exact ⟨hp.versioned, fun c hc => hp.held c (held_beginGroup hc)⟩
  | endGroup => exact hp.endGroup
  | mutate m => exact hp.edit hcommand
  | undo freshId => exact hp.undo freshId
  | redo freshId => exact hp.redo freshId

theorem Bumped.run (hp : Bumped p) (hcommands : AllAnnounced p commands) :
    Bumped (p.run (commands.map Command.call)) := by
  induction commands generalizing p with
  | nil => exact hp
  | cons command commands ih => exact ih (hp.step hcommands.1) hcommands.2

/-- In a session whose commands are all announced, a document that is musical is
in version 2, whatever is grouped, undone and redone. -/
theorem versioned_of_run (doc : ProjectDef) (hdoc : doc.Versioned) (commands : List Command)
    (hcommands : AllAnnounced { doc := doc } commands) :
    (({ doc := doc } : Project).run (commands.map Command.call)).doc.Versioned :=
  ((bumped_started hdoc).run hcommands).versioned

/-- A clip drawn on a new track and undone, in a document of version 1. -/
theorem versioned_of_run_drawn :
    (({} : ProjectDef).Versioned ∧
      AllAnnounced { doc := {} }
        [.mutate (.named "n" (.addTrack { id := "t", name := "Piste" })),
          .mutate (.named "n" (.addClip "t" (musicalClip 0 960))), .undo fun _ => "n"]) ∧
      (({ doc := {} } : Project).run
        [.edit (addTrack { id := "t", name := "Piste" }),
          .edit (addClip "t" (musicalClip 0 960)), .undo fun _ => "n"]).doc.Versioned := by
  have hempty : ({} : ProjectDef).Versioned := by
    rintro ⟨t, ht, -⟩
    cases ht
  have hannounced : AllAnnounced { doc := {} }
      [.mutate (.named "n" (.addTrack { id := "t", name := "Piste" })),
        .mutate (.named "n" (.addClip "t" (musicalClip 0 960))), .undo fun _ => "n"] := by
    refine ⟨?_, ?_, trivial, trivial⟩
    · rintro ⟨-, ⟨c, hc, -⟩, -⟩
      cases hc
    · rintro ⟨-, ⟨hstart, -⟩, -⟩
      cases hstart
  exact ⟨⟨hempty, hannounced⟩, versioned_of_run {} hempty _ hannounced⟩

/-- A track is added with the clip it holds and its ticks, and the engine does
not read them. -/
theorem not_versioned_of_run_addTrack :
    ¬∀ (doc : ProjectDef) (commands : List Command), doc.Versioned →
      (({ doc := doc } : Project).run (commands.map Command.call)).doc.Versioned := by
  intro hall
  have hempty : ({} : ProjectDef).Versioned := by
    rintro ⟨t, ht, -⟩
    cases ht
  have hversion := hall {} [.mutate (.named "n" (.addTrack
    { id := "t", name := "Piste", clips := [musicalClip 0 960] }))] hempty
    ⟨_, List.mem_singleton_self _, _, List.mem_singleton_self _, Or.inl rfl⟩
  revert hversion
  decide

end Sessions

end DawProject.Document
