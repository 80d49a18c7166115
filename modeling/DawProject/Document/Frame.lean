import DawProject.Document.Targets

/-!
The frame of the mutators. A mutator changes the document within its targets
only, whatever the document is, and the inverse it captures has no other
targets than what the call writes.
-/

namespace DawProject.Document

open Keyed

/-- The document after a call. -/
def Effect.result (d : ProjectDef) : Effect → ProjectDef
  | .writes _ doc => doc
  | _ => d

variable {T : Set Target} {d : ProjectDef} {trackId clipId processorId laneId : String}
  {scope : Option String}

section Updates

theorem within_ensureV2 : Within T d (ensureV2 d) := by
  rw [ensureV2]
  split
  · rename_i hversion
    exact { Within.refl d with version := by dsimp only; omega }
  · exact .refl d

/-- A write after the lazy bump. -/
theorem within_bumped {f : ProjectDef → ProjectDef} (hf : ∀ d, Within T d (f d)) (musical : Prop)
    [Decidable musical] : Within T d (f (if musical then ensureV2 d else d)) := by
  split
  · exact within_ensureV2.trans (hf _)
  · exact hf d

theorem within_updateTrack {f : TrackDef → TrackDef} (hid : ∀ t, (f t).id = t.id)
    (hf : ∀ t, TrackWithin T trackId t (f t)) : Within T d (d.updateTrack trackId f) :=
  { Within.refl d with tracks := .updateFirst (fun _ => TrackWithin.refl) hid fun _ t _ => hf t }

theorem within_clips {g : TrackDef → List ClipDef}
    (hg : ∀ t,
      Kept ClipDef.id (ClipWithin T trackId) (ClipTouched T trackId t.clips) t.clips (g t)) :
    Within T d (d.updateTrack trackId fun t => { t with clips := g t }) :=
  within_updateTrack (fun _ => rfl) fun t => { TrackWithin.refl t with clips := hg t }

theorem within_chain {g : TrackDef → List ProcessorDef}
    (hg : ∀ t, Kept ProcessorDef.id (ProcessorWithin T trackId)
      (fun processorId => Target.processor trackId processorId ∈ T) t.chain (g t)) :
    Within T d (d.updateTrack trackId fun t => { t with chain := g t }) :=
  within_updateTrack (fun _ => rfl) fun t => { TrackWithin.refl t with chain := hg t }

theorem within_updateClip {f : ClipDef → ClipDef} (hid : ∀ c, (f c).id = c.id)
    (hf : ∀ c, ClipWithin T trackId clipId c (f c)) :
    Within T d (d.updateClip trackId clipId f) :=
  within_clips fun _ => Kept.updateFirst (fun _ => ClipWithin.refl) hid fun _ c _ => hf c

theorem within_updateProcessor {f : ProcessorDef → ProcessorDef} (hid : ∀ p, (f p).id = p.id)
    (hf : ∀ p, ProcessorWithin T trackId processorId p (f p)) :
    Within T d (d.updateProcessor trackId processorId f) :=
  within_chain fun _ => Kept.updateFirst (fun _ => ProcessorWithin.refl) hid fun _ p _ => hf p

theorem within_ensureLanes {f : List AutomationLaneDef → List AutomationLaneDef}
    (hf : ∀ lanes, LanesWithin T scope (some lanes) (some (f lanes))) :
    Within T d (d.ensureLanes scope f) := by
  cases scope with
  | none => exact { Within.refl d with automation := hf _ }
  | some trackId =>
      exact within_updateTrack (fun _ => rfl) fun t =>
        { TrackWithin.refl t with automation := hf _ }

theorem lanesWithin_map {f : List AutomationLaneDef → List AutomationLaneDef}
    (hf : ∀ lanes, LanesWithin T scope (some lanes) (some (f lanes)))
    (lanes : Option (List AutomationLaneDef)) : LanesWithin T scope lanes (lanes.map f) := by
  cases lanes with
  | none => exact .refl none
  | some lanes => exact hf lanes

theorem within_updateLanes {f : List AutomationLaneDef → List AutomationLaneDef}
    (hf : ∀ lanes, LanesWithin T scope (some lanes) (some (f lanes))) :
    Within T d (d.updateLanes scope f) := by
  cases scope with
  | none => exact { Within.refl d with automation := lanesWithin_map hf _ }
  | some trackId =>
      exact within_updateTrack (fun _ => rfl) fun t =>
        { TrackWithin.refl t with automation := lanesWithin_map hf _ }

theorem within_updateLane {f : AutomationLaneDef → AutomationLaneDef} (hid : ∀ l, (f l).id = l.id)
    (hf : ∀ l, LaneWithin T scope laneId l (f l)) : Within T d (d.updateLane scope laneId f) :=
  within_updateLanes fun _ => Kept.updateFirst (fun _ => LaneWithin.refl) hid fun _ l _ => hf l

theorem kept_insertAt {α : Type} {key : α → String} {R : String → α → α → Prop}
    {skip : String → Prop} (hrefl : ∀ k a, R k a a) {a : α} (ha : skip (key a)) (index : Int)
    (l : List α) : Kept key R skip l (insertAt index a l) := by
  rw [insertAt]
  split
  · exact .insertIdx hrefl ha _
  · exact .append hrefl ha

end Updates

section Tracks

theorem setTrackGain_within (hT : .trackField trackId .gain ∈ T) (gain : ℚ) :
    Within T d ((setTrackGain trackId gain d).result d) := by
  rw [setTrackGain]
  split
  · exact .refl d
  · refine within_updateTrack (fun _ => rfl) ?_
    exact fun t => { TrackWithin.refl t with gain := absurd hT }

theorem setTrackPan_within (hT : .trackField trackId .pan ∈ T) (pan : ℚ) :
    Within T d ((setTrackPan trackId pan d).result d) := by
  rw [setTrackPan]
  split
  · exact .refl d
  · refine within_updateTrack (fun _ => rfl) ?_
    exact fun t => { TrackWithin.refl t with pan := absurd hT }

theorem within_order (hT : .trackField trackId .order ∈ T) (order : Option ℚ) :
    Within T d (d.updateTrack trackId fun t => { t with order := order }) := by
  refine within_updateTrack (fun _ => rfl) ?_
  exact fun t => { TrackWithin.refl t with order := absurd hT }

theorem setTrackOrder_within (hT : .trackField trackId .order ∈ T) (order : ℚ) :
    Within T d ((setTrackOrder trackId order d).result d) := by
  rw [setTrackOrder]
  split
  · exact .refl d
  · split
    · exact .refl d
    · exact within_order hT (some order)

theorem clearTrackOrder_within (hT : .trackField trackId .order ∈ T) :
    Within T d ((clearTrackOrder trackId d).result d) := by
  rw [clearTrackOrder]
  split
  · exact .refl d
  · exact within_order hT none

theorem renameTrack_within (hT : .trackField trackId .name ∈ T) (name : String) :
    Within T d ((renameTrack trackId name d).result d) := by
  dsimp only [renameTrack]
  split
  · exact .refl d
  · split
    · exact .refl d
    · refine within_updateTrack (fun _ => rfl) ?_
      exact fun t => { TrackWithin.refl t with name := absurd hT }

theorem addTrack_within {track : TrackDef} (hT : .track track.id ∈ T) :
    Within T d ((addTrack track d).result d) :=
  { Within.refl d with tracks := .append (fun _ => TrackWithin.refl) hT }

theorem deleteTrack_within (hT : .track trackId ∈ T) :
    Within T d ((deleteTrack trackId d).result d) := by
  rw [deleteTrack]
  split
  · exact .refl d
  · exact { Within.refl d with tracks := .eraseP (fun _ => TrackWithin.refl) hT }

end Tracks

section Root

theorem setMasterGain_within (hT : .masterGain ∈ T) (gain : ℚ) :
    Within T d ((setMasterGain gain d).result d) :=
  { Within.refl d with masterGain := absurd hT }

theorem setTempoMilliBpm_within (hT : .tempo ∈ T) (milliBpm : Int) :
    Within T d ((setTempoMilliBpm milliBpm d).result d) := by
  dsimp only [setTempoMilliBpm]
  split
  · exact .refl d
  · apply within_ensureV2.trans
    exact { Within.refl (ensureV2 d) with tempo := absurd hT }

end Root

section Processors

theorem setProcessorBypass_within (hT : .bypass trackId processorId ∈ T) (bypass : Bool) :
    Within T d ((setProcessorBypass trackId processorId bypass d).result d) := by
  rw [setProcessorBypass]
  split
  · exact .refl d
  · refine within_updateProcessor (fun _ => rfl) ?_
    exact fun p => { ProcessorWithin.refl p with rest := rfl, bypass := absurd hT }

variable {key : String}

theorem setProcessorParam_within (hT : .param trackId processorId key ∈ T) (value : ℚ) :
    Within T d ((setProcessorParam trackId processorId key value d).result d) := by
  rw [setProcessorParam]
  split
  · exact .refl d
  · refine within_updateProcessor (fun _ => rfl) ?_
    refine fun p => { ProcessorWithin.refl p with rest := rfl, params := ?_ }
    dsimp only
    split
    · exact .updateFirst (fun _ _ => rfl) (fun _ => rfl) fun hkey => absurd hT hkey
    · exact .append (fun _ _ => rfl) hT

theorem removeProcessorParam_within (hT : .param trackId processorId key ∈ T) :
    Within T d ((removeProcessorParam trackId processorId key d).result d) := by
  rw [removeProcessorParam]
  split
  · exact .refl d
  · refine within_updateProcessor (fun _ => rfl) ?_
    exact fun p =>
      { ProcessorWithin.refl p with rest := rfl, params := .eraseP (fun _ _ => rfl) hT }

theorem addProcessor_within {proc : ProcessorDef} (hT : .processor trackId proc.id ∈ T)
    (index : Option Int) : Within T d ((addProcessor trackId proc index d).result d) := by
  rw [addProcessor]
  split
  · exact .refl d
  · split
    · exact .refl d
    · cases index with
      | none => exact within_chain fun t => .append (fun _ => ProcessorWithin.refl) hT
      | some index =>
          exact within_chain fun t => kept_insertAt (fun _ => ProcessorWithin.refl) hT index _

theorem removeProcessor_within (hT : .processor trackId processorId ∈ T) :
    Within T d ((removeProcessor trackId processorId d).result d) := by
  rw [removeProcessor]
  split
  · exact .refl d
  · split
    · exact .refl d
    · exact within_chain fun t => .eraseP (fun _ => ProcessorWithin.refl) hT

/-- The device that is taken out is the one put back. -/
theorem moveProcessor_within (hT : .processor trackId processorId ∈ T) (toIndex : Int) :
    Within T d ((moveProcessor trackId processorId toIndex d).result d) := by
  rw [moveProcessor]
  split
  · exact .refl d
  · split
    · exact .refl d
    · rename_i track htrack copy hcopy
      dsimp only
      split
      · exact .refl d
      · have hid : copy.id = processorId := key_of_find hcopy
        refine within_chain fun t => Kept.trans (fun _ _ _ _ => ProcessorWithin.trans)
          (.eraseP (fun _ => ProcessorWithin.refl) hT)
          (.insertIdx (fun _ => ProcessorWithin.refl) ?_ _)
        rwa [hid]

end Processors

section Clips

theorem renameClip_within (hT : .clipField trackId clipId .name ∈ T) (name : String) :
    Within T d ((renameClip trackId clipId name d).result d) := by
  dsimp only [renameClip]
  split
  · exact .refl d
  · split
    · exact .refl d
    · generalize (if shownName name = "" then none else some (shownName name)) = shown
      refine within_updateClip (fun _ => rfl) ?_
      exact fun c => { ClipWithin.refl c with name := absurd hT }

theorem setClipTiming_within (hT : .clipField trackId clipId .timing ∈ T) (timing : ClipTiming) :
    Within T d ((setClipTiming trackId clipId timing d).result d) := by
  dsimp only [setClipTiming]
  split
  · exact .refl d
  · refine within_bumped (f := fun d => d.updateClip trackId clipId fun c => c.setTiming timing)
      ?_ _
    intro d
    refine within_updateClip (fun _ => rfl) ?_
    exact fun c => { ClipWithin.refl c with timing := absurd hT }

theorem setClipStart_within (hT : .clipField trackId clipId .timing ∈ T) (startSample : Int) :
    Within T d ((setClipStart trackId clipId startSample d).result d) := by
  rw [setClipStart]
  split
  · exact .refl d
  · split
    · split
      · exact .refl d
      · exact setClipTiming_within hT _
    · refine within_updateClip (fun _ => rfl) ?_
      exact fun c => { ClipWithin.refl c with timing := absurd hT }

theorem setClipBounds_within (hT : .clipField trackId clipId .timing ∈ T) (bounds : ClipBounds) :
    Within T d ((setClipBounds trackId clipId bounds d).result d) := by
  rw [setClipBounds]
  split
  · exact .refl d
  · split
    · split
      · exact .refl d
      · exact setClipTiming_within hT _
    · refine within_updateClip (fun _ => rfl) ?_
      exact fun c => { ClipWithin.refl c with timing := absurd hT }

theorem setClipFades_within (hT : .clipField trackId clipId .fades ∈ T)
    (fadeInSamples fadeOutSamples : Int) :
    Within T d ((setClipFades trackId clipId fadeInSamples fadeOutSamples d).result d) := by
  rw [setClipFades]
  split
  · exact .refl d
  · refine within_updateClip (fun _ => rfl) ?_
    exact fun c => { ClipWithin.refl c with fades := absurd hT }

theorem deleteClip_within (hT : .clip trackId clipId ∈ T) :
    Within T d ((deleteClip trackId clipId d).result d) := by
  rw [deleteClip]
  split
  · exact .refl d
  · exact within_clips fun t => .eraseP (fun _ => ClipWithin.refl) (Or.inl hT)

theorem addClip_within {clip : ClipDef} (hT : .clip trackId clip.id ∈ T) :
    Within T d ((addClip trackId clip d).result d) := by
  dsimp only [addClip]
  split
  · exact .refl d
  · refine within_bumped
      (f := fun d => d.updateTrack trackId fun t => { t with clips := t.clips ++ [clip] }) ?_ _
    exact fun d => within_clips fun t => .append (fun _ => ClipWithin.refl) (Or.inl hT)

theorem setClipScene_within (hT : .clipField trackId clipId .scene ∈ T) (sceneId : String) :
    Within T d ((setClipScene trackId clipId sceneId d).result d) := by
  rw [setClipScene]
  split
  · exact .refl d
  · split
    · exact .refl d
    · refine within_updateClip (fun _ => rfl) ?_
      exact fun c => { ClipWithin.refl c with scene := absurd hT }

end Clips

section Notes

theorem sameNote_self (note : NoteDef) (id : Option String) :
    sameNote note { note with id := id } = true := by
  rw [sameNote, beq_self_eq_true, Bool.true_and]
  split <;> exact beq_self_eq_true _

variable {note : NoteDef}

theorem not_of_touched {q : NoteDef → Bool}
    (hq : ∀ n, q n = true → ¬NoteTouched T trackId clipId n) {n : NoteDef}
    (hn : NoteTouched T trackId clipId n) : q n = false := by
  by_contra htrue
  exact hq n (Bool.eq_true_of_not_eq_false htrue) hn

theorem toggleNote_within (hT : .noteAt trackId clipId note ∈ T) (freshId : String) :
    Within T d ((toggleNote freshId trackId clipId note d).result d) := by
  have htouched : ∀ n, sameNote note n = true → NoteTouched T trackId clipId n :=
    fun n hn => Or.inl ⟨note, hT, hn⟩
  rw [toggleNote]
  split
  · exact .refl d
  · dsimp only [Effect.result]
    split
    · refine within_updateClip (fun _ => rfl) ?_
      refine fun c => { ClipWithin.refl c with notes := ⟨fun q hq => ?_, absurd hT ∘ (· note)⟩ }
      exact filter_eraseP fun n hn => not_of_touched hq (htouched n hn)
    · refine within_bumped
        (f := fun d => d.updateClip trackId clipId fun c =>
          { c with
            notes := some (c.notes.getD [] ++ [{ note with id := some (note.id.getD freshId) }]) })
        ?_ _
      intro d
      refine within_updateClip (fun _ => rfl) ?_
      refine fun c => { ClipWithin.refl c with notes := ⟨fun q hq => ?_, absurd hT ∘ (· note)⟩ }
      have hlast := not_of_touched hq (htouched _ (sameNote_self note (note.id.getD freshId)))
      rw [Option.getD_some, List.filter_append, List.filter_cons_of_neg (by rw [hlast]; nofun),
        List.filter_nil, List.append_nil]

theorem get_applyPatch (n : NoteDef) (patch : NotePatch) (field : NoteField) :
    field.get (n.applyPatch patch) = (field.inPatch patch).or (field.get n) := by
  cases field with
  | pitch =>
      cases h : patch.pitch <;> simp [NoteField.get, NoteField.inPatch, NoteDef.applyPatch, h]
  | velocity =>
      cases h : patch.velocity <;> simp [NoteField.get, NoteField.inPatch, NoteDef.applyPatch, h]
  | _ => rfl

theorem mem_fields {patch : NotePatch} {field : NoteField} :
    field ∈ patch.fields ↔ (field.inPatch patch).isSome = true := by
  rw [NotePatch.fields, List.mem_filter]
  apply and_iff_right
  cases field <;> decide

theorem applyPatch_of_empty {patch : NotePatch} (hempty : patch.fields = []) (n : NoteDef) :
    n.applyPatch patch = n := by
  have hnone : ∀ field : NoteField, field.inPatch patch = none := by
    intro field
    rw [← Option.not_isSome_iff_eq_none, ← mem_fields, hempty]
    exact List.not_mem_nil
  rw [NoteDef.applyPatch]
  have hpitch := hnone .pitch
  have hvelocity := hnone .velocity
  have hstart := hnone .startSample
  have hlength := hnone .lengthSamples
  have htick := hnone .startTick
  have hlengthTick := hnone .lengthTick
  simp only [NoteField.inPatch] at hpitch hvelocity hstart hlength htick hlengthTick
  simp only [hpitch, hvelocity, hstart, hlength, htick, hlengthTick, Option.getD_none,
    Option.none_or]

theorem updateNote_within {noteId : String} {patch : NotePatch}
    (hT : ∀ field ∈ patch.fields, .noteField trackId clipId noteId field ∈ T) :
    Within T d ((updateNote trackId clipId noteId patch d).result d) := by
  rw [updateNote]
  split
  · exact .refl d
  · refine within_updateClip (fun _ => rfl) ?_
    intro c
    refine { ClipWithin.refl c with notes := ?_ }
    cases c.notes with
    | none => exact .refl []
    | some notes =>
        constructor
        · intro q hq
          apply filter_updateFirst
          intro n hn
          cases hfields : patch.fields with
          | nil => exact Or.inr (applyPatch_of_empty hfields n)
          | cons field fields =>
              have hfield := hT field (by rw [hfields]; exact List.mem_cons_self)
              have hid : n.id = some noteId := beq_iff_eq.mp hn
              left
              constructor
              · exact not_of_touched hq (Or.inr ⟨noteId, field, hfield, hid⟩)
              · exact not_of_touched hq (Or.inr ⟨noteId, field, hfield, hid⟩)
        · intro _
          dsimp only [Option.map_some, Option.getD_some]
          apply Kept.updateFirst
          · exact fun _ _ _ _ => rfl
          · exact fun _ => rfl
          · intro _ n _ field hfield
            rw [get_applyPatch]
            cases hpatch : field.inPatch patch with
            | none => exact Option.none_or
            | some value =>
                have hmem : field ∈ patch.fields := mem_fields.mpr (by rw [hpatch]; rfl)
                exact absurd (hT field hmem) (hfield noteId rfl)

end Notes

section Scenes

variable {sceneId : String}

theorem within_scenes {g : List SceneDef → List SceneDef}
    (hg : ∀ scenes, Kept SceneDef.id (fun sceneId s s' => Target.sceneName sceneId ∉ T → s' = s)
      (fun sceneId => Target.scene sceneId ∈ T) scenes (g scenes)) :
    Within T d { d with scenes := d.scenes.map g } := by
  refine { Within.refl d with scenes := ?_ }
  cases d.scenes with
  | none => exact .refl (fun _ _ _ => rfl) []
  | some scenes => exact hg scenes

theorem addScene_within (hT : .scene sceneId ∈ T) (name : String) :
    Within T d ((addScene sceneId name d).result d) :=
  { Within.refl d with scenes := .append (fun _ _ _ => rfl) hT }

theorem renameScene_within (hT : .sceneName sceneId ∈ T) (name : String) :
    Within T d ((renameScene sceneId name d).result d) := by
  dsimp only [renameScene]
  split
  · exact .refl d
  · split
    · exact .refl d
    · refine within_scenes fun scenes => .updateFirst (fun _ _ _ => rfl) (fun _ => rfl) ?_
      exact fun _ _ _ => absurd hT

theorem deleteScene_within (hT : .scene sceneId ∈ T) :
    Within T d ((deleteScene sceneId d).result d) := by
  rw [deleteScene]
  split
  · exact .refl d
  · have htracks : Within T d { d with
        tracks := d.tracks.map fun t =>
          { t with clips := t.clips.filter fun c => !(c.sceneId == some sceneId) } } := by
      refine { Within.refl d with tracks := .map (fun _ => rfl) fun trackId t => ?_ }
      refine { TrackWithin.refl t with clips := .filter (fun _ => ClipWithin.refl) ?_ }
      intro clipId c hclip hfind
      rw [Bool.not_eq_true', beq_eq_false_iff_ne]
      intro hslot
      exact hclip (Or.inr ⟨sceneId, hT, Or.inr ⟨c, hfind, hslot⟩⟩)
    apply htracks.trans
    exact within_scenes fun scenes => .eraseP (fun _ _ _ => rfl) hT

theorem placeBack_within {placed : PlacedClip} (hT : .clip placed.trackId placed.clip.id ∈ T) :
    Within T d (d.placeBack placed) := by
  refine within_updateTrack ?_ ?_
  · intro t
    split <;> rfl
  · intro t
    split
    · exact .refl t
    · exact { TrackWithin.refl t with
        clips := .append (fun _ => ClipWithin.refl) (Or.inl hT) }

theorem restoreScene_within {scene : SceneDef} {clips : List PlacedClip} (hT : .scene scene.id ∈ T)
    (hclips : ∀ placed ∈ clips, .clip placed.trackId placed.clip.id ∈ T) (index : Int) :
    Within T d ((restoreScene scene index clips d).result d) := by
  rw [restoreScene]
  split
  · exact .refl d
  · have hscenes : Within T d
        { d with scenes := some (insertAt index scene (d.scenes.getD [])) } :=
      { Within.refl d with scenes := kept_insertAt (fun _ _ _ => rfl) hT index _ }
    apply hscenes.trans
    dsimp only [Effect.result]
    generalize { d with scenes := some (insertAt index scene (d.scenes.getD [])) } = d'
    -- the clips are put back one after the other
    induction clips generalizing d' with
    | nil => exact .refl d'
    | cons placed clips ih =>
        apply (placeBack_within (hclips placed List.mem_cons_self)).trans
        exact ih (fun other hother => hclips other (List.mem_cons_of_mem placed hother)) _

end Scenes

section Automation

theorem addAutomationLane_within (hT : .lane scope laneId ∈ T) (target : AutomationTarget) :
    Within T d ((addAutomationLane laneId scope target d).result d) := by
  rw [addAutomationLane]
  split
  · exact .refl d
  · exact within_ensureLanes fun lanes => .append (fun _ => LaneWithin.refl) hT

theorem deleteAutomationLane_within (hT : .lane scope laneId ∈ T) :
    Within T d ((deleteAutomationLane scope laneId d).result d) := by
  rw [deleteAutomationLane]
  split
  · exact .refl d
  · exact within_updateLanes fun lanes => .eraseP (fun _ => LaneWithin.refl) hT

theorem restoreAutomationLane_within {lane : AutomationLaneDef} (hT : .lane scope lane.id ∈ T)
    (index : Int) : Within T d ((restoreAutomationLane scope lane index d).result d) := by
  rw [restoreAutomationLane]
  split
  · exact .refl d
  · split
    · exact .refl d
    · exact within_ensureLanes fun lanes => kept_insertAt (fun _ => LaneWithin.refl) hT index lanes

theorem setAutomationLaneEnabled_within (hT : .laneEnabled scope laneId ∈ T) (enabled : Bool) :
    Within T d ((setAutomationLaneEnabled scope laneId enabled d).result d) := by
  rw [setAutomationLaneEnabled]
  split
  · exact .refl d
  · refine within_updateLane (fun _ => rfl) ?_
    exact fun l => { LaneWithin.refl l with rest := rfl, enabled := absurd hT }

theorem within_points (hT : .lanePoints scope laneId ∈ T)
    (g : AutomationLaneDef → List AutomationPointDef) :
    Within T d (d.updateLane scope laneId fun l => { l with points := g l }) := by
  refine within_updateLane (fun _ => rfl) ?_
  exact fun l => { LaneWithin.refl l with rest := rfl, points := absurd hT }

theorem addAutomationPoint_within (hT : .lanePoints scope laneId ∈ T) (t : Int) (v : ℚ) :
    Within T d ((addAutomationPoint scope laneId t v d).result d) := by
  rw [addAutomationPoint]
  split
  · exact .refl d
  · exact within_points hT _

theorem moveAutomationPoint_within (hT : .lanePoints scope laneId ∈ T) (index t : Int) (v : ℚ) :
    Within T d ((moveAutomationPoint scope laneId index t v d).result d) := by
  rw [moveAutomationPoint]
  split
  · exact .refl d
  · split
    · exact .refl d
    · split
      · exact .refl d
      · exact within_points hT _

theorem deleteAutomationPoint_within (hT : .lanePoints scope laneId ∈ T) (index : Int) :
    Within T d ((deleteAutomationPoint scope laneId index d).result d) := by
  rw [deleteAutomationPoint]
  split
  · exact .refl d
  · split
    · exact .refl d
    · split
      · exact .refl d
      · exact within_points hT _

end Automation

/-- Every mutator an inverse names writes within the targets of the inverse. -/
theorem mutatorOf_within (freshId : String) (op : InverseOp) (hT : ∀ x ∈ op.targets, x ∈ T) :
    Within T d ((mutatorOf freshId op d).result d) := by
  have hfirst : ∀ {x rest}, op.targets = x :: rest → x ∈ T := by
    intro x rest heq
    exact hT x (by rw [heq]; exact List.mem_cons_self)
  cases op with
  | setTrackGain trackId gain => exact setTrackGain_within (hfirst rfl) gain
  | setTrackPan trackId pan => exact setTrackPan_within (hfirst rfl) pan
  | setTrackOrder trackId order => exact setTrackOrder_within (hfirst rfl) order
  | clearTrackOrder trackId => exact clearTrackOrder_within (hfirst rfl)
  | renameTrack trackId name => exact renameTrack_within (hfirst rfl) name
  | renameClip trackId clipId name => exact renameClip_within (hfirst rfl) name
  | setMasterGain gain => exact setMasterGain_within (hfirst rfl) gain
  | setTempo milliBpm => exact setTempoMilliBpm_within (hfirst rfl) milliBpm
  | setProcessorBypass trackId processorId bypass =>
      exact setProcessorBypass_within (hfirst rfl) bypass
  | setProcessorParam trackId processorId key value =>
      exact setProcessorParam_within (hfirst rfl) value
  | removeProcessorParam trackId processorId key => exact removeProcessorParam_within (hfirst rfl)
  | setClipStart trackId clipId startSample => exact setClipStart_within (hfirst rfl) startSample
  | setClipBounds trackId clipId bounds => exact setClipBounds_within (hfirst rfl) bounds
  | setClipTiming trackId clipId timing => exact setClipTiming_within (hfirst rfl) timing
  | setClipFades trackId clipId fadeInSamples fadeOutSamples =>
      exact setClipFades_within (hfirst rfl) fadeInSamples fadeOutSamples
  | addClip trackId clip => exact addClip_within (hfirst rfl)
  | deleteClip trackId clipId => exact deleteClip_within (hfirst rfl)
  | setClipScene trackId clipId sceneId => exact setClipScene_within (hfirst rfl) sceneId
  | addTrack track => exact addTrack_within (hfirst rfl)
  | deleteTrack trackId => exact deleteTrack_within (hfirst rfl)
  | addProcessor trackId proc index => exact addProcessor_within (hfirst rfl) (some index)
  | removeProcessor trackId processorId => exact removeProcessor_within (hfirst rfl)
  | moveProcessor trackId processorId toIndex => exact moveProcessor_within (hfirst rfl) toIndex
  | toggleNote trackId clipId note => exact toggleNote_within (hfirst rfl) freshId
  | updateNote trackId clipId noteId patch =>
      exact updateNote_within fun field hfield => hT _ (List.mem_map_of_mem hfield)
  | renameScene sceneId name => exact renameScene_within (hfirst rfl) name
  | deleteScene sceneId => exact deleteScene_within (hfirst rfl)
  | restoreScene scene index clips =>
      refine restoreScene_within (hfirst rfl) ?_ index
      intro placed hplaced
      exact hT _ (List.mem_cons_of_mem _ (List.mem_map.mpr ⟨placed, hplaced, rfl⟩))
  | deleteAutomationLane trackId laneId => exact deleteAutomationLane_within (hfirst rfl)
  | restoreAutomationLane trackId lane index =>
      exact restoreAutomationLane_within (hfirst rfl) index
  | setAutomationLaneEnabled trackId laneId enabled =>
      exact setAutomationLaneEnabled_within (hfirst rfl) enabled
  | addAutomationPoint trackId laneId t v => exact addAutomationPoint_within (hfirst rfl) t v
  | moveAutomationPoint trackId laneId index t v =>
      exact moveAutomationPoint_within (hfirst rfl) index t v
  | deleteAutomationPoint trackId laneId index =>
      exact deleteAutomationPoint_within (hfirst rfl) index

section Captures

/-- A local call: a mutator that an inverse names, or one of the others. The
mutators that group their captures call these. -/
inductive Mutator where
  | named (freshId : String) (op : InverseOp)
  | addProcessor (trackId : String) (proc : ProcessorDef) (index : Option Int)
  | addScene (id name : String)
  | addAutomationLane (id : String) (trackId : Option String) (target : AutomationTarget)

def Mutator.edit : Mutator → Edit
  | .named freshId op => mutatorOf freshId op
  | .addProcessor trackId proc index => DawProject.Document.addProcessor trackId proc index
  | .addScene id name => DawProject.Document.addScene id name
  | .addAutomationLane id trackId target => DawProject.Document.addAutomationLane id trackId target

/-- What a call writes: deleting a scene writes the slots it then has. -/
def Mutator.writes (d : ProjectDef) : Mutator → List Target
  | .named _ (.deleteScene sceneId) =>
      (InverseOp.deleteScene sceneId).targets ++
        (slotsOf d sceneId).map fun placed => .clip placed.trackId placed.clip.id
  | .named _ op => op.targets
  | .addProcessor trackId proc _ => [.processor trackId proc.id]
  | .addScene id _ => [.scene id]
  | .addAutomationLane id trackId _ => [.lane trackId id]

variable {inverse : InverseOp} {doc : ProjectDef}

theorem timing_of_setClipTiming {timing : ClipTiming}
    (h : setClipTiming trackId clipId timing d = .writes inverse doc) :
    inverse.targets = [.clipField trackId clipId .timing] := by
  dsimp only [setClipTiming] at h
  split at h <;> cases h
  rfl

theorem before_fields (patch : NotePatch) (n : NoteDef) :
    ∀ field ∈ (patch.before n).fields, field ∈ patch.fields := by
  intro field hfield
  rw [mem_fields] at hfield ⊢
  cases hpatch : field.inPatch patch with
  | some value => rfl
  | none =>
      cases field <;> simp only [NoteField.inPatch] at hpatch hfield <;>
        simp [NotePatch.before, hpatch] at hfield

/-- The inverse that a call captures has no target but those the call writes. -/
theorem targets_of_capture {m : Mutator} (h : m.edit d = .writes inverse doc) :
    ∀ x ∈ inverse.targets, x ∈ m.writes d := by
  cases m with
  | addProcessor trackId proc index =>
      rw [Mutator.edit, addProcessor] at h
      split at h
      · cases h
      · split at h <;> cases h
        exact fun _ hx => hx
  | addScene id name =>
      cases h
      exact fun _ hx => hx
  | addAutomationLane id trackId target =>
      rw [Mutator.edit, addAutomationLane] at h
      split at h <;> cases h
      exact fun _ hx => hx
  | named freshId op =>
      rw [Mutator.edit] at h
      cases op with
      | setTrackGain trackId gain =>
          rw [mutatorOf, setTrackGain] at h
          split at h <;> cases h
          exact fun _ hx => hx
      | setTrackPan trackId pan =>
          rw [mutatorOf, setTrackPan] at h
          split at h <;> cases h
          exact fun _ hx => hx
      | setTrackOrder trackId order =>
          rw [mutatorOf, setTrackOrder] at h
          split at h
          · cases h
          · split at h <;> cases h
            split <;> exact fun _ hx => hx
      | clearTrackOrder trackId =>
          rw [mutatorOf, clearTrackOrder] at h
          split at h <;> cases h
          exact fun _ hx => hx
      | renameTrack trackId name =>
          dsimp only [mutatorOf, renameTrack] at h
          split at h
          · cases h
          · split at h <;> cases h
            exact fun _ hx => hx
      | renameClip trackId clipId name =>
          dsimp only [mutatorOf, renameClip] at h
          split at h
          · cases h
          · split at h <;> cases h
            exact fun _ hx => hx
      | setMasterGain gain =>
          cases h
          exact fun _ hx => hx
      | setTempo milliBpm =>
          dsimp only [mutatorOf, setTempoMilliBpm] at h
          split at h <;> cases h
          exact fun _ hx => hx
      | setProcessorBypass trackId processorId bypass =>
          rw [mutatorOf, setProcessorBypass] at h
          split at h <;> cases h
          exact fun _ hx => hx
      | setProcessorParam trackId processorId key value =>
          rw [mutatorOf, setProcessorParam] at h
          split at h <;> cases h
          split <;> exact fun _ hx => hx
      | removeProcessorParam trackId processorId key =>
          rw [mutatorOf, removeProcessorParam] at h
          split at h <;> cases h
          exact fun _ hx => hx
      | setClipStart trackId clipId startSample =>
          rw [mutatorOf, setClipStart] at h
          split at h
          · cases h
          · split at h
            · split at h
              · cases h
              · rw [timing_of_setClipTiming h]
                exact fun _ hx => hx
            · cases h
              exact fun _ hx => hx
      | setClipBounds trackId clipId bounds =>
          rw [mutatorOf, setClipBounds] at h
          split at h
          · cases h
          · split at h
            · split at h
              · cases h
              · rw [timing_of_setClipTiming h]
                exact fun _ hx => hx
            · cases h
              exact fun _ hx => hx
      | setClipTiming trackId clipId timing =>
          rw [timing_of_setClipTiming h]
          exact fun _ hx => hx
      | setClipFades trackId clipId fadeInSamples fadeOutSamples =>
          rw [mutatorOf, setClipFades] at h
          split at h <;> cases h
          exact fun _ hx => hx
      | addClip trackId clip =>
          dsimp only [mutatorOf, addClip] at h
          split at h <;> cases h
          exact fun _ hx => hx
      | deleteClip trackId clipId =>
          rw [mutatorOf, deleteClip] at h
          split at h <;> cases h
          rename_i clip hfind
          obtain ⟨t, ht, hclip⟩ := Option.bind_eq_some_iff.mp hfind
          have hid : clip.id = clipId := key_of_find hclip
          rw [InverseOp.targets, hid]
          exact fun _ hx => hx
      | setClipScene trackId clipId sceneId =>
          rw [mutatorOf, setClipScene] at h
          split at h
          · cases h
          · split at h <;> cases h
            exact fun _ hx => hx
      | addTrack track =>
          cases h
          exact fun _ hx => hx
      | deleteTrack trackId =>
          rw [mutatorOf, deleteTrack] at h
          split at h <;> cases h
          rename_i track hfind
          have hid : track.id = trackId := key_of_find hfind
          rw [InverseOp.targets, hid]
          exact fun _ hx => hx
      | addProcessor trackId proc index =>
          rw [mutatorOf, addProcessor] at h
          split at h
          · cases h
          · split at h <;> cases h
            exact fun _ hx => hx
      | removeProcessor trackId processorId =>
          rw [mutatorOf, removeProcessor] at h
          split at h
          · cases h
          · split at h <;> cases h
            rename_i proc hfind
            have hid : proc.id = processorId := key_of_find hfind
            rw [InverseOp.targets, hid]
            exact fun _ hx => hx
      | moveProcessor trackId processorId toIndex =>
          rw [mutatorOf, moveProcessor] at h
          split at h
          · cases h
          · split at h
            · cases h
            · dsimp only at h
              split at h <;> cases h
              exact fun _ hx => hx
      | toggleNote trackId clipId note =>
          rw [mutatorOf, toggleNote] at h
          split at h <;> cases h
          exact fun _ hx => hx
      | updateNote trackId clipId noteId patch =>
          rw [mutatorOf, updateNote] at h
          split at h <;> cases h
          intro x hx
          obtain ⟨field, hfield, rfl⟩ := List.mem_map.mp hx
          exact List.mem_map_of_mem (before_fields patch _ field hfield)
      | renameScene sceneId name =>
          dsimp only [mutatorOf, renameScene] at h
          split at h
          · cases h
          · split at h <;> cases h
            exact fun _ hx => hx
      | deleteScene sceneId =>
          rw [mutatorOf, deleteScene] at h
          split at h <;> cases h
          rename_i scene hfind
          have hid : scene.id = sceneId := key_of_find hfind
          rw [InverseOp.targets, hid]
          exact fun _ hx => hx
      | restoreScene scene index clips =>
          rw [mutatorOf, restoreScene] at h
          split at h <;> cases h
          intro x hx
          rw [List.mem_singleton.mp hx]
          exact List.mem_cons_self
      | deleteAutomationLane trackId laneId =>
          rw [mutatorOf, deleteAutomationLane] at h
          split at h <;> cases h
          rename_i lane hfind
          obtain ⟨lanes, hlanes, hlane⟩ := Option.bind_eq_some_iff.mp hfind
          have hid : lane.id = laneId := key_of_find hlane
          rw [InverseOp.targets, hid]
          exact fun _ hx => hx
      | restoreAutomationLane trackId lane index =>
          rw [mutatorOf, restoreAutomationLane] at h
          split at h
          · cases h
          · split at h <;> cases h
            exact fun _ hx => hx
      | setAutomationLaneEnabled trackId laneId enabled =>
          rw [mutatorOf, setAutomationLaneEnabled] at h
          split at h <;> cases h
          exact fun _ hx => hx
      | addAutomationPoint trackId laneId t v =>
          rw [mutatorOf, addAutomationPoint] at h
          split at h <;> cases h
          exact fun _ hx => hx
      | moveAutomationPoint trackId laneId index t v =>
          rw [mutatorOf, moveAutomationPoint] at h
          split at h
          · cases h
          · split at h
            · cases h
            · split at h <;> cases h
              exact fun _ hx => hx
      | deleteAutomationPoint trackId laneId index =>
          rw [mutatorOf, deleteAutomationPoint] at h
          split at h
          · cases h
          · split at h
            · cases h
            · split at h <;> cases h
              exact fun _ hx => hx

end Captures

end DawProject.Document
