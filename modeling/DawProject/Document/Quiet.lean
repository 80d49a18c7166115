import DawProject.Document.Lookup
import DawProject.Document.Shared

/-!
The mutators that schedule no clip anew: whatever the document is, each clip of
the result has the times and the notes of one that was there, and the inverse
is such a mutator too.
-/

namespace DawProject.Document

open Keyed

/-- A clip of the document, on any track. -/
def ProjectDef.HasClip (d : ProjectDef) (c : ClipDef) : Prop := ∃ t ∈ d.tracks, c ∈ t.clips

/-- When a clip and its notes play. -/
def ClipDef.schedule (c : ClipDef) : ClipTiming × Option (List NoteDef) := (timingOf c, c.notes)

def InverseOp.quiet : InverseOp → Bool
  | .setClipStart .. | .setClipBounds .. | .setClipTiming .. | .addClip .. | .deleteClip ..
  | .addTrack .. | .deleteTrack .. | .toggleNote .. | .updateNote .. | .deleteScene ..
  | .restoreScene .. => false
  | _ => true

def Effect.Quiet (d : ProjectDef) : Effect → Prop
  | .writes inverse doc =>
      (∀ c, doc.HasClip c → ∃ c', d.HasClip c' ∧ c.schedule = c'.schedule) ∧
        inverse.quiet = true
  | _ => True

section Writes

variable {d : ProjectDef} {inverse : InverseOp} {trackId clipId : String}

theorem quiet_of_tracks {doc : ProjectDef} (htracks : doc.tracks = d.tracks)
    (hinverse : inverse.quiet = true) : (Effect.writes inverse doc).Quiet d := by
  refine ⟨fun c hc => ⟨c, ?_, rfl⟩, hinverse⟩
  rwa [ProjectDef.HasClip, htracks] at hc

theorem quiet_updateTrack {f : TrackDef → TrackDef} (hclips : ∀ t, (f t).clips = t.clips)
    (hinverse : inverse.quiet = true) :
    (Effect.writes inverse (d.updateTrack trackId f)).Quiet d := by
  refine ⟨fun c hc => ?_, hinverse⟩
  obtain ⟨t, ht, hc⟩ := hc
  rcases mem_updateFirst ht with hold | ⟨before, hbefore, rfl⟩
  · exact ⟨c, ⟨t, hold, hc⟩, rfl⟩
  · rw [hclips] at hc
    exact ⟨c, ⟨before, List.mem_of_find?_eq_some hbefore, hc⟩, rfl⟩

theorem quiet_updateClip {f : ClipDef → ClipDef} (hschedule : ∀ c, (f c).schedule = c.schedule)
    (hinverse : inverse.quiet = true) :
    (Effect.writes inverse (d.updateClip trackId clipId f)).Quiet d := by
  refine ⟨fun c hc => ?_, hinverse⟩
  obtain ⟨t, ht, hc⟩ := hc
  rcases mem_updateFirst ht with hold | ⟨before, hbefore, rfl⟩
  · exact ⟨c, ⟨t, hold, hc⟩, rfl⟩
  · have htrack : before ∈ d.tracks := List.mem_of_find?_eq_some hbefore
    rcases mem_updateFirst hc with hold | ⟨clip, hclip, rfl⟩
    · exact ⟨c, ⟨before, htrack, hold⟩, rfl⟩
    · exact ⟨clip, ⟨before, htrack, List.mem_of_find?_eq_some hclip⟩, hschedule clip⟩

theorem quiet_updateLanes {scope : Option String}
    {f : List AutomationLaneDef → List AutomationLaneDef} (hinverse : inverse.quiet = true) :
    (Effect.writes inverse (d.updateLanes scope f)).Quiet d := by
  cases scope with
  | none => exact quiet_of_tracks rfl hinverse
  | some trackId => exact quiet_updateTrack (fun _ => rfl) hinverse

theorem quiet_ensureLanes {scope : Option String}
    {f : List AutomationLaneDef → List AutomationLaneDef} (hinverse : inverse.quiet = true) :
    (Effect.writes inverse (d.ensureLanes scope f)).Quiet d := by
  cases scope with
  | none => exact quiet_of_tracks rfl hinverse
  | some trackId => exact quiet_updateTrack (fun _ => rfl) hinverse

end Writes

section Quiet

variable {d : ProjectDef} {trackId clipId processorId key laneId : String}
  {scope : Option String}

theorem setTrackGain_quiet (gain : ℚ) : (setTrackGain trackId gain d).Quiet d := by
  rw [setTrackGain]
  split
  · trivial
  · exact quiet_updateTrack (fun _ => rfl) rfl

theorem setTrackPan_quiet (pan : ℚ) : (setTrackPan trackId pan d).Quiet d := by
  rw [setTrackPan]
  split
  · trivial
  · exact quiet_updateTrack (fun _ => rfl) rfl

theorem setTrackOrder_quiet (order : ℚ) : (setTrackOrder trackId order d).Quiet d := by
  rw [setTrackOrder]
  split
  · trivial
  · split
    · trivial
    · refine quiet_updateTrack (fun _ => rfl) ?_
      split <;> rfl

theorem clearTrackOrder_quiet : (clearTrackOrder trackId d).Quiet d := by
  rw [clearTrackOrder]
  split
  · trivial
  · exact quiet_updateTrack (fun _ => rfl) rfl

theorem renameTrack_quiet (name : String) : (renameTrack trackId name d).Quiet d := by
  dsimp only [renameTrack]
  generalize shownName name = next
  split
  · trivial
  · split
    · trivial
    · exact quiet_updateTrack (fun _ => rfl) rfl

theorem setProcessorBypass_quiet (bypass : Bool) :
    (setProcessorBypass trackId processorId bypass d).Quiet d := by
  rw [setProcessorBypass]
  split
  · trivial
  · exact quiet_updateTrack (fun _ => rfl) rfl

theorem setProcessorParam_quiet (value : ℚ) :
    (setProcessorParam trackId processorId key value d).Quiet d := by
  rw [setProcessorParam]
  split
  · trivial
  · refine quiet_updateTrack (fun _ => rfl) ?_
    split <;> rfl

theorem removeProcessorParam_quiet :
    (removeProcessorParam trackId processorId key d).Quiet d := by
  rw [removeProcessorParam]
  split
  · trivial
  · exact quiet_updateTrack (fun _ => rfl) rfl

theorem addProcessor_quiet (proc : ProcessorDef) (index : Option Int) :
    (addProcessor trackId proc index d).Quiet d := by
  rw [addProcessor]
  split
  · trivial
  · split
    · trivial
    · exact quiet_updateTrack (fun _ => rfl) rfl

theorem removeProcessor_quiet : (removeProcessor trackId processorId d).Quiet d := by
  rw [removeProcessor]
  split
  · trivial
  · split
    · trivial
    · exact quiet_updateTrack (fun _ => rfl) rfl

theorem moveProcessor_quiet (toIndex : Int) :
    (moveProcessor trackId processorId toIndex d).Quiet d := by
  rw [moveProcessor]
  split
  · trivial
  · split
    · trivial
    · dsimp only
      split
      · trivial
      · exact quiet_updateTrack (fun _ => rfl) rfl

theorem renameScene_quiet (sceneId name : String) :
    (renameScene sceneId name d).Quiet d := by
  dsimp only [renameScene]
  generalize shownName name = next
  split
  · trivial
  · split
    · trivial
    · exact quiet_of_tracks rfl rfl

theorem addAutomationLane_quiet (target : AutomationTarget) :
    (addAutomationLane laneId scope target d).Quiet d := by
  rw [addAutomationLane]
  split
  · trivial
  · exact quiet_ensureLanes rfl

theorem deleteAutomationLane_quiet : (deleteAutomationLane scope laneId d).Quiet d := by
  rw [deleteAutomationLane]
  split
  · trivial
  · exact quiet_updateLanes rfl

theorem restoreAutomationLane_quiet (lane : AutomationLaneDef) (index : Int) :
    (restoreAutomationLane scope lane index d).Quiet d := by
  rw [restoreAutomationLane]
  split
  · trivial
  · split
    · trivial
    · exact quiet_ensureLanes rfl

theorem setAutomationLaneEnabled_quiet (enabled : Bool) :
    (setAutomationLaneEnabled scope laneId enabled d).Quiet d := by
  rw [setAutomationLaneEnabled]
  split
  · trivial
  · exact quiet_updateLanes rfl

theorem addAutomationPoint_quiet (t : Int) (v : ℚ) :
    (addAutomationPoint scope laneId t v d).Quiet d := by
  rw [addAutomationPoint]
  split
  · trivial
  · exact quiet_updateLanes rfl

theorem moveAutomationPoint_quiet (index t : Int) (v : ℚ) :
    (moveAutomationPoint scope laneId index t v d).Quiet d := by
  rw [moveAutomationPoint]
  split
  · trivial
  · split
    · trivial
    · split
      · trivial
      · exact quiet_updateLanes rfl

theorem deleteAutomationPoint_quiet (index : Int) :
    (deleteAutomationPoint scope laneId index d).Quiet d := by
  rw [deleteAutomationPoint]
  split
  · trivial
  · split
    · trivial
    · split
      · trivial
      · exact quiet_updateLanes rfl

theorem setTempoMilliBpm_quiet (milliBpm : Int) : (setTempoMilliBpm milliBpm d).Quiet d := by
  dsimp only [setTempoMilliBpm]
  split
  · trivial
  · exact quiet_of_tracks (tracks_ensureV2 d) rfl

theorem renameClip_quiet (name : String) : (renameClip trackId clipId name d).Quiet d := by
  dsimp only [renameClip]
  generalize shownName name = next
  split
  · trivial
  · split
    · trivial
    · exact quiet_updateClip (fun _ => rfl) rfl

theorem setClipFades_quiet (fadeInSamples fadeOutSamples : Int) :
    (setClipFades trackId clipId fadeInSamples fadeOutSamples d).Quiet d := by
  rw [setClipFades]
  split
  · trivial
  · exact quiet_updateClip (fun _ => rfl) rfl

theorem setClipScene_quiet (sceneId : String) :
    (setClipScene trackId clipId sceneId d).Quiet d := by
  rw [setClipScene]
  split
  · trivial
  · split
    · trivial
    · exact quiet_updateClip (fun _ => rfl) rfl

theorem mutatorOf_quiet (freshId : String) {op : InverseOp} (hquiet : op.quiet = true) :
    (mutatorOf freshId op d).Quiet d := by
  cases op with
  | setTrackGain trackId gain => exact setTrackGain_quiet gain
  | setTrackPan trackId pan => exact setTrackPan_quiet pan
  | setTrackOrder trackId order => exact setTrackOrder_quiet order
  | clearTrackOrder trackId => exact clearTrackOrder_quiet
  | renameTrack trackId name => exact renameTrack_quiet name
  | renameClip trackId clipId name => exact renameClip_quiet name
  | setMasterGain gain => exact quiet_of_tracks rfl rfl
  | setTempo milliBpm => exact setTempoMilliBpm_quiet milliBpm
  | setProcessorBypass trackId processorId bypass => exact setProcessorBypass_quiet bypass
  | setProcessorParam trackId processorId key value => exact setProcessorParam_quiet value
  | removeProcessorParam trackId processorId key => exact removeProcessorParam_quiet
  | setClipFades trackId clipId fadeIn fadeOut => exact setClipFades_quiet fadeIn fadeOut
  | setClipScene trackId clipId sceneId => exact setClipScene_quiet sceneId
  | addProcessor trackId proc index => exact addProcessor_quiet proc (some index)
  | removeProcessor trackId processorId => exact removeProcessor_quiet
  | moveProcessor trackId processorId toIndex => exact moveProcessor_quiet toIndex
  | renameScene sceneId name => exact renameScene_quiet sceneId name
  | deleteAutomationLane scope laneId => exact deleteAutomationLane_quiet
  | restoreAutomationLane scope lane index => exact restoreAutomationLane_quiet lane index
  | setAutomationLaneEnabled scope laneId enabled => exact setAutomationLaneEnabled_quiet enabled
  | addAutomationPoint scope laneId t v => exact addAutomationPoint_quiet t v
  | moveAutomationPoint scope laneId index t v => exact moveAutomationPoint_quiet index t v
  | deleteAutomationPoint scope laneId index => exact deleteAutomationPoint_quiet index
  | _ => cases hquiet

end Quiet

end DawProject.Document
