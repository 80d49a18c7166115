import DawProject.Document.Project

/-!
Reading the document after a write: the track, the clip or the lane written to
is found again, with the write on it.
-/

namespace DawProject.Document

open Keyed

variable {d : ProjectDef} {trackId clipId : String}

section Tracks

theorem tracks_ensureV2 (d : ProjectDef) : (ensureV2 d).tracks = d.tracks := by
  rw [ensureV2]
  split <;> rfl

theorem findTrack_updateTrack {trackId : String} {f : TrackDef → TrackDef}
    (hid : ∀ t, (f t).id = t.id) :
    (d.updateTrack trackId f).findTrack trackId = (d.findTrack trackId).map f :=
  find_updateFirst_self hid

theorem findTrack_updateTrack_of_ne {trackId otherId : String} {f : TrackDef → TrackDef}
    (hid : ∀ t, (f t).id = t.id) (hne : trackId ≠ otherId) :
    (d.updateTrack otherId f).findTrack trackId = d.findTrack trackId :=
  find_updateFirst_of_ne hid hne

theorem updateTrack_updateTrack {f g : TrackDef → TrackDef} (hid : ∀ t, (f t).id = t.id) :
    (d.updateTrack trackId f).updateTrack trackId g = d.updateTrack trackId fun t => g (f t) := by
  simp only [ProjectDef.updateTrack]
  rw [updateFirst_updateFirst]
  intro t ht
  rwa [hid]

theorem updateTrack_eq_iff {f g : TrackDef → TrackDef} :
    d.updateTrack trackId f = d.updateTrack trackId g ↔
      ∀ t, d.findTrack trackId = some t → f t = g t := by
  rw [ProjectDef.findTrack, ← updateFirst_eq_iff]
  simp [ProjectDef.updateTrack]

theorem updateTrack_eq_self_iff {f : TrackDef → TrackDef} :
    d.updateTrack trackId f = d ↔ ∀ t, d.findTrack trackId = some t → f t = t := by
  rw [ProjectDef.findTrack, ← updateFirst_eq_self_iff]
  constructor
  · exact fun h => congrArg ProjectDef.tracks h
  · intro h
    rw [ProjectDef.updateTrack, h]

end Tracks

section Clips

theorem findTrack_updateClip (f : ClipDef → ClipDef) :
    (d.updateClip trackId clipId f).findTrack trackId =
      (d.findTrack trackId).map fun t =>
        { t with clips := updateFirst (fun c => c.id == clipId) f t.clips } :=
  findTrack_updateTrack fun _ => rfl

theorem findClip_updateClip {f : ClipDef → ClipDef} (hid : ∀ c, (f c).id = c.id) :
    (d.updateClip trackId clipId f).findClip trackId clipId =
      (d.findClip trackId clipId).map f := by
  have hclips : ∀ l, find ClipDef.id clipId (updateFirst (fun c => c.id == clipId) f l) =
      (find ClipDef.id clipId l).map f :=
    fun l => find_updateFirst_self hid
  rw [ProjectDef.findClip, ProjectDef.findClip, findTrack_updateClip]
  cases d.findTrack trackId with
  | none => rfl
  | some t => exact hclips t.clips

theorem updateClip_updateClip {f g : ClipDef → ClipDef} (hid : ∀ c, (f c).id = c.id) :
    (d.updateClip trackId clipId f).updateClip trackId clipId g =
      d.updateClip trackId clipId fun c => g (f c) := by
  have hcomp : ∀ l : List ClipDef, updateFirst (fun c => c.id == clipId) g
      (updateFirst (fun c => c.id == clipId) f l) =
        updateFirst (fun c => c.id == clipId) (fun c => g (f c)) l := by
    intro l
    exact updateFirst_updateFirst fun c hc => by rwa [hid]
  simp only [ProjectDef.updateClip]
  rw [updateTrack_updateTrack]
  · simp only [hcomp]
  · exact fun _ => rfl

theorem updateClip_eq_iff {f g : ClipDef → ClipDef} :
    d.updateClip trackId clipId f = d.updateClip trackId clipId g ↔
      ∀ c, d.findClip trackId clipId = some c → f c = g c := by
  rw [ProjectDef.updateClip, ProjectDef.updateClip, updateTrack_eq_iff, ProjectDef.findClip]
  cases d.findTrack trackId with
  | none => simp
  | some t =>
      rw [Option.bind_some, ← updateFirst_eq_iff]
      constructor
      · exact fun h => congrArg TrackDef.clips (h t rfl)
      · rintro h _ ⟨⟩
        rw [h]

theorem updateClip_eq_self_iff {f : ClipDef → ClipDef} :
    d.updateClip trackId clipId f = d ↔ ∀ c, d.findClip trackId clipId = some c → f c = c := by
  have hcongr : d.updateClip trackId clipId f = d.updateClip trackId clipId (fun c => c) ↔ _ :=
    updateClip_eq_iff
  have hid : d.updateClip trackId clipId (fun c => c) = d := by
    rw [ProjectDef.updateClip, updateTrack_eq_self_iff]
    intro t _
    rw [updateFirst_id]
  rwa [hid] at hcongr

theorem findTrack_of_findClip {clip : ClipDef} (hclip : d.findClip trackId clipId = some clip) :
    ∃ t, d.findTrack trackId = some t := by
  obtain ⟨t, ht, _⟩ := Option.bind_eq_some_iff.mp hclip
  exact ⟨t, ht⟩

theorem findClip_updateClip_of_ne {f : ClipDef → ClipDef} {otherId : String}
    (hid : ∀ c, (f c).id = c.id) (hne : otherId ≠ clipId) :
    (d.updateClip trackId clipId f).findClip trackId otherId = d.findClip trackId otherId := by
  have hclips : ∀ l, find ClipDef.id otherId (updateFirst (fun c => c.id == clipId) f l) =
      find ClipDef.id otherId l :=
    fun l => find_updateFirst_of_ne hid hne
  rw [ProjectDef.findClip, ProjectDef.findClip, findTrack_updateClip]
  cases d.findTrack trackId with
  | none => rfl
  | some t => exact hclips t.clips

variable {t : TrackDef} {clip : ClipDef}

/-- A clip added at the end of a track is found after those that were there. -/
theorem findClip_append (htrack : d.findTrack trackId = some t) :
    (d.updateTrack trackId fun t => { t with clips := t.clips ++ [clip] }).findClip trackId clipId =
      (d.findClip trackId clipId).or (if clip.id = clipId then some clip else none) := by
  rw [ProjectDef.findClip, ProjectDef.findClip, findTrack_updateTrack, htrack]
  · by_cases hid : clip.id = clipId
    · simp [List.find?_append, hid]
    · simp [List.find?_append, hid]
  · exact fun _ => rfl

/-- Taking a new clip out again gives the document back. -/
theorem erase_append (hfresh : d.findClip trackId clip.id = none) :
    (d.updateTrack trackId fun t => { t with clips := t.clips ++ [clip] }).updateTrack trackId
        (fun t => { t with clips := t.clips.eraseP fun c => c.id == clip.id }) = d := by
  rw [updateTrack_updateTrack, updateTrack_eq_self_iff]
  · intro t ht
    rw [ProjectDef.findClip, ht, Option.bind_some, List.find?_eq_none] at hfresh
    dsimp only
    have hlast : [clip].eraseP (fun c => c.id == clip.id) = [] := by
      simp
    rw [List.eraseP_append_right _ hfresh, hlast, List.append_nil]
  · exact fun _ => rfl

end Clips

section Lanes

variable {scope : Option String} {laneId : String} {lane : AutomationLaneDef}

theorem findLane_eq (d : ProjectDef) (scope : Option String) (laneId : String) :
    d.findLane scope laneId =
      find AutomationLaneDef.id laneId ((lanesIn d scope).getD []) := by
  rw [ProjectDef.findLane]
  cases lanesIn d scope <;> rfl

theorem findLane_updateLane {f : AutomationLaneDef → AutomationLaneDef}
    (hid : ∀ l, (f l).id = l.id) :
    (d.updateLane scope laneId f).findLane scope laneId = (d.findLane scope laneId).map f := by
  have hmap : ∀ lanes : Option (List AutomationLaneDef),
      find AutomationLaneDef.id laneId
          ((lanes.map (updateFirst (fun l => l.id == laneId) f)).getD []) =
        (find AutomationLaneDef.id laneId (lanes.getD [])).map f := by
    intro lanes
    cases lanes with
    | none => rfl
    | some lanes => exact find_updateFirst_self hid
  rw [findLane_eq, findLane_eq]
  cases scope with
  | none => exact hmap d.automation
  | some trackId =>
      have htrack : (d.updateLane (some trackId) laneId f).findTrack trackId =
          (d.findTrack trackId).map fun t =>
            { t with automation := t.automation.map (updateFirst (fun l => l.id == laneId) f) } :=
        find_updateFirst_self fun _ => rfl
      rw [lanesIn, lanesIn, htrack]
      cases d.findTrack trackId with
      | none => rfl
      | some t => exact hmap t.automation

theorem findLane_points {g : AutomationLaneDef → List AutomationPointDef}
    (hfind : d.findLane scope laneId = some lane) :
    (d.updateLane scope laneId fun l => { l with points := g l }).findLane scope laneId =
      some { lane with points := g lane } := by
  have hupdated := @findLane_updateLane d scope laneId (fun l => { l with points := g l })
    fun _ => rfl
  rw [hupdated, hfind]
  rfl

theorem updateLane_updateLane {f g : AutomationLaneDef → AutomationLaneDef}
    (hid : ∀ l, (f l).id = l.id) :
    (d.updateLane scope laneId f).updateLane scope laneId g =
      d.updateLane scope laneId fun l => g (f l) := by
  have hcomp : ∀ lanes : Option (List AutomationLaneDef),
      (lanes.map (updateFirst (fun l => l.id == laneId) f)).map
          (updateFirst (fun l => l.id == laneId) g) =
        lanes.map (updateFirst (fun l => l.id == laneId) fun l => g (f l)) := by
    intro lanes
    cases lanes with
    | none => rfl
    | some lanes => exact congrArg some (updateFirst_updateFirst fun l hl => by rwa [hid])
  cases scope with
  | none => simp only [ProjectDef.updateLane, ProjectDef.updateLanes, hcomp]
  | some trackId =>
      simp only [ProjectDef.updateLane, ProjectDef.updateLanes]
      rw [updateTrack_updateTrack]
      · simp only [hcomp]
      · exact fun _ => rfl

theorem updateLane_eq_self {f : AutomationLaneDef → AutomationLaneDef}
    (hf : ∀ l, d.findLane scope laneId = some l → f l = l) : d.updateLane scope laneId f = d := by
  have hsame : ∀ lanes : Option (List AutomationLaneDef),
      (∀ l, (lanes.bind fun lanes => lanes.find? fun l => l.id == laneId) = some l → f l = l) →
        lanes.map (updateFirst (fun l => l.id == laneId) f) = lanes := by
    intro lanes hlanes
    cases lanes with
    | none => rfl
    | some lanes => exact congrArg some (updateFirst_eq_self_iff.mpr hlanes)
  cases scope with
  | none =>
      simp only [ProjectDef.updateLane, ProjectDef.updateLanes]
      rw [hsame d.automation hf]
  | some trackId =>
      simp only [ProjectDef.updateLane, ProjectDef.updateLanes]
      rw [updateTrack_eq_self_iff]
      intro t ht
      rw [hsame t.automation]
      intro l hl
      apply hf
      rw [ProjectDef.findLane, lanesIn, ht]
      exact hl

end Lanes

end DawProject.Document
