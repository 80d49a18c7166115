import DawProject.Document.Gesture
import DawProject.Document.Lookup

/-!
Splitting an audio clip, `splitClip` of `web/src/document/project.ts`, and its
undo. The undo writes the fades back while the clip still has the length of its
left part, and `setClipFades` clamps them to half of it.
-/

namespace DawProject.Document

open Keyed

/-- The right part. It takes the fade-out, if there is one. -/
def rightClip (rightId : String) (clip : ClipDef) (at_ : Int) : ClipDef where
  id := rightId
  name := clip.name
  assetHash := clip.assetHash
  startSample := some at_
  lengthSamples := some (clip.startSample.getD 0 + clip.lengthSamples.getD 0 - at_)
  offsetSamples := clip.offsetSamples.map fun offset => offset + (at_ - clip.startSample.getD 0)
  fadeOutSamples :=
    if clip.fadeOutSamples.getD 0 ≠ 0 then some (clip.fadeOutSamples.getD 0) else none

/-- The mutators called between `beginUndoGroup` and `endUndoGroup`. -/
def splitEdits (rightId trackId clipId : String) (clip : ClipDef) (at_ : Int) : List Edit :=
  [setClipBounds trackId clipId
      { startSample := clip.startSample.getD 0
        lengthSamples := at_ - clip.startSample.getD 0
        offsetSamples := clip.offsetSamples }] ++
    (if clip.fadeInSamples.getD 0 ≠ 0 ∨ clip.fadeOutSamples.getD 0 ≠ 0 then
      [setClipFades trackId clipId (clip.fadeInSamples.getD 0) 0] else []) ++
    [addClip trackId (rightClip rightId clip at_)]

/-- `splitClip`, with the id it draws. Answers the id of the right part, or
nothing where it refuses. -/
def Project.splitClip (rightId : String) (p : Project) (trackId clipId : String)
    (atSample : Int) : Project × Option String :=
  match p.doc.findClip trackId clipId with
  | none => (p, none)
  | some clip =>
      if clip.assetHash = "" then (p, none)
      else if isMusicalClip clip then (p, none)
      else
        let startS := clip.startSample.getD 0
        let lenS := clip.lengthSamples.getD 0
        let left := atSample - startS
        let right := startS + lenS - atSample
        if left < 1024 ∨ right < 1024 then (p, none)
        else (p.gesture (splitEdits rightId trackId clipId clip atSample), some rightId)

section Intervals

/-- The stretch of the timeline a clip covers. -/
def ClipDef.timeline (c : ClipDef) : Int × Int :=
  (c.startSample.getD 0, c.startSample.getD 0 + c.lengthSamples.getD 0)

/-- The stretch of its asset a clip plays. -/
def ClipDef.asset (c : ClipDef) : Option (Int × Int) :=
  c.offsetSamples.map fun offset => (offset, offset + c.lengthSamples.getD 0)

/-- Two clips cover what one covered, on the timeline and in the asset. -/
structure Tiles (clip left right : ClipDef) (at_ : Int) : Prop where
  first : left.timeline = (clip.timeline.1, at_)
  second : right.timeline = (at_, clip.timeline.2)
  asset : ∃ a mid b, clip.asset = some (a, b) ∧ left.asset = some (a, mid) ∧
    right.asset = some (mid, b)

end Intervals

/-- The clip as the code reads it: an absent number is 0. -/
def ClipDef.read (c : ClipDef) : ClipDef :=
  { c with
    startSample := some (c.startSample.getD 0)
    lengthSamples := some (c.lengthSamples.getD 0)
    fadeInSamples := some (c.fadeInSamples.getD 0)
    fadeOutSamples := some (c.fadeOutSamples.getD 0) }

/-- The two parts tile the clip, and one undo leaves one clip in its place, with
the numbers it had. -/
def SplitsAndRejoins (p : Project) (rightId trackId clipId : String) (clip : ClipDef) (at_ : Int)
    (freshId : Nat → String) : Prop :=
  (∃ left right,
    (p.splitClip rightId trackId clipId at_).1.doc.findClip trackId clipId = some left ∧
    (p.splitClip rightId trackId clipId at_).1.doc.findClip trackId rightId = some right ∧
    Tiles clip left right at_) ∧
  ∃ back : ClipDef,
    ((p.splitClip rightId trackId clipId at_).1.undo freshId).doc =
      p.doc.updateClip trackId clipId (fun _ => back) ∧ back.read = clip.read

/-- A clip that starts and plays from a position that is not negative, without
fades or with none longer than half of the left part. -/
structure Rejoins (clip : ClipDef) (at_ : Int) : Prop where
  start : 0 ≤ clip.startSample.getD 0
  offset : ∃ offsetSamples, clip.offsetSamples = some offsetSamples ∧ 0 ≤ offsetSamples
  fades : (clip.fadeInSamples.getD 0 = 0 ∧ clip.fadeOutSamples.getD 0 = 0) ∨
    (0 ≤ clip.fadeInSamples.getD 0 ∧
      clip.fadeInSamples.getD 0 ≤ (at_ - clip.startSample.getD 0) / 2 ∧
      0 ≤ clip.fadeOutSamples.getD 0 ∧
      clip.fadeOutSamples.getD 0 ≤ (at_ - clip.startSample.getD 0) / 2)

/-- The numbers that the undo writes are all there before. -/
structure Written (clip : ClipDef) : Prop where
  start : clip.startSample.isSome
  fades : (clip.fadeInSamples.getD 0 = 0 ∧ clip.fadeOutSamples.getD 0 = 0) ∨
    (clip.fadeInSamples.isSome ∧ clip.fadeOutSamples.isSome)

section Steps

variable {d : ProjectDef} {trackId clipId rightId : String} {clip : ClipDef} {at_ : Int}

/-- The bounds as `setClipBounds` writes them to an absolute clip. -/
def ClipDef.setBounds (c : ClipDef) (bounds : ClipBounds) : ClipDef :=
  { c with
    startSample := some (max 0 bounds.startSample)
    lengthSamples := some (max 1024 bounds.lengthSamples)
    offsetSamples := bounds.offsetSamples.map (max 0) }

theorem setClipBounds_of_absolute (hclip : d.findClip trackId clipId = some clip)
    (habsolute : isMusicalClip clip = false) (bounds : ClipBounds) :
    setClipBounds trackId clipId bounds d =
      .writes
        (.setClipBounds trackId clipId
          { startSample := clip.startSample.getD 0
            lengthSamples := clip.lengthSamples.getD 0
            offsetSamples := clip.offsetSamples })
        (d.updateClip trackId clipId fun c => c.setBounds bounds) := by
  simp only [setClipBounds, hclip, habsolute, Bool.false_eq_true, if_false]
  rfl

theorem setClipFades_of_find (hclip : d.findClip trackId clipId = some clip)
    (fadeIn fadeOut : Int) :
    setClipFades trackId clipId fadeIn fadeOut d =
      .writes
        (.setClipFades trackId clipId (clip.fadeInSamples.getD 0) (clip.fadeOutSamples.getD 0))
        (d.updateClip trackId clipId fun c => c.setFades fadeIn fadeOut) := by
  simp only [setClipFades, hclip]

theorem addClip_of_absolute {t : TrackDef} (htrack : d.findTrack trackId = some t)
    (habsolute : isMusicalClip clip = false) :
    addClip trackId clip d =
      .writes (.deleteClip trackId clip.id)
        (d.updateTrack trackId fun t => { t with clips := t.clips ++ [clip] }) := by
  simp only [addClip, htrack, habsolute, Bool.false_eq_true, if_false]

end Steps

section Cut

variable {d : ProjectDef} {trackId clipId rightId : String} {clip : ClipDef} {at_ : Int}

/-- Whether `splitClip` writes the fades of the left part. -/
def ClipDef.HasFades (c : ClipDef) : Prop :=
  c.fadeInSamples.getD 0 ≠ 0 ∨ c.fadeOutSamples.getD 0 ≠ 0

instance (c : ClipDef) : Decidable c.HasFades := inferInstanceAs (Decidable (_ ∨ _))

def leftBounds (clip : ClipDef) (at_ : Int) : ClipBounds where
  startSample := clip.startSample.getD 0
  lengthSamples := at_ - clip.startSample.getD 0
  offsetSamples := clip.offsetSamples

def boundsOf (clip : ClipDef) : ClipBounds where
  startSample := clip.startSample.getD 0
  lengthSamples := clip.lengthSamples.getD 0
  offsetSamples := clip.offsetSamples

/-- The left part, as the edits write it to the clip. -/
def leftClip (clip : ClipDef) (at_ : Int) (c : ClipDef) : ClipDef :=
  if clip.HasFades then
    (c.setBounds (leftBounds clip at_)).setFades (clip.fadeInSamples.getD 0) 0
  else c.setBounds (leftBounds clip at_)

/-- The clip after the undo. -/
def rejoinedClip (clip : ClipDef) (at_ : Int) (c : ClipDef) : ClipDef :=
  if clip.HasFades then
    ((leftClip clip at_ c).setFades (clip.fadeInSamples.getD 0)
      (clip.fadeOutSamples.getD 0)).setBounds (boundsOf clip)
  else (leftClip clip at_ c).setBounds (boundsOf clip)

theorem leftClip_id (c : ClipDef) : (leftClip clip at_ c).id = c.id := by
  unfold leftClip
  split <;> rfl

/-- What the edits of a split write and capture. -/
theorem splitEdits_spec (rightId : String) (at_ : Int) (hclip : d.findClip trackId clipId = some clip)
    (habsolute : isMusicalClip clip = false) :
    editsDoc (splitEdits rightId trackId clipId clip at_) d =
        (d.updateClip trackId clipId (leftClip clip at_)).updateTrack trackId
          (fun t => { t with clips := t.clips ++ [rightClip rightId clip at_] }) ∧
      editsCaptures (splitEdits rightId trackId clipId clip at_) d =
        [.setClipBounds trackId clipId (boundsOf clip)] ++
          (if clip.HasFades then [.setClipFades trackId clipId (clip.fadeInSamples.getD 0)
            (clip.fadeOutSamples.getD 0)] else []) ++
          [.deleteClip trackId rightId] := by
  have hbounds := setClipBounds_of_absolute hclip habsolute (leftBounds clip at_)
  have hfound : (d.updateClip trackId clipId fun c =>
      c.setBounds (leftBounds clip at_)).findClip trackId clipId =
        some (clip.setBounds (leftBounds clip at_)) := by
    rw [findClip_updateClip, hclip]
    · rfl
    · exact fun _ => rfl
  have hright : isMusicalClip (rightClip rightId clip at_) = false := rfl
  by_cases hfades : clip.HasFades
  · have hwrite := setClipFades_of_find hfound (clip.fadeInSamples.getD 0) 0
    have hleft : (d.updateClip trackId clipId fun c =>
        c.setBounds (leftBounds clip at_)).updateClip trackId clipId
          (fun c => c.setFades (clip.fadeInSamples.getD 0) 0) =
            d.updateClip trackId clipId (leftClip clip at_) := by
      rw [updateClip_updateClip]
      · congr 1
        funext c
        rw [leftClip, if_pos hfades]
      · exact fun _ => rfl
    rw [hleft] at hwrite
    have hlater : (d.updateClip trackId clipId (leftClip clip at_)).findClip trackId clipId =
        some (leftClip clip at_ clip) := by
      rw [findClip_updateClip leftClip_id, hclip]
      rfl
    obtain ⟨t, ht⟩ := findTrack_of_findClip hlater
    have hadd := addClip_of_absolute ht hright
    have hedits : splitEdits rightId trackId clipId clip at_ =
        [setClipBounds trackId clipId (leftBounds clip at_),
          setClipFades trackId clipId (clip.fadeInSamples.getD 0) 0,
          addClip trackId (rightClip rightId clip at_)] := by
      have hcond : clip.fadeInSamples.getD 0 ≠ 0 ∨ clip.fadeOutSamples.getD 0 ≠ 0 := hfades
      simp only [splitEdits, hcond, if_true]
      rfl
    rw [hedits]
    simp only [editsDoc, editsCaptures, hbounds, Effect.result, hwrite, hadd, hfades, if_true]
    exact ⟨trivial, rfl⟩
  · have hleft : (d.updateClip trackId clipId fun c => c.setBounds (leftBounds clip at_)) =
        d.updateClip trackId clipId (leftClip clip at_) := by
      congr 1
      funext c
      rw [leftClip, if_neg hfades]
    rw [hleft] at hbounds hfound
    obtain ⟨t, ht⟩ := findTrack_of_findClip hfound
    have hadd := addClip_of_absolute ht hright
    have hedits : splitEdits rightId trackId clipId clip at_ =
        [setClipBounds trackId clipId (leftBounds clip at_),
          addClip trackId (rightClip rightId clip at_)] := by
      have hcond : ¬(clip.fadeInSamples.getD 0 ≠ 0 ∨ clip.fadeOutSamples.getD 0 ≠ 0) := hfades
      simp only [splitEdits, hcond, if_false]
      rfl
    rw [hedits]
    simp only [editsDoc, editsCaptures, hbounds, Effect.result, hadd, hfades, if_false]
    exact ⟨trivial, rfl⟩

/-- The keys of the three captures begin differently. -/
theorem targetKey_bounds_ne_fades (bounds : ClipBounds) (fadeIn fadeOut : Int) :
    targetKey (.setClipBounds trackId clipId bounds) ≠
      targetKey (.setClipFades trackId clipId fadeIn fadeOut) := by
  change s!"clipbounds:{trackId}:{clipId}" ≠ s!"clipfades:{trackId}:{clipId}"
  simp only [toString, ne_eq, String.append_assoc]
  exact append_ne_append _ _ 5 (by decide) (by decide) (by decide)

theorem targetKey_bounds_ne_clip (bounds : ClipBounds) :
    targetKey (.setClipBounds trackId clipId bounds) ≠
      targetKey (.deleteClip trackId rightId) := by
  change s!"clipbounds:{trackId}:{clipId}" ≠ s!"clip:{trackId}:{rightId}"
  simp only [toString, ne_eq, String.append_assoc]
  exact append_ne_append _ _ 5 (by decide) (by decide) (by decide)

theorem targetKey_fades_ne_clip (fadeIn fadeOut : Int) :
    targetKey (.setClipFades trackId clipId fadeIn fadeOut) ≠
      targetKey (.deleteClip trackId rightId) := by
  change s!"clipfades:{trackId}:{clipId}" ≠ s!"clip:{trackId}:{rightId}"
  simp only [toString, ne_eq, String.append_assoc]
  exact append_ne_append _ _ 5 (by decide) (by decide) (by decide)

/-- A split keeps all it captures. -/
theorem keptOps_splitEdits (hclip : d.findClip trackId clipId = some clip)
    (habsolute : isMusicalClip clip = false) :
    keptOps (editsCaptures (splitEdits rightId trackId clipId clip at_) d) =
      editsCaptures (splitEdits rightId trackId clipId clip at_) d := by
  rw [(splitEdits_spec rightId at_ hclip habsolute).2]
  apply keptOps_of_nodup
  split
  · simp [targetKey_bounds_ne_fades, targetKey_bounds_ne_clip, targetKey_fades_ne_clip]
  · simp [targetKey_bounds_ne_clip]

theorem deleteClip_of_find {c : ClipDef} (hclip : d.findClip trackId clipId = some c) :
    deleteClip trackId clipId d =
      .writes (.addClip trackId c)
        (d.updateTrack trackId fun t =>
          { t with clips := t.clips.eraseP fun c => c.id == clipId }) := by
  simp only [deleteClip, hclip]

theorem ne_of_fresh (hclip : d.findClip trackId clipId = some clip)
    (hfresh : d.findClip trackId rightId = none) : rightId ≠ clipId := by
  rintro rfl
  rw [hclip] at hfresh
  cases hfresh

/-- The two parts, as they are found after the edits. -/
theorem findClip_parts (at_ : Int) (hclip : d.findClip trackId clipId = some clip)
    (hfresh : d.findClip trackId rightId = none) :
    ((d.updateClip trackId clipId (leftClip clip at_)).updateTrack trackId
        fun t => { t with clips := t.clips ++ [rightClip rightId clip at_] }).findClip trackId
          clipId = some (leftClip clip at_ clip) ∧
      ((d.updateClip trackId clipId (leftClip clip at_)).updateTrack trackId
        fun t => { t with clips := t.clips ++ [rightClip rightId clip at_] }).findClip trackId
          rightId = some (rightClip rightId clip at_) := by
  have hleft : (d.updateClip trackId clipId (leftClip clip at_)).findClip trackId clipId =
      some (leftClip clip at_ clip) := by
    rw [findClip_updateClip leftClip_id, hclip]
    rfl
  have hgone : (d.updateClip trackId clipId (leftClip clip at_)).findClip trackId rightId = none :=
    (findClip_updateClip_of_ne leftClip_id (ne_of_fresh hclip hfresh)).trans hfresh
  obtain ⟨t, ht⟩ := findTrack_of_findClip hleft
  constructor
  · rw [findClip_append ht, hleft]
    rfl
  · rw [findClip_append ht, hgone, Option.none_or]
    exact if_pos rfl

/-- The fades and the bounds written back, in this order, to the left part. -/
theorem replayDoc_rejoin (freshId : Nat → String) (hclip : d.findClip trackId clipId = some clip)
    (habsolute : isMusicalClip clip = false) :
    replayDoc freshId
        ((if clip.HasFades then [.setClipFades trackId clipId (clip.fadeInSamples.getD 0)
          (clip.fadeOutSamples.getD 0)] else []) ++ [.setClipBounds trackId clipId (boundsOf clip)])
        (d.updateClip trackId clipId (leftClip clip at_)) =
      d.updateClip trackId clipId (rejoinedClip clip at_) := by
  have hleft : (d.updateClip trackId clipId (leftClip clip at_)).findClip trackId clipId =
      some (leftClip clip at_ clip) := by
    rw [findClip_updateClip leftClip_id, hclip]
    rfl
  have hmusical : isMusicalClip (leftClip clip at_ clip) = false := by
    unfold leftClip
    split <;> exact habsolute
  split
  · rename_i hfades
    have hwrite (fresh : String) : mutatorOf fresh (.setClipFades trackId clipId
        (clip.fadeInSamples.getD 0) (clip.fadeOutSamples.getD 0)) _ = .writes _ _ :=
      setClipFades_of_find hleft _ _
    have hfaded : ((d.updateClip trackId clipId (leftClip clip at_)).updateClip trackId clipId
        fun c => c.setFades (clip.fadeInSamples.getD 0) (clip.fadeOutSamples.getD 0)).findClip
          trackId clipId = _ :=
      findClip_updateClip fun _ => rfl
    rw [hleft] at hfaded
    have hbounds (fresh : String) : mutatorOf fresh (.setClipBounds trackId clipId
        (boundsOf clip)) _ = .writes _ _ :=
      setClipBounds_of_absolute hfaded hmusical (boundsOf clip)
    rw [List.singleton_append, replayDoc_cons_of_writes (hwrite _),
      replayDoc_cons_of_writes (hbounds _), replayDoc, updateClip_updateClip leftClip_id,
      updateClip_updateClip]
    · congr 1
      funext c
      rw [rejoinedClip, if_pos hfades]
    · exact fun c => leftClip_id c
  · rename_i hfades
    have hbounds (fresh : String) : mutatorOf fresh (.setClipBounds trackId clipId
        (boundsOf clip)) _ = .writes _ _ :=
      setClipBounds_of_absolute hleft hmusical (boundsOf clip)
    rw [List.nil_append, replayDoc_cons_of_writes (hbounds _), replayDoc,
      updateClip_updateClip leftClip_id]
    congr 1
    funext c
    rw [rejoinedClip, if_neg hfades]

/-- What the undo of a split leaves. -/
theorem replayDoc_split (freshId : Nat → String) (hclip : d.findClip trackId clipId = some clip)
    (habsolute : isMusicalClip clip = false) (hfresh : d.findClip trackId rightId = none) :
    replayDoc freshId
        (editsCaptures (splitEdits rightId trackId clipId clip at_) d).reverse
        (editsDoc (splitEdits rightId trackId clipId clip at_) d) =
      d.updateClip trackId clipId (rejoinedClip clip at_) := by
  obtain ⟨hdoc, hcaptures⟩ := splitEdits_spec rightId at_ hclip habsolute
  have hright := (findClip_parts at_ hclip hfresh).2
  have hdelete (fresh : String) : mutatorOf fresh (.deleteClip trackId rightId) _ = .writes _ _ :=
    deleteClip_of_find hright
  have hne : rightId ≠ clipId := ne_of_fresh hclip hfresh
  have hgone : (d.updateClip trackId clipId (leftClip clip at_)).findClip trackId
      (rightClip rightId clip at_).id = none :=
    (findClip_updateClip_of_ne leftClip_id hne).trans hfresh
  have herased := erase_append hgone
  have hreverse : (editsCaptures (splitEdits rightId trackId clipId clip at_) d).reverse =
      .deleteClip trackId rightId ::
        ((if clip.HasFades then [.setClipFades trackId clipId (clip.fadeInSamples.getD 0)
          (clip.fadeOutSamples.getD 0)] else []) ++
            [.setClipBounds trackId clipId (boundsOf clip)]) := by
    rw [hcaptures]
    split <;> rfl
  rw [hdoc, hreverse, replayDoc_cons_of_writes (hdelete _), ← replayDoc_rejoin _ hclip habsolute]
  exact congrArg _ herased

end Cut

section Rejoin

variable {p : Project} {trackId clipId rightId : String} {clip : ClipDef} {at_ : Int}

theorem splitClip_of_accepted (hclip : p.doc.findClip trackId clipId = some clip)
    (haccepted : (p.splitClip rightId trackId clipId at_).2 = some rightId) :
    isMusicalClip clip = false ∧ 1024 ≤ at_ - clip.startSample.getD 0 ∧
      1024 ≤ clip.startSample.getD 0 + clip.lengthSamples.getD 0 - at_ ∧
      (p.splitClip rightId trackId clipId at_).1 =
        p.gesture (splitEdits rightId trackId clipId clip at_) := by
  simp only [Project.splitClip, hclip] at haccepted ⊢
  split at haccepted
  · cases haccepted
  · split at haccepted
    · cases haccepted
    · split at haccepted
      · cases haccepted
      · rename_i hasset hmusical hroom
        rw [if_neg hasset, if_neg hmusical, if_neg hroom]
        rw [Bool.not_eq_true] at hmusical
        refine ⟨hmusical, ?_, ?_, rfl⟩
        · omega
        · omega

/-- The document after a split and after its undo. -/
theorem undo_splitClip (freshId : Nat → String) (hrest : p.AtRest)
    (hclip : p.doc.findClip trackId clipId = some clip)
    (haccepted : (p.splitClip rightId trackId clipId at_).2 = some rightId)
    (hfresh : p.doc.findClip trackId rightId = none) :
    ((p.splitClip rightId trackId clipId at_).1.doc =
        (p.doc.updateClip trackId clipId (leftClip clip at_)).updateTrack trackId
          fun t => { t with clips := t.clips ++ [rightClip rightId clip at_] }) ∧
      ((p.splitClip rightId trackId clipId at_).1.undo freshId).doc =
        p.doc.updateClip trackId clipId (rejoinedClip clip at_) := by
  obtain ⟨habsolute, _, _, hgesture⟩ := splitClip_of_accepted hclip haccepted
  obtain ⟨hdoc, hcaptures⟩ := splitEdits_spec rightId at_ hclip habsolute
  have hsome : editsCaptures (splitEdits rightId trackId clipId clip at_) p.doc ≠ [] := by
    rw [hcaptures]
    simp
  rw [hgesture]
  constructor
  · rw [(gesture_of_captures hrest hsome).2.1, hdoc]
  · rw [undo_gesture hrest hsome, keptOps_splitEdits hclip habsolute,
      replayDoc_split freshId hclip habsolute hfresh]

theorem leftClip_fields (hleft : 1024 ≤ at_ - clip.startSample.getD 0) :
    (leftClip clip at_ clip).startSample = some (max 0 (clip.startSample.getD 0)) ∧
      (leftClip clip at_ clip).lengthSamples = some (at_ - clip.startSample.getD 0) ∧
      (leftClip clip at_ clip).offsetSamples = clip.offsetSamples.map (max 0) := by
  have hlength : max 1024 (at_ - clip.startSample.getD 0) = at_ - clip.startSample.getD 0 := by
    omega
  unfold leftClip
  split <;> simp [ClipDef.setFades, ClipDef.setBounds, leftBounds, hlength]

theorem tiles_iff (hleft : 1024 ≤ at_ - clip.startSample.getD 0) :
    Tiles clip (leftClip clip at_ clip) (rightClip rightId clip at_) at_ ↔
      0 ≤ clip.startSample.getD 0 ∧
        ∃ offsetSamples, clip.offsetSamples = some offsetSamples ∧ 0 ≤ offsetSamples := by
  obtain ⟨hstart, hlength, hoffset⟩ := leftClip_fields hleft
  constructor
  · rintro ⟨hfirst, _, a, mid, b, hwhole, hplayed, _⟩
    simp only [ClipDef.timeline, hstart, hlength, Option.getD_some, Prod.mk.injEq] at hfirst
    cases hoff : clip.offsetSamples with
    | none => simp [ClipDef.asset, hoff] at hwhole
    | some offset =>
        simp only [ClipDef.asset, hoff, hoffset, hlength, Option.map_some, Option.some.injEq,
          Prod.mk.injEq] at hwhole hplayed
        exact ⟨by omega, offset, rfl, by omega⟩
  · rintro ⟨hzero, offset, hoff, hpos⟩
    constructor
    · simp only [ClipDef.timeline, hstart, hlength, Option.getD_some, Prod.mk.injEq]
      omega
    · simp only [ClipDef.timeline, rightClip, Option.getD_some, Prod.mk.injEq, true_and]
      omega
    · refine ⟨offset, offset + (at_ - clip.startSample.getD 0),
        offset + clip.lengthSamples.getD 0, ?_, ?_, ?_⟩
      · simp [ClipDef.asset, hoff]
      · simp only [ClipDef.asset, hoffset, hoff, hlength, Option.map_some, Option.getD_some,
          max_eq_right hpos]
      · simp only [ClipDef.asset, rightClip, hoff, Option.map_some, Option.getD_some,
          Option.some.injEq, Prod.mk.injEq, true_and]
        omega

/-- The largest fade that the undo can write back. -/
def halfLeft (clip : ClipDef) (at_ : Int) : Int := (at_ - clip.startSample.getD 0) / 2

theorem rejoinedClip_eq (hleft : 1024 ≤ at_ - clip.startSample.getD 0)
    (hright : 1024 ≤ clip.startSample.getD 0 + clip.lengthSamples.getD 0 - at_) :
    rejoinedClip clip at_ clip =
      { clip with
        startSample := some (max 0 (clip.startSample.getD 0))
        lengthSamples := some (clip.lengthSamples.getD 0)
        offsetSamples := clip.offsetSamples.map (max 0)
        fadeInSamples :=
          if clip.HasFades then
            some (max 0 (min (halfLeft clip at_) (clip.fadeInSamples.getD 0)))
          else clip.fadeInSamples
        fadeOutSamples :=
          if clip.HasFades then
            some (max 0 (min (halfLeft clip at_) (clip.fadeOutSamples.getD 0)))
          else clip.fadeOutSamples } := by
  have hlength : max 1024 (clip.lengthSamples.getD 0) = clip.lengthSamples.getD 0 := by
    omega
  have hshort : max 1024 (at_ - clip.startSample.getD 0) = at_ - clip.startSample.getD 0 := by
    omega
  unfold rejoinedClip leftClip
  split
  · simp only [ClipDef.setFades, ClipDef.setBounds, boundsOf, leftBounds, hlength, hshort,
      Option.getD_some, halfLeft]
  · simp only [ClipDef.setBounds, boundsOf, hlength]

/-- The undo restores the numbers of the clip. -/
theorem read_rejoinedClip_iff (hleft : 1024 ≤ at_ - clip.startSample.getD 0)
    (hright : 1024 ≤ clip.startSample.getD 0 + clip.lengthSamples.getD 0 - at_)
    (hoffset : ∃ offsetSamples, clip.offsetSamples = some offsetSamples ∧ 0 ≤ offsetSamples) :
    (rejoinedClip clip at_ clip).read = clip.read ↔ Rejoins clip at_ := by
  obtain ⟨offset, hoff, hpos⟩ := hoffset
  rw [rejoinedClip_eq hleft hright]
  simp only [ClipDef.read, hoff, ClipDef.mk.injEq, Option.getD_some, Option.map_some,
    max_eq_right hpos, Option.some.injEq, true_and, and_true]
  constructor
  · rintro ⟨hstart, hin, hout⟩
    refine ⟨by omega, ⟨offset, hoff, hpos⟩, ?_⟩
    by_cases hfades : clip.HasFades
    · rw [if_pos hfades, Option.getD_some, halfLeft] at hin hout
      right
      omega
    · left
      simpa [ClipDef.HasFades] using hfades
  · rintro ⟨hstart, _, hfades⟩
    by_cases hhas : clip.HasFades
    · rw [if_pos hhas, if_pos hhas, Option.getD_some, Option.getD_some, halfLeft]
      rw [ClipDef.HasFades] at hhas
      omega
    · rw [if_neg hhas, if_neg hhas]
      exact ⟨by omega, rfl, rfl⟩

/-- The clip itself comes back when nothing that was absent is written. -/
theorem rejoinedClip_eq_self_iff (hleft : 1024 ≤ at_ - clip.startSample.getD 0)
    (hright : 1024 ≤ clip.startSample.getD 0 + clip.lengthSamples.getD 0 - at_)
    (hrejoins : Rejoins clip at_) : rejoinedClip clip at_ clip = clip ↔ Written clip := by
  have hread : (rejoinedClip clip at_ clip).read = clip.read :=
    (read_rejoinedClip_iff hleft hright hrejoins.offset).mpr hrejoins
  rw [rejoinedClip_eq hleft hright] at hread ⊢
  constructor
  · intro heq
    have hstart := congrArg ClipDef.startSample heq
    have hin := congrArg ClipDef.fadeInSamples heq
    have hout := congrArg ClipDef.fadeOutSamples heq
    refine ⟨by rw [← hstart]; rfl, ?_⟩
    by_cases hhas : clip.HasFades
    · right
      dsimp only at hin hout
      rw [if_pos hhas] at hin hout
      exact ⟨by rw [← hin]; rfl, by rw [← hout]; rfl⟩
    · left
      simpa [ClipDef.HasFades] using hhas
  · rintro ⟨hstart, hfades⟩
    obtain ⟨offset, hoff, hpos⟩ := hrejoins.offset
    have hlength : clip.lengthSamples.isSome := by
      cases hl : clip.lengthSamples with
      | none =>
          rw [hl, Option.getD_none] at hright
          omega
      | some length => rfl
    have hhas : clip.HasFades → clip.fadeInSamples.isSome ∧ clip.fadeOutSamples.isSome := by
      rintro hnonzero
      rcases hfades with ⟨hin, hout⟩ | hsome
      · exact absurd hnonzero (by simp [ClipDef.HasFades, hin, hout])
      · exact hsome
    have hvalue : ∀ {n : Option Int}, n.isSome → some (n.getD 0) = n := by
      intro n hn
      cases n with
      | none => cases hn
      | some n => rfl
    simp only [ClipDef.read, ClipDef.mk.injEq, Option.getD_some, Option.some.injEq] at hread
    obtain ⟨_, _, _, hs, _, _, hin, hout, _⟩ := hread
    have hfadeIn : (if clip.HasFades then
        some (max 0 (min (halfLeft clip at_) (clip.fadeInSamples.getD 0)))
          else clip.fadeInSamples) = clip.fadeInSamples := by
      split
      · rename_i hnonzero
        rw [if_pos hnonzero, Option.getD_some] at hin
        rw [hin, hvalue (hhas hnonzero).1]
      · rfl
    have hfadeOut : (if clip.HasFades then
        some (max 0 (min (halfLeft clip at_) (clip.fadeOutSamples.getD 0)))
          else clip.fadeOutSamples) = clip.fadeOutSamples := by
      split
      · rename_i hnonzero
        rw [if_pos hnonzero, Option.getD_some] at hout
        rw [hout, hvalue (hhas hnonzero).2]
      · rfl
    rw [hfadeIn, hfadeOut, hs, hvalue hstart, hvalue hlength, hoff, Option.map_some,
      max_eq_right hpos, ← hoff]

/-- What a split and its undo restore. The parts tile the clip and the undo
restores its numbers exactly when it `Rejoins`; it restores the document itself
when, besides, every number that it writes was there. -/
theorem splitClip_rejoins_iff (freshId : Nat → String) (hrest : p.AtRest)
    (hclip : p.doc.findClip trackId clipId = some clip)
    (haccepted : (p.splitClip rightId trackId clipId at_).2 = some rightId)
    (hfresh : p.doc.findClip trackId rightId = none) :
    (SplitsAndRejoins p rightId trackId clipId clip at_ freshId ↔ Rejoins clip at_) ∧
      (SplitsAndRejoins p rightId trackId clipId clip at_ freshId ∧
          ((p.splitClip rightId trackId clipId at_).1.undo freshId).doc = p.doc ↔
        Rejoins clip at_ ∧ Written clip) := by
  obtain ⟨_, hleft, hright, _⟩ := splitClip_of_accepted hclip haccepted
  obtain ⟨hdoc, hundo⟩ := undo_splitClip freshId hrest hclip haccepted hfresh
  obtain ⟨hfirst, hsecond⟩ := findClip_parts at_ hclip hfresh
  have htwo : SplitsAndRejoins p rightId trackId clipId clip at_ freshId ↔ Rejoins clip at_ := by
    rw [SplitsAndRejoins, hdoc, hundo, hfirst, hsecond]
    constructor
    · rintro ⟨⟨left, right, hl, hr, htiles⟩, back, hback, hread⟩
      cases hl
      cases hr
      obtain ⟨_, hoffset⟩ := (tiles_iff hleft).mp htiles
      rw [← updateClip_eq_iff.mp hback clip hclip] at hread
      exact (read_rejoinedClip_iff hleft hright hoffset).mp hread
    · intro hrejoins
      refine ⟨⟨_, _, rfl, rfl, (tiles_iff hleft).mpr ⟨hrejoins.start, hrejoins.offset⟩⟩,
        rejoinedClip clip at_ clip, ?_, ?_⟩
      · rw [updateClip_eq_iff, hclip]
        rintro _ ⟨⟩
        rfl
      · exact (read_rejoinedClip_iff hleft hright hrejoins.offset).mpr hrejoins
  have hself : ((p.splitClip rightId trackId clipId at_).1.undo freshId).doc = p.doc ↔
      rejoinedClip clip at_ clip = clip := by
    rw [hundo, updateClip_eq_self_iff, hclip]
    constructor
    · exact fun h => h clip rfl
    · rintro h _ ⟨⟩
      exact h
  refine ⟨htwo, ?_⟩
  rw [htwo, hself]
  constructor
  · rintro ⟨hrejoins, hsame⟩
    exact ⟨hrejoins, (rejoinedClip_eq_self_iff hleft hright hrejoins).mp hsame⟩
  · rintro ⟨hrejoins, hwritten⟩
    exact ⟨hrejoins, (rejoinedClip_eq_self_iff hleft hright hrejoins).mpr hwritten⟩

/-- One second of audio with a fade-in of a third of it and a short fade-out. -/
def fadedClip : ClipDef where
  id := "c"
  assetHash := "a"
  startSample := some 0
  lengthSamples := some 48000
  offsetSamples := some 0
  fadeInSamples := some 16000
  fadeOutSamples := some 480

def clipAlone (clip : ClipDef) : Project where
  doc := { tracks := [{ id := "t", name := "Audio", clips := [clip] }] }

/-- Cut late enough, the clip is put together again. -/
theorem splitClip_rejoins_late :
    (SplitsAndRejoins (clipAlone fadedClip) "r" "t" "c" fadedClip 40000 (fun _ => "n") ↔
        Rejoins fadedClip 40000) ∧
      (SplitsAndRejoins (clipAlone fadedClip) "r" "t" "c" fadedClip 40000 (fun _ => "n") ∧
          (((clipAlone fadedClip).splitClip "r" "t" "c" 40000).1.undo fun _ => "n").doc =
            (clipAlone fadedClip).doc ↔
        Rejoins fadedClip 40000 ∧ Written fadedClip) :=
  splitClip_rejoins_iff (p := clipAlone fadedClip) (fun _ => "n") ⟨rfl, rfl⟩ rfl (by decide) rfl

/-- Cut in the middle, the undo writes the fade-in back to a left part whose
half is shorter. -/
theorem not_rejoins_early :
    ((clipAlone fadedClip).splitClip "r" "t" "c" 24000).2 = some "r" ∧
      ((((clipAlone fadedClip).splitClip "r" "t" "c" 24000).1.undo fun _ => "n").doc.findClip "t"
        "c").map ClipDef.fadeInSamples = some (some 12000) ∧
      ¬SplitsAndRejoins (clipAlone fadedClip) "r" "t" "c" fadedClip 24000 fun _ => "n" := by
  refine ⟨by decide, by decide, ?_⟩
  rintro ⟨_, back, hback, hread⟩
  have hfades := congrArg
    (fun d : ProjectDef => d.tracks.map fun t => t.clips.map ClipDef.fadeInSamples) hback
  have hundone : ((((clipAlone fadedClip).splitClip "r" "t" "c" 24000).1.undo
      fun _ => "n").doc.tracks.map fun t => t.clips.map ClipDef.fadeInSamples) =
        [[some 12000]] := by
    decide
  have hfade : [[some 12000]] = [[back.fadeInSamples]] := hundone.symm.trans hfades
  have hkept : some (back.fadeInSamples.getD 0) = fadedClip.read.fadeInSamples :=
    congrArg ClipDef.fadeInSamples hread
  rw [← List.singleton_inj.mp (List.singleton_inj.mp hfade)] at hkept
  exact absurd hkept (by decide)

end Rejoin

end DawProject.Document
