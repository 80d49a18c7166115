import DawProject.Engine.PathSafety
import Mathlib.Algebra.GroupWithZero.Defs
import Mathlib.Algebra.Field.Rat

/-!
The clips of a track, `engine/src/graph/clip_player.cpp`, and the stem that
takes their place, `resolveStemSubstitution` of
`engine/src/graph/graph_common.cpp`. A buffer is a list of stereo frames. What a
clip player gives at a position does not depend on the block it is asked for.
-/

namespace DawProject.Playback

open Engine (ClipDef ProcessorDef TrackDef Options governing isPathComponentSafe)

/-- The arithmetic of samples, with the laws that rounding keeps. -/
class Sample (F : Type) extends MulZeroOneClass F, AddZeroClass F, Sub F, Div F, IntCast F

instance : Sample ℚ where
  zero_add := zero_add
  add_zero := add_zero

section Frame

/-- The two samples of a position. -/
structure Frame (F : Type) where
  left : F
  right : F
deriving DecidableEq, Repr

variable {F : Type} [Sample F]

/-- Both samples times a gain. -/
def Frame.scale (gain : F) (x : Frame F) : Frame F := ⟨x.left * gain, x.right * gain⟩

instance : AddZeroClass (Frame F) where
  zero := ⟨0, 0⟩
  add x y := ⟨x.left + y.left, x.right + y.right⟩
  zero_add x := congrArg₂ Frame.mk (zero_add x.left) (zero_add x.right)
  add_zero x := congrArg₂ Frame.mk (add_zero x.left) (add_zero x.right)

@[simp] theorem Frame.scale_zero (gain : F) : Frame.scale gain 0 = 0 :=
  congrArg₂ Frame.mk (zero_mul gain) (zero_mul gain)

@[simp] theorem Frame.scale_one (x : Frame F) : x.scale 1 = x :=
  congrArg₂ Frame.mk (mul_one x.left) (mul_one x.right)

end Frame

/-- A file in memory, its samples interleaved when it is stereo. -/
structure AudioAsset (F : Type) where
  samples : List F
  channels : Nat
  sample_rate : Nat
  frame_count : Nat
deriving DecidableEq, Repr

def AudioAsset.isValid {F : Type} (asset : AudioAsset F) : Bool :=
  decide (asset.channels > 0) && decide (asset.sample_rate > 0) && decide (asset.frame_count > 0)

structure ClipInfo where
  id : String := ""
  asset_hash : String := ""
  start_sample : Int := 0
  length_samples : Int := 0
  offset_samples : Int := 0
  fade_in_samples : Int := 0
  fade_out_samples : Int := 0
deriving DecidableEq, Repr

structure ClipPlayer (F : Type) where
  asset : Option (AudioAsset F) := none
  clip : ClipInfo
deriving DecidableEq, Repr

section Render

variable {F : Type} [Sample F]

def AudioAsset.getSample (asset : AudioAsset F) (asset_frame : Int) (channel : Nat) : F :=
  if asset_frame < 0 ∨ asset_frame ≥ asset.frame_count then 0
  else if asset.channels = 1 then asset.samples.getD asset_frame.toNat 0
  else if asset.channels = 2 then asset.samples.getD (asset_frame.toNat * 2 + channel) 0
  else 0

/-- The ramps at the edges of the clip. -/
def ClipInfo.gain (clip : ClipInfo) (clip_offset : Int) : F :=
  let gain : F :=
    if clip.fade_in_samples > 0 ∧ clip_offset < clip.fade_in_samples then
      1 * ((clip_offset + 1 : Int) / (clip.fade_in_samples : F))
    else 1
  let remaining := clip.length_samples - clip_offset
  if clip.fade_out_samples > 0 ∧ remaining ≤ clip.fade_out_samples then
    gain * (remaining / (clip.fade_out_samples : F))
  else gain

/-- One frame of the loop of `render`. -/
def ClipInfo.frameAt (clip : ClipInfo) (asset : AudioAsset F) (timeline_pos : Int) : Frame F :=
  if timeline_pos ≥ clip.start_sample ∧
      timeline_pos < clip.start_sample + clip.length_samples then
    let clip_offset := timeline_pos - clip.start_sample
    let asset_frame := clip.offset_samples + clip_offset
    let gain := clip.gain clip_offset
    ⟨asset.getSample asset_frame 0 * gain, asset.getSample asset_frame 1 * gain⟩
  else 0

def silence (frame_count : Nat) : List (Frame F) := List.replicate frame_count 0

def ClipPlayer.isActiveAt (player : ClipPlayer F) (position_samples : Int) (frame_count : Nat) :
    Bool :=
  position_samples < player.clip.start_sample + player.clip.length_samples &&
    position_samples + frame_count > player.clip.start_sample

def ClipPlayer.render (player : ClipPlayer F) (frame_count : Nat) (position_samples : Int) :
    List (Frame F) :=
  match player.asset with
  | none => silence frame_count
  | some asset =>
      if !asset.isValid then silence frame_count
      else if position_samples ≥ player.clip.start_sample + player.clip.length_samples ∨
          position_samples + frame_count ≤ player.clip.start_sample then
        silence frame_count
      else
        (List.range frame_count).map fun (i : Nat) =>
          player.clip.frameAt asset (position_samples + i)

/-- What the player gives at a position. -/
def ClipPlayer.sound (player : ClipPlayer F) (timeline_pos : Int) : Frame F :=
  match player.asset with
  | none => 0
  | some asset => if asset.isValid then player.clip.frameAt asset timeline_pos else 0

end Render

section Build

variable {F : Type}

/-- `makeClipPlayer`, over the files that the cache loads. A hash that is empty
or fails the check gets no file. -/
def makeClipPlayer (assets : String → Option (AudioAsset F)) (sample_rate : Nat)
    (clip_def : ClipDef) : ClipPlayer F :=
  let implicit_fade : Int := sample_rate / 250
  let half := clip_def.length_samples.tdiv 2
  let fade_in :=
    if clip_def.fade_in_samples > 0 then clip_def.fade_in_samples else implicit_fade
  let fade_out :=
    if clip_def.fade_out_samples > 0 then clip_def.fade_out_samples else implicit_fade
  { clip :=
      { id := clip_def.id
        asset_hash := clip_def.asset_hash
        start_sample := clip_def.start_sample
        length_samples := clip_def.length_samples
        offset_samples := clip_def.offset_samples
        fade_in_samples := if fade_in < half then fade_in else half
        fade_out_samples := if fade_out < half then fade_out else half }
    asset :=
      if clip_def.asset_hash = "" then none
      else if !isPathComponentSafe clip_def.asset_hash then none
      else assets clip_def.asset_hash }

structure StemSubstitution (F : Type) where
  stem_player : ClipPlayer F
  /-- The chain goes on here. -/
  resume_index : Nat
  stem_hash : String
deriving DecidableEq, Repr

/-- The stem from the declared latency on, without ramps. -/
def stemPlayer (node : ProcessorDef F) (asset : AudioAsset F) : ClipPlayer F :=
  let latency := min (if node.stem_latency_samples < 0 then 0 else node.stem_latency_samples)
    asset.frame_count
  { asset := some asset
    clip :=
      { id := "stem:" ++ node.id
        asset_hash := node.stem_hash
        start_sample := 0
        offset_samples := latency
        length_samples := asset.frame_count - latency } }

/-- The stem of the last node that plays and has no module, if it is there. -/
def resolveStemSubstitution (opts : Options) (assets : String → Option (AudioAsset F))
    (track_def : TrackDef F) : Option (StemSubstitution F) :=
  match governing opts track_def.chain with
  | none => none
  | some (node, index) =>
      if node.stem_hash = "" then none
      else if !isPathComponentSafe node.stem_hash then none
      else
        match assets node.stem_hash with
        | none => none
        | some asset =>
            if !asset.isValid then none
            else
              some
                { stem_player := stemPlayer node asset
                  resume_index := index + 1
                  stem_hash := node.stem_hash }

end Build

section Position

variable {F : Type} [Sample F] {player : ClipPlayer F} {position_samples : Int}
  {frame_count : Nat}

/-- A player is silent outside its clip. -/
theorem ClipPlayer.sound_eq_zero {t : Int} (hout : t < player.clip.start_sample ∨
    t ≥ player.clip.start_sample + player.clip.length_samples) : player.sound t = 0 := by
  have hframe (asset : AudioAsset F) : player.clip.frameAt asset t = 0 := by
    rw [ClipInfo.frameAt, if_neg]
    rintro ⟨hstart, hend⟩
    omega
  unfold ClipPlayer.sound
  split
  · rfl
  · rw [hframe, ite_self]

theorem ClipPlayer.sound_of_not_active
    (hinactive : player.isActiveAt position_samples frame_count = false) {i : Nat}
    (hi : i < frame_count) : player.sound (position_samples + i) = 0 := by
  apply ClipPlayer.sound_eq_zero
  simp only [ClipPlayer.isActiveAt, Bool.and_eq_false_iff, decide_eq_false_iff_not] at hinactive
  omega

/-- A silent block, position by position. -/
theorem ClipPlayer.silence_eq
    (hzero : ∀ i : Nat, i < frame_count → player.sound (position_samples + i) = 0) :
    silence frame_count =
      (List.range frame_count).map fun (i : Nat) => player.sound (position_samples + i) := by
  have hmap := List.map_congr_left (g := fun _ => (0 : Frame F))
    fun i hi => hzero i (List.mem_range.mp hi)
  rw [hmap, List.map_const', List.length_range]
  rfl

/-- A block is what the player gives at its positions. -/
theorem ClipPlayer.render_eq : player.render frame_count position_samples =
    (List.range frame_count).map fun (i : Nat) => player.sound (position_samples + i) := by
  unfold ClipPlayer.render
  split
  · rename_i hasset
    apply ClipPlayer.silence_eq
    intro i _
    rw [ClipPlayer.sound, hasset]
  rename_i asset hasset
  split
  · rename_i hinvalid
    apply ClipPlayer.silence_eq
    intro i _
    simp only [ClipPlayer.sound, hasset]
    rw [if_neg (by simpa using hinvalid)]
  rename_i hvalid
  split
  · rename_i hout
    apply ClipPlayer.silence_eq
    intro i hi
    apply ClipPlayer.sound_eq_zero
    omega
  apply List.map_congr_left
  intro i _
  simp only [ClipPlayer.sound, hasset]
  rw [if_pos (by simpa using hvalid)]

end Position

section Substitution

variable {F : Type} {opts : Options} {assets : String → Option (AudioAsset F)}
  {track_def : TrackDef F} {sub : StemSubstitution F}

theorem resolveStemSubstitution_eq_some
    (hsub : resolveStemSubstitution opts assets track_def = some sub) :
    ∃ node index asset, governing opts track_def.chain = some (node, index) ∧
      assets node.stem_hash = some asset ∧ asset.isValid = true ∧
      sub.stem_player = stemPlayer node asset ∧ sub.resume_index = index + 1 := by
  rw [resolveStemSubstitution] at hsub
  split at hsub
  · cases hsub
  rename_i node index hgoverning
  split at hsub
  · cases hsub
  split at hsub
  · cases hsub
  split at hsub
  · cases hsub
  rename_i asset hasset
  split at hsub
  · cases hsub
  rename_i hvalid
  obtain rfl := Option.some.inj hsub
  exact ⟨node, index, asset, hgoverning, hasset, by simpa using hvalid, rfl, rfl⟩

end Substitution

end DawProject.Playback
