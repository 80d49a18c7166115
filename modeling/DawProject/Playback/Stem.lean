import DawProject.Engine.Wav
import DawProject.Playback.Graph

/-!
A stem from the render to its playback, `renderTrackStem` of
`engine/src/render/stem_render.cpp`. The reduced document is rendered up to the
end of its clips, without compensation, and the reader skips the declared
latency. So the stem plays what the chain prefix gives, advanced by the latency,
exactly when the prefix is silent from the end of the stem on.
-/

namespace DawProject.Playback

open Engine (AmValue ClipDef ProcessorDef TrackDef ProjectDef Options governing
  isPathComponentSafe reducedDocument renderedProject reduceTrack calculateProjectLength channels
  getDocument addTrack create cStr echoClip echoProcessor echoLane)
open Audio (offlineBlocks)
open Floats Signals

section Render

variable {F D : Type} [Floats F D] [Sample F] [OfNat F 2] [LE F] [DecidableLE F] [DecidableEq F]
  [Add D] [Sub D] [Mul D] [Div D]

/-- The size that the header of a float file gives for its samples. -/
def dataSize (total_samples : Int) : UInt32 := UInt32.ofInt total_samples * channels * (32 / 8)

/-- The frames of that size. -/
def declaredFrames (total_samples : Int) : Nat := (dataSize total_samples).toNat / 8

/-- A rendered stem: its frames, the size in its header and the latency that is
declared with it. -/
structure Stem (F : Type) where
  frames : List (Frame F)
  data_size : UInt32
  latency_samples : Int
deriving DecidableEq, Repr

/-- The reduced document as the renderer has it. -/
def reducedProject (D : Type) [Floats F D] (project : ProjectDef F) (track_id node_id : String) :
    Except String (ProjectDef F) :=
  match (reducedDocument project track_id node_id : Except String (AmValue D)) with
  | .error error => .error error
  | .ok doc =>
      match renderedProject doc with
      | none => .error "stem render failed: "
      | some reduced => .ok reduced

/-- The render of a reduced document. -/
def renderReduced (m : Machine F) (sample_rate : Nat) (reduced : ProjectDef F) :
    Except String (Stem F) :=
  let graph := buildGraph m sample_rate reduced
  if graph.builtNodes ≠ docNodes m reduced then
    .error ("stem render failed: Chain incomplete: document has " ++
      toString (docNodes m reduced) ++ " nodes, graph built " ++ toString graph.builtNodes ++
      " (unknown type, missing --vst3-module mapping, or child failed)")
  else
    let stop := calculateProjectLength reduced
    if stop ≤ 0 then .error "stem render failed: Invalid render range"
    else
      .ok
        { frames := graph.render stop
          data_size := dataSize stop
          latency_samples := (totalDeclaredLatencySamples m reduced).toNat }

def renderTrackStem (D : Type) [Floats F D] [Add D] [Sub D] [Mul D] [Div D] (m : Machine F)
    (project : ProjectDef F) (track_id node_id : String) : Except String (Stem F) :=
  match reducedProject D project track_id node_id with
  | .error error => .error error
  | .ok reduced =>
      if !isPathComponentSafe node_id then
        .error ("unsafe node id (path traversal?): " ++ node_id)
      else renderReduced m project.sample_rate reduced

/-- What the rendered prefix gives at a position, in a render that goes on as
far as that. -/
def prefixOutput (m : Machine F) (sample_rate : Nat) (reduced : ProjectDef F) (s : Nat) :
    Frame F :=
  ((buildGraph m sample_rate reduced).render (s + 1)).getD s 0

end Render

section Loaded

variable {F : Type} [Sample F]

/-- What is loaded of the file of a stem: as many frames as the size in its
header says, as they were written. -/
structure AudioAsset.Holds (asset : AudioAsset F) (stem : Stem F) : Prop where
  channels : asset.channels = 2
  frame_count : asset.frame_count = stem.data_size.toNat / 8
  samples : asset.samples = (stem.frames.take asset.frame_count).flatMap fun x => [x.left, x.right]

/-- The machine plays the stem in the track: the last node that it cannot run
has the latency of the stem and a hash under which the stem is loaded. -/
structure PlaysStem (m : Machine F) (track : TrackDef F) (stem : Stem F) : Prop where
  found : ∃ node index asset, governing m.opts track.chain = some (node, index) ∧
    node.stem_latency_samples = stem.latency_samples ∧
    m.assets node.stem_hash = some asset ∧ asset.Holds stem
  active : (resolveStemSubstitution m.opts m.assets track).isSome = true

theorem getD_interleave (frames : List (Frame F)) (i : Nat) :
    (frames.flatMap fun x => [x.left, x.right]).getD (i * 2 + 0) 0 = (frames.getD i 0).left ∧
      (frames.flatMap fun x => [x.left, x.right]).getD (i * 2 + 1) 0 =
        (frames.getD i 0).right := by
  induction frames generalizing i with
  | nil => exact ⟨rfl, rfl⟩
  | cons x frames ih =>
      cases i with
      | zero => exact ⟨rfl, rfl⟩
      | succ i =>
          rw [Nat.succ_mul]
          exact ih i

variable {asset : AudioAsset F} {stem : Stem F}

theorem AudioAsset.Holds.getSample (hholds : asset.Holds stem) {i : Nat}
    (hi : i < asset.frame_count) :
    asset.getSample i 0 = (stem.frames.getD i 0).left ∧
      asset.getSample i 1 = (stem.frames.getD i 0).right := by
  have htake : (stem.frames.take asset.frame_count).getD i 0 = stem.frames.getD i 0 := by
    rw [List.getD_eq_getElem?_getD, List.getElem?_take_of_lt hi, ← List.getD_eq_getElem?_getD]
  have hin : ¬ ((i : Int) < 0 ∨ (i : Int) ≥ asset.frame_count) := by omega
  have hmono : ¬ asset.channels = 1 := by
    rw [hholds.channels]
    decide
  obtain ⟨hleft, hright⟩ := getD_interleave (stem.frames.take asset.frame_count) i
  rw [htake] at hleft hright
  constructor
  · rw [AudioAsset.getSample, if_neg hin, if_neg hmono, if_pos hholds.channels, hholds.samples]
    exact hleft
  · rw [AudioAsset.getSample, if_neg hin, if_neg hmono, if_pos hholds.channels, hholds.samples]
    exact hright

/-- The stem from its latency on, as long as its frames last. -/
def Stem.sound (stem : Stem F) (s : Nat) : Frame F :=
  if s < stem.data_size.toNat / 8 then stem.frames.getD s 0 else 0

theorem gain_stemPlayer (node : ProcessorDef F) (asset : AudioAsset F) (clip_offset : Int) :
    ((stemPlayer node asset).clip.gain clip_offset : F) = 1 := by
  have hin : (stemPlayer node asset).clip.fade_in_samples = 0 := rfl
  have hout : (stemPlayer node asset).clip.fade_out_samples = 0 := rfl
  unfold ClipInfo.gain
  rw [if_neg (by omega)]
  exact if_neg (by omega)

/-- The player skips the latency at the head of the stem. -/
theorem sound_stemPlayer (hholds : asset.Holds stem) (hvalid : asset.isValid = true)
    {node : ProcessorDef F} {latency : Nat} (hlatency : node.stem_latency_samples = latency)
    (t : Nat) : (stemPlayer node asset).sound t = stem.sound (t + latency) := by
  have hclamped : min (if node.stem_latency_samples < 0 then 0 else node.stem_latency_samples)
      (asset.frame_count : Int) = (min latency asset.frame_count : Nat) := by
    rw [hlatency, if_neg (by omega)]
    omega
  have hplayer : (stemPlayer node asset).sound t =
      (stemPlayer node asset).clip.frameAt asset t := if_pos hvalid
  rw [hplayer, ClipInfo.frameAt]
  simp only [gain_stemPlayer, mul_one]
  simp only [stemPlayer, hclamped, Stem.sound, ← hholds.frame_count]
  split
  · rename_i hin
    have hlt : t + latency < asset.frame_count := by omega
    have hframe : ((min latency asset.frame_count : Nat) : Int) + (t - 0) =
        (t + latency : Nat) := by
      omega
    obtain ⟨hleft, hright⟩ := hholds.getSample hlt
    rw [if_pos hlt, hframe, hleft, hright]
  · rename_i hout
    rw [if_neg (by omega)]

theorem PlaysStem.player {m : Machine F} {track : TrackDef F} (hplays : PlaysStem m track stem)
    {latency : Nat} (hlatency : stem.latency_samples = latency) :
    ∃ sub, resolveStemSubstitution m.opts m.assets track = some sub ∧
      (∀ t : Nat, sub.stem_player.sound t = stem.sound (t + latency)) ∧
      ∀ t < 0, sub.stem_player.sound t = 0 := by
  obtain ⟨sub, hsub⟩ := Option.isSome_iff_exists.mp hplays.active
  obtain ⟨node, index, asset, hgoverning, hdeclared, hasset, hholds⟩ := hplays.found
  obtain ⟨node', index', asset', hgoverning', hasset', hvalid, hplayer, -⟩ :=
    resolveStemSubstitution_eq_some hsub
  obtain ⟨rfl, rfl⟩ := Prod.mk.inj (Option.some.inj (hgoverning.symm.trans hgoverning'))
  obtain rfl := Option.some.inj (hasset.symm.trans hasset')
  refine ⟨sub, hsub, ?_, ?_⟩
  · intro t
    rw [hplayer]
    exact sound_stemPlayer hholds hvalid (hdeclared.trans hlatency) t
  · intro t ht
    apply ClipPlayer.sound_eq_zero
    rw [hplayer]
    exact Or.inl ht

end Loaded

section Produced

variable {F D : Type} [Floats F D] [Sample F] {project reduced : ProjectDef F}
  {track_id node_id : String}

theorem reducedProject_eq_ok_iff :
    reducedProject D project track_id node_id = .ok reduced ↔
      ∃ track i, project.tracks.find? (fun t => t.id == track_id) = some track ∧
        track.chain.findIdx? (fun p => p.id == node_id) = some i ∧
        reduced = getDocument (addTrack (create (F := F) project.sample_rate : AmValue D)
          (reduceTrack track i)) := by
  constructor
  · intro hreduced
    rw [reducedProject] at hreduced
    split at hreduced
    · cases hreduced
    rename_i doc hdoc
    obtain ⟨track, i, htrack, hnode, rfl⟩ := (Engine.reducedDocument_eq_ok_iff D).mp hdoc
    simp only [Engine.renderedProject_create] at hreduced
    exact ⟨track, i, htrack, hnode, (Except.ok.inj hreduced).symm⟩
  · rintro ⟨track, i, htrack, hnode, rfl⟩
    rw [reducedProject, (Engine.reducedDocument_eq_ok_iff D).mpr ⟨track, i, htrack, hnode, rfl⟩]
    simp only [Engine.renderedProject_create]

/-- The track of the reduced document. -/
theorem tracks_reduced (sample_rate : Nat) (track : TrackDef F) (i : Nat) :
    (getDocument (addTrack (create (F := F) sample_rate : AmValue D)
        (reduceTrack track i)) : ProjectDef F).tracks =
      [{ reduceTrack track i with
          id := cStr track.id
          name := cStr track.name
          clips := track.clips.map echoClip
          chain := (track.chain.take (i + 1)).map echoProcessor
          automation := track.automation.map (echoLane (D := D)) }] := by
  rw [Engine.getDocument_addTrack_create, Engine.readTrack_writeTrack]
  rfl

/-- The reduced document has the curves of the track and no others. -/
theorem constant_of_reduced
    (hlanes : ∀ t ∈ project.tracks.find? (fun t => t.id == track_id), t.automation = [])
    (hreduced : reducedProject D project track_id node_id = .ok reduced) (m : Machine F)
    (sample_rate : Nat) : (buildGraph m sample_rate reduced).Constant := by
  obtain ⟨track, i, htrack, -, rfl⟩ := reducedProject_eq_ok_iff.mp hreduced
  have hempty := hlanes track htrack
  refine ⟨?_, ?_⟩
  · intro t ht
    rw [buildGraph, tracks_reduced] at ht
    rw [List.map_singleton, List.mem_singleton] at ht
    rw [ht, buildTrack, hempty]
    rfl
  · rw [buildGraph, Engine.getDocument_addTrack_create]

end Produced

section Advance

variable {F D : Type} [Floats F D] [Sample F] [OfNat F 2] [LE F] [DecidableLE F] [DecidableEq F]
  [Add D] [Sub D] [Mul D] [Div D]
variable {m : Machine F} {sample_rate : Nat} {project reduced : ProjectDef F}
  {track_id node_id : String} {stem : Stem F}

/-- The sizes wrap at 32 bits. -/
theorem declaredFrames_le {total_samples : Int} (hpos : 0 ≤ total_samples) :
    declaredFrames total_samples ≤ total_samples.toNat := by
  have hchannels : channels.toNat = 2 := rfl
  have hbytes : (32 / 8 : UInt32).toNat = 4 := rfl
  rw [declaredFrames, dataSize, UInt32.toNat_mul, UInt32.toNat_mul, hchannels, hbytes,
    UInt32.ofInt, UInt32.toNat_ofNat']
  omega

theorem prefixOutput_eq (hconstant : (buildGraph m sample_rate reduced).Constant) (s : Nat) :
    prefixOutput m sample_rate reduced s =
      (buildGraph m sample_rate reduced).output (0 - kPreRollFrames) (kPreRollFrames + s) := by
  rw [prefixOutput, render_eq hconstant (buildGraph_fresh m sample_rate _ reduced)]
  exact getD_window (by omega) 0

theorem renderReduced_ok (hstem : renderReduced m sample_rate reduced = .ok stem) :
    0 < calculateProjectLength reduced ∧
      stem =
        { frames := (buildGraph m sample_rate reduced).render (calculateProjectLength reduced)
          data_size := dataSize (calculateProjectLength reduced)
          latency_samples := (totalDeclaredLatencySamples m reduced).toNat } := by
  simp only [renderReduced] at hstem
  split at hstem
  · cases hstem
  split at hstem
  · cases hstem
  rename_i hrange
  exact ⟨not_le.mp hrange, (Except.ok.inj hstem).symm⟩

theorem renderTrackStem_ok (hreduced : reducedProject D project track_id node_id = .ok reduced)
    (hstem : renderTrackStem D m project track_id node_id = .ok stem) :
    renderReduced m project.sample_rate reduced = .ok stem := by
  simp only [renderTrackStem, hreduced] at hstem
  split at hstem
  · cases hstem
  · exact hstem

/-- The stem holds the output of the prefix up to the end of its clips. -/
theorem sound_of_rendered (hconstant : (buildGraph m sample_rate reduced).Constant)
    (hstem : renderReduced m sample_rate reduced = .ok stem) (s : Nat) :
    stem.sound s =
      if s < declaredFrames (calculateProjectLength reduced) then
        prefixOutput m sample_rate reduced s
      else 0 := by
  obtain ⟨hpos, rfl⟩ := renderReduced_ok hstem
  have hle := declaredFrames_le (Int.le_of_lt hpos)
  rw [Stem.sound]
  apply ite_congr rfl
  · intro hlt
    rw [prefixOutput_eq hconstant, render_eq hconstant (buildGraph_fresh m sample_rate _ reduced)]
    exact getD_window (lt_of_lt_of_le hlt hle) 0
  · intro _
    rfl

/-- A track with unit gain and no curves, whose stem plays, is given the output
of the prefix that produced the stem, advanced by its latency, at every position
of the project exactly when the prefix is silent there from the end of the stem
on. -/
theorem stem_playback_iff {producer reader : Machine F} {track : TrackDef F}
    {rate : Nat}
    (hproject : ∀ t ∈ project.tracks.find? (fun t => t.id == track_id), t.automation = [])
    (hreduced : reducedProject D project track_id node_id = .ok reduced)
    (hstem : renderTrackStem D producer project track_id node_id = .ok stem)
    (hplays : PlaysStem reader track stem) (hgain : track.gain = 1)
    (hlanes : track.automation = []) :
    (∀ t count : Nat, (t + count : Int) ≤ calculateProjectLength project →
      chainInput (buildTrack reader rate track) count t =
        (List.range count).map fun i => prefixOutput producer project.sample_rate reduced
          (t + i + stem.latency_samples.toNat)) ↔
      ∀ s : Nat, declaredFrames (calculateProjectLength reduced) ≤ s →
        (totalDeclaredLatencySamples producer reduced).toNat ≤ s →
        s < calculateProjectLength project + (totalDeclaredLatencySamples producer reduced).toNat →
        prefixOutput producer project.sample_rate reduced s = 0 := by
  have hconstant := constant_of_reduced hproject hreduced producer project.sample_rate
  have hrendered := renderTrackStem_ok hreduced hstem
  have hsound := sound_of_rendered hconstant hrendered
  have hlatency : stem.latency_samples = (totalDeclaredLatencySamples producer reduced).toNat := by
    obtain ⟨-, rfl⟩ := renderReduced_ok hrendered
    rfl
  generalize (totalDeclaredLatencySamples producer reduced).toNat = latency at hlatency ⊢
  obtain ⟨sub, hsub, hplayed, -⟩ := hplays.player hlatency
  have hinput : ∀ t count : Nat, chainInput (buildTrack reader rate track) count t =
      window (fun n => stem.sound (n + latency)) t count := by
    intro t count
    have hblock : chainInput (buildTrack reader rate track) count ((0 : Int) + t) = _ :=
      chainInput_eq hlanes
    rw [zero_add] at hblock
    rw [hblock]
    apply window_congr
    intro i _
    have hclips : (buildTrack reader rate track).clips = [sub.stem_player] := by
      simp only [buildTrack, buildClips, hsub]
    have hunit : (buildTrack reader rate track).gain = 1 := hgain
    rw [AudioTrack.source, hunit, Frame.scale_one, AudioTrack.mix, hclips, List.foldl_cons,
      List.foldl_nil, zero_add, zero_add, hplayed]
  have hdeclared : stem.latency_samples.toNat = latency := by omega
  simp only [hinput, hdeclared]
  constructor
  · intro hplayback s hend hlate hlt
    obtain ⟨t, rfl⟩ := Nat.exists_eq_add_of_le' hlate
    have hframe := hplayback t 1 (by omega)
    rw [window_succ, window_zero] at hframe
    have hsame : stem.sound (t + latency) =
        prefixOutput producer project.sample_rate reduced (t + latency) :=
      (List.cons.inj hframe).1
    rw [← hsame, hsound, if_neg (by omega)]
  · intro hsilent t count hin
    apply List.map_congr_left
    intro i hi
    have hlt := List.mem_range.mp hi
    show stem.sound (t + i + latency) = _
    rw [hsound]
    split
    · rfl
    · rename_i hend
      exact (hsilent (t + i + latency) (by omega) (by omega) (by omega)).symm

end Advance

section Example

/-- A plugin that is late by one sample, and says so. -/
def delayByOne : Sound ℚ where
  map := fun _ past => past.headD 0
  latency := 1

/-- A machine with the plugin and a mono file of two samples. -/
def studio (last : ℚ) : Machine ℚ where
  opts := { platform := .posix, assets_dir := "studio", vst3_modules := [("u", "u.vst3")] }
  assets := fun hash => if hash = "a" then some ⟨[1, last], 1, 48000, 2⟩ else none
  builtin := fun _ => none
  plugin := fun _ => some fun _ => delayByOne

/-- A machine without the plugin that has loaded the stem. -/
def listener : Machine ℚ where
  opts := { platform := .posix, assets_dir := "studio" }
  assets := fun hash => if hash = "s" then some ⟨[0, 0, 1, 1], 2, 48000, 2⟩ else none
  builtin := fun _ => none
  plugin := fun _ => none

/-- The file up to the end of the project, through the plugin. -/
def lateTrack : TrackDef ℚ where
  id := "t"
  gain := 1
  pan := 0
  clips := [{ id := "c", asset_hash := "a", length_samples := 2 }]
  chain :=
    [{ id := "p", type := "vst3", uid := "u", stem_hash := "s", stem_latency_samples := 1 }]

def lateProject : ProjectDef ℚ where
  master_gain := 1
  tracks := [lateTrack]

def lateStem : Stem ℚ where
  frames := [⟨0, 0⟩, ⟨1, 1⟩]
  data_size := 16
  latency_samples := 1

theorem reducedProject_late : reducedProject ℚ lateProject "t" "p" = .ok lateProject := rfl

theorem constant_late (last : ℚ) :
    (buildGraph (studio last) lateProject.sample_rate lateProject).Constant := by
  refine ⟨?_, rfl⟩
  intro t ht
  rw [List.mem_singleton.mp ht]
  rfl

theorem renderTrackStem_late (last : ℚ) (hlast : last = 0 ∨ last = 1) :
    renderTrackStem ℚ (studio last) lateProject "t" "p" = .ok lateStem := by
  have hframes : (buildGraph (studio last) lateProject.sample_rate lateProject).render 2 =
      lateStem.frames := by
    rw [render_eq (constant_late last) (buildGraph_fresh _ _ _ _)]
    rcases hlast with rfl | rfl <;> decide +kernel
  have hcomplete : (buildGraph (studio last) lateProject.sample_rate lateProject).builtNodes =
      docNodes (studio last) lateProject := rfl
  have hlength : calculateProjectLength lateProject = 2 := rfl
  have hsafe : isPathComponentSafe "p" = true := by decide
  have hsize : dataSize 2 = lateStem.data_size := rfl
  have hlatency : ((totalDeclaredLatencySamples (studio last) lateProject).toNat : Int) = 1 := rfl
  rw [renderTrackStem, reducedProject_late]
  simp only [hsafe, renderReduced, hcomplete, hlength, hframes, hsize, hlatency]
  rfl

theorem playsStem_late : PlaysStem listener lateTrack lateStem where
  found := ⟨_, 0, ⟨[0, 0, 1, 1], 2, 48000, 2⟩, rfl, rfl, rfl, rfl, rfl, rfl⟩
  active := rfl

/-- The file ends in silence, so the stem loses nothing. -/
theorem stem_playback_silent :
    chainInput (buildTrack listener 48000 lateTrack) 2 (0 : Nat) =
      (List.range 2).map fun i => prefixOutput (studio 0) lateProject.sample_rate lateProject
        (0 + i + lateStem.latency_samples.toNat) := by
  refine (stem_playback_iff ?_ reducedProject_late (renderTrackStem_late 0 (Or.inl rfl))
    playsStem_late rfl rfl).mpr ?_ 0 2 (by decide)
  · rintro t ⟨⟩
    rfl
  · intro s hend _ hlt
    have hdeclared : declaredFrames (calculateProjectLength lateProject) = 2 := rfl
    have hlength : calculateProjectLength lateProject = 2 := rfl
    have hlatency : (totalDeclaredLatencySamples (studio 0) lateProject).toNat = 1 := rfl
    obtain rfl : s = 2 := by omega
    rw [prefixOutput_eq (constant_late 0)]
    decide +kernel

/-- The last sample of the file comes out of the plugin after the end of the
stem, which plays silence for it. -/
theorem not_stem_playback_late :
    renderTrackStem ℚ (studio 1) lateProject "t" "p" = .ok lateStem ∧
      PlaysStem listener lateTrack lateStem ∧ calculateProjectLength lateProject = 2 ∧
      chainInput (buildTrack listener 48000 lateTrack) 1 1 = [⟨0, 0⟩] ∧
      prefixOutput (studio 1) lateProject.sample_rate lateProject (1 + 1) = ⟨1, 1⟩ ∧
      ¬ ∀ t count : Nat, (t + count : Int) ≤ calculateProjectLength lateProject →
        chainInput (buildTrack listener 48000 lateTrack) count t =
          (List.range count).map fun i =>
            prefixOutput (studio 1) lateProject.sample_rate lateProject
              (t + i + lateStem.latency_samples.toNat) := by
  have hplayed : chainInput (buildTrack listener 48000 lateTrack) 1 1 = [⟨0, 0⟩] := by
    decide +kernel
  have hgiven : prefixOutput (studio 1) lateProject.sample_rate lateProject (1 + 1) = ⟨1, 1⟩ := by
    rw [prefixOutput_eq (constant_late 1)]
    decide +kernel
  refine ⟨renderTrackStem_late 1 (Or.inr rfl), playsStem_late, rfl, hplayed, hgiven, ?_⟩
  intro hsame
  have hlast := hsame 1 1 (by decide)
  rw [Nat.cast_one, hplayed] at hlast
  have hframe : (⟨0, 0⟩ : Frame ℚ) = ⟨1, 1⟩ := (List.cons.inj hlast).1.trans hgiven
  exact absurd hframe (by decide)

end Example

end DawProject.Playback
