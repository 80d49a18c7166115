import DawProject.Audio.Automation
import DawProject.Lib.Signals
import DawProject.Playback.Clips
import Mathlib.Data.UInt

/-!
The offline graph, `buildGraph` and the render loop of
`engine/src/render/offline_render.cpp` over `processTrack` and `process` of
`engine/src/graph/audio_graph.cpp`. A processor is a causal map of frames; what
a machine has of them is open. Without curves, the blocks give the signal of the
tracks, however they are cut: the clips of a track times its gain, through its
chain, panned.
-/

namespace DawProject.Playback

open Audio (laneValueFor mapGain mapPan appliedMaster offlineBlocks)
open Engine (AutomationLaneDef ClipDef ProcessorDef TrackDef ProjectDef Options timelineClips
  isBuiltin)
open Floats Midi Signals

/-- A processor: what it makes of the frames, and the latency that it declares. -/
structure Sound (F : Type) where
  map : CausalMap (Frame F)
  latency : UInt32 := 0

def Sound.identity {F : Type} : Sound F where
  map := fun x _ => x

/-- What a machine has: the files of the cache, the built-ins, and the plugins
whose children start, which may play notes. -/
structure Machine (F : Type) where
  opts : Options
  assets : String → Option (AudioAsset F)
  builtin : ProcessorDef F → Option (Sound F)
  plugin : ProcessorDef F → Option (List ScheduledNote → Sound F)

/-- A track of the graph. No lane, no solo and no mute of the session is set by
the builder. -/
structure AudioTrack (F : Type) where
  gain : F
  pan : F
  automation : List (AutomationLaneDef F)
  clips : List (ClipPlayer F)
  chain : List (Stage (Frame F))

structure AudioGraph (F : Type) where
  tracks : List (AudioTrack F)
  master_gain : F
  master_automation : List (AutomationLaneDef F)

section Build

variable {F : Type} (m : Machine F)

/-- The notes of the timeline, at absolute positions. -/
def trackNotes (clips : List ClipDef) : List ScheduledNote :=
  (timelineClips clips).flatMap fun clip_def =>
    clip_def.notes.map fun n =>
      let abs_start := clip_def.start_sample + n.start_sample
      { pitch := n.pitch.toNat
        velocity := n.velocity.toNat
        start := abs_start
        end_ := abs_start + n.length_samples }

/-- One node of the chain: its processor, if it has one, and whether the notes
are assigned now. The first plugin that runs gets them. -/
def createProcessor (track_notes : List ScheduledNote) (notes_assigned : Bool)
    (proc_def : ProcessorDef F) : Option (Sound F) × Bool :=
  if isBuiltin proc_def then
    (if proc_def.bypass then some .identity else m.builtin proc_def, notes_assigned)
  else if proc_def.type = "vst3" then
    if proc_def.bypass then (some .identity, notes_assigned)
    else if !m.opts.resolvable proc_def.uid then (none, notes_assigned)
    else
      match m.plugin proc_def with
      | none => (none, notes_assigned)
      | some sound =>
          if !notes_assigned && !track_notes.isEmpty then (some (sound track_notes), true)
          else (some (sound []), notes_assigned)
  else (none, notes_assigned)

def buildChain (track_notes : List ScheduledNote) (notes_assigned : Bool) :
    List (ProcessorDef F) → List (Sound F)
  | [] => []
  | proc_def :: rest =>
      let (node, notes_assigned) := createProcessor m track_notes notes_assigned proc_def
      node.toList ++ buildChain track_notes notes_assigned rest

/-- The processors after the stem, if one plays. -/
def buildSounds (track_def : TrackDef F) : List (Sound F) :=
  match resolveStemSubstitution m.opts m.assets track_def with
  | some sub => buildChain m (trackNotes track_def.clips) false
      (track_def.chain.drop sub.resume_index)
  | none => buildChain m (trackNotes track_def.clips) false track_def.chain

def buildClips (sample_rate : Nat) (track_def : TrackDef F) : List (ClipPlayer F) :=
  match resolveStemSubstitution m.opts m.assets track_def with
  | some sub => [sub.stem_player]
  | none => (timelineClips track_def.clips).map (makeClipPlayer m.assets sample_rate)

def buildTrack (sample_rate : Nat) (track_def : TrackDef F) : AudioTrack F where
  gain := track_def.gain
  pan := track_def.pan
  automation := track_def.automation
  clips := buildClips m sample_rate track_def
  chain := (buildSounds m track_def).map fun sound => { map := sound.map }

/-- `buildGraph` of the renderer. -/
def buildGraph (sample_rate : Nat) (doc : ProjectDef F) : AudioGraph F where
  tracks := doc.tracks.map (buildTrack m sample_rate)
  master_gain := doc.master_gain
  master_automation := doc.automation

/-- The nodes that a stem stands for. -/
def substitutedNodes (doc : ProjectDef F) : Nat :=
  (doc.tracks.map fun track_def =>
    ((resolveStemSubstitution m.opts m.assets track_def).map
      StemSubstitution.resume_index).getD 0).sum

/-- The nodes of the document that the graph has to have. -/
def docNodes (doc : ProjectDef F) : Nat :=
  let doc_nodes := (doc.tracks.map fun track_def => track_def.chain.length).sum
  doc_nodes - min (substitutedNodes m doc) doc_nodes

def AudioGraph.builtNodes (graph : AudioGraph F) : Nat :=
  (graph.tracks.map fun track => track.chain.length).sum

/-- `totalDeclaredLatencySamples` after a build. -/
def totalDeclaredLatencySamples (doc : ProjectDef F) : UInt32 :=
  ((doc.tracks.flatMap (buildSounds m)).map Sound.latency).sum

end Build

section Pan

variable {F : Type} [Sample F] [LE F] [DecidableLE F] [DecidableEq F]

/-- The linear law: the near side keeps its level. -/
def panFrame (pan_value : F) (x : Frame F) : Frame F :=
  if pan_value ≠ 0 then
    let gl := if pan_value ≤ 0 then 1 else 1 - pan_value
    let gr := if 0 ≤ pan_value then 1 else 1 + pan_value
    ⟨x.left * gl, x.right * gr⟩
  else x

theorem panFrame_zero (x : Frame F) : panFrame 0 x = x := if_neg (not_not_intro rfl)

end Pan

section Process

variable {F D : Type} [Floats F D] [Sample F] [OfNat F 2] [LE F] [DecidableLE F] [DecidableEq F]
  [Add D] [Sub D] [Mul D] [Div D]

/-- The clips that are active in the block, one after the other. -/
def mixClips (clips : List (ClipPlayer F)) (frame_count : Nat) (position_samples : Int) :
    List (Frame F) :=
  clips.foldl (fun output clip =>
      if clip.isActiveAt position_samples frame_count then
        List.zipWith (· + ·) output (clip.render frame_count position_samples)
      else output)
    (silence frame_count)

/-- The gain of a block, `laneValueFor` before the value of the track. -/
def AudioTrack.gainAt (track : AudioTrack F) (position_samples : Int) : F :=
  match laneValueFor track.automation "gain" position_samples with
  | some v => mapGain v
  | none => track.gain

def AudioTrack.panAt (track : AudioTrack F) (position_samples : Int) : F :=
  match laneValueFor track.automation "pan" position_samples with
  | some v => mapPan v
  | none => track.pan

/-- The block that the chain gets: the gain comes before it. -/
def chainInput (track : AudioTrack F) (frame_count : Nat) (position_samples : Int) :
    List (Frame F) :=
  (mixClips track.clips frame_count position_samples).map
    (Frame.scale (track.gainAt position_samples))

/-- A block of a track, with the transport playing and no slot launched. -/
def processTrack (track : AudioTrack F) (frame_count : Nat) (position_samples : Int) :
    AudioTrack F × List (Frame F) :=
  let output := chainInput track frame_count position_samples
  let (chain, output) := runStages track.chain output
  ({ track with chain := chain }, output.map (panFrame (track.panAt position_samples)))

/-- `process` of the graph: the sum of the tracks, times the master gain. -/
def AudioGraph.process (graph : AudioGraph F) (frame_count : Nat) (position_samples : Int) :
    AudioGraph F × List (Frame F) :=
  let processed := graph.tracks.map fun track => processTrack track frame_count position_samples
  let output := processed.foldl (fun output track => List.zipWith (· + ·) output track.2)
    (silence frame_count)
  let master := appliedMaster graph.master_gain graph.master_automation position_samples
  ({ graph with tracks := processed.map Prod.fst }, output.map (Frame.scale master))

/-- The blocks one after the other, their frames joined. -/
def AudioGraph.run (graph : AudioGraph F) : List (Int × Nat) → AudioGraph F × List (Frame F)
  | [] => (graph, [])
  | (position, block_frames) :: blocks =>
      let (graph, block) := graph.process block_frames position
      let (graph, rest) := graph.run blocks
      (graph, block ++ rest)

/-- Blocks of these lengths, one after the other. -/
def blocksFrom (position : Int) : List Nat → List (Int × Nat)
  | [] => []
  | block_frames :: lengths =>
      (position, block_frames) :: blocksFrom (position + block_frames) lengths

def kPreRollFrames : Nat := 8192

/-- The frames of a render of `[0, stop)`: the output of the pre-roll is dropped. -/
def AudioGraph.render (graph : AudioGraph F) (stop : Int) : List (Frame F) :=
  let (warm, _) := graph.run (offlineBlocks 0 (0 - kPreRollFrames))
  (warm.run (offlineBlocks stop 0)).2

end Process

section Mix

variable {F : Type}

def AudioTrack.maps (track : AudioTrack F) : List (CausalMap (Frame F)) :=
  track.chain.map Stage.map

variable [Sample F]

-- The position of the first block.
variable (first : Int)

def AudioTrack.mix (track : AudioTrack F) (n : Nat) : Frame F :=
  track.clips.foldl (fun x clip => x + clip.sound (first + n)) 0

/-- What the first processor of the chain gets. -/
def AudioTrack.source (track : AudioTrack F) (n : Nat) : Frame F :=
  (track.mix first n).scale track.gain

/-- The track after `n` positions. -/
def AudioTrack.at_ (track : AudioTrack F) (n : Nat) : AudioTrack F :=
  { track with chain := stagesAt track.maps (track.source first) n }

def AudioGraph.at_ (graph : AudioGraph F) (n : Nat) : AudioGraph F :=
  { graph with tracks := graph.tracks.map fun track => track.at_ first n }

variable {first} {track : AudioTrack F} {n frame_count : Nat}

theorem silence_eq_window (n frame_count : Nat) :
    silence frame_count = window (fun _ => (0 : Frame F)) n frame_count := by
  rw [window, List.map_const', List.length_range]
  rfl

theorem render_eq_window (clip : ClipPlayer F) :
    clip.render frame_count (first + n) =
      window (fun k => clip.sound (first + k)) n frame_count := by
  rw [ClipPlayer.render_eq]
  apply List.map_congr_left
  intro i _
  show clip.sound (first + n + i) = clip.sound (first + (n + i : Nat))
  rw [Nat.cast_add, add_assoc]

theorem foldl_clips (clips : List (ClipPlayer F)) (x : Nat → Frame F) :
    clips.foldl (fun output clip =>
        if clip.isActiveAt (first + n) frame_count then
          List.zipWith (· + ·) output (clip.render frame_count (first + n))
        else output) (window x n frame_count) =
      window (fun k => clips.foldl (fun x clip => x + clip.sound (first + k)) (x k)) n
        frame_count := by
  induction clips generalizing x with
  | nil => rfl
  | cons clip clips ih =>
      simp only [List.foldl_cons]
      rw [← ih]
      congr 1
      split
      · rw [render_eq_window, zipWith_window]
      · rename_i hinactive
        apply window_congr
        intro i hi
        have hzero := ClipPlayer.sound_of_not_active (by simpa using hinactive) hi
        rw [Nat.cast_add, ← add_assoc, hzero, add_zero]

theorem mixClips_eq : mixClips track.clips frame_count (first + n) =
    window (track.mix first) n frame_count := by
  rw [mixClips, silence_eq_window n, foldl_clips]
  rfl

end Mix

section Signal

variable {F D : Type} [Floats F D] [Sample F] [OfNat F 2] [Add D] [Sub D] [Mul D] [Div D]
variable {first : Int} {track : AudioTrack F} {n frame_count : Nat}

theorem chainInput_eq (hlanes : track.automation = []) :
    chainInput track frame_count (first + n) = window (track.source first) n frame_count := by
  have hgain : track.gainAt (first + n) = track.gain := by
    rw [AudioTrack.gainAt, hlanes]
    rfl
  rw [chainInput, hgain, mixClips_eq, map_window]
  rfl

variable [LE F] [DecidableLE F] [DecidableEq F]

def AudioTrack.output (first : Int) (track : AudioTrack F) (n : Nat) : Frame F :=
  panFrame track.pan (cascade track.maps (track.source first) n)

def AudioGraph.output (first : Int) (graph : AudioGraph F) (n : Nat) : Frame F :=
  (graph.tracks.foldl (fun x (track : AudioTrack F) => x + track.output first n) 0).scale
    graph.master_gain

/-- Nothing is automated. -/
structure AudioGraph.Constant (graph : AudioGraph F) : Prop where
  tracks : ∀ track ∈ graph.tracks, track.automation = []
  master : graph.master_automation = []

variable {graph : AudioGraph F}

/-- A block of a track without curves. -/
theorem processTrack_at (hlanes : track.automation = []) :
    processTrack (track.at_ first n) frame_count (first + n) =
      (track.at_ first (n + frame_count), window (track.output first) n frame_count) := by
  have hpan : (track.at_ first n).panAt (first + n) = track.pan := by
    rw [AudioTrack.panAt, AudioTrack.at_, hlanes]
    rfl
  have hinput : chainInput (track.at_ first n) frame_count (first + n) =
      window (track.source first) n frame_count :=
    chainInput_eq hlanes
  have hchain : runStages (stagesAt track.maps (track.source first) n)
      (window (track.source first) n frame_count) = _ := runStages_window
  simp only [processTrack, hpan, hinput]
  simp only [AudioTrack.at_, hchain, map_window]
  rfl

theorem foldl_tracks (tracks : List (AudioTrack F)) (hlanes : ∀ t ∈ tracks, t.automation = [])
    (first : Int) (n frame_count : Nat) (x : Nat → Frame F) :
    ((tracks.map fun t => t.at_ first n).map fun t =>
        processTrack t frame_count (first + n)).foldl
        (fun output t => List.zipWith (· + ·) output t.2) (window x n frame_count) =
      window (fun k => tracks.foldl (fun x (t : AudioTrack F) => x + t.output first k) (x k)) n
        frame_count := by
  induction tracks generalizing x with
  | nil => rfl
  | cons t tracks ih =>
      obtain ⟨hfirst, hrest⟩ := List.forall_mem_cons.mp hlanes
      simp only [List.map_cons, List.foldl_cons, processTrack_at hfirst, zipWith_window]
      exact ih hrest _

theorem process_at (hconstant : graph.Constant) :
    (graph.at_ first n).process frame_count (first + n) =
      (graph.at_ first (n + frame_count), window (graph.output first) n frame_count) := by
  have htracks : ((graph.tracks.map fun t => t.at_ first n).map fun t =>
      processTrack t frame_count (first + n)).map Prod.fst =
        graph.tracks.map fun t => t.at_ first (n + frame_count) := by
    simp only [List.map_map]
    apply List.map_congr_left
    intro t ht
    exact congrArg Prod.fst (processTrack_at (hconstant.tracks t ht))
  have hmaster : appliedMaster graph.master_gain graph.master_automation (first + n) =
      graph.master_gain := by
    rw [hconstant.master]
    rfl
  have houtput := foldl_tracks graph.tracks hconstant.tracks first n frame_count fun _ => 0
  rw [← silence_eq_window] at houtput
  simp only [AudioGraph.process, AudioGraph.at_, htracks, hmaster, houtput, map_window]
  rfl

/-- The blocks of a run, however they are cut. -/
theorem run_at (hconstant : graph.Constant) (first : Int) (n : Nat) (lengths : List Nat) :
    (graph.at_ first n).run (blocksFrom (first + n) lengths) =
      (graph.at_ first (n + lengths.sum), window (graph.output first) n lengths.sum) := by
  induction lengths generalizing n with
  | nil => rfl
  | cons block_frames lengths ih =>
      have hnext : first + n + block_frames = first + (n + block_frames : Nat) := by
        rw [Nat.cast_add, add_assoc]
      simp only [blocksFrom, AudioGraph.run, process_at hconstant]
      rw [hnext, ih, List.sum_cons, window_add, Nat.add_assoc]

theorem offlineBlocks_eq (stop start : Int) : ∃ lengths : List Nat,
    offlineBlocks stop start = blocksFrom start lengths ∧
      lengths.sum = (stop - start).toNat := by
  induction start using Audio.offlineBlocks.induct stop with
  | case1 start hlt block_frames ih =>
      obtain ⟨lengths, hblocks, hsum⟩ := ih
      have hring : (Audio.kRingBlockSize : Int) = 256 := rfl
      have hframes : block_frames = min (stop - start) Audio.kRingBlockSize := rfl
      have hcast : (block_frames.toNat : Int) = block_frames := Int.toNat_of_nonneg (by omega)
      refine ⟨block_frames.toNat :: lengths, ?_, ?_⟩
      · rw [offlineBlocks, if_pos hlt, blocksFrom, hcast, ← hblocks]
      · rw [List.sum_cons, hsum]
        omega
  | case2 start hge =>
      refine ⟨[], ?_, ?_⟩
      · rw [offlineBlocks, if_neg hge, blocksFrom]
      · rw [List.sum_nil, Int.toNat_of_nonpos (by omega)]

/-- A graph that has taken nothing, from its first block on. -/
theorem run_fresh (hconstant : graph.Constant) (hfresh : graph.at_ first 0 = graph)
    (lengths : List Nat) :
    (graph.run (blocksFrom first lengths)).2 = window (graph.output first) 0 lengths.sum := by
  have hrun := run_at hconstant first 0 lengths
  rw [Nat.cast_zero, add_zero, hfresh] at hrun
  exact congrArg Prod.snd hrun

/-- A rendered range is the signal of the graph after the pre-roll. -/
theorem render_eq (hconstant : graph.Constant)
    (hfresh : graph.at_ (0 - kPreRollFrames) 0 = graph) (stop : Int) :
    graph.render stop =
      window (graph.output (0 - kPreRollFrames)) kPreRollFrames stop.toNat := by
  obtain ⟨warm, hwarm, hroll⟩ := offlineBlocks_eq 0 (0 - kPreRollFrames)
  obtain ⟨lengths, hblocks, hsum⟩ := offlineBlocks_eq stop 0
  have hpre : (0 - (0 - (kPreRollFrames : Int))).toNat = kPreRollFrames := by omega
  have hzero : 0 - (kPreRollFrames : Int) + kPreRollFrames = 0 := by omega
  have hfirst := run_at hconstant (0 - kPreRollFrames) 0 warm
  rw [Nat.cast_zero, add_zero, hfresh, ← hwarm, hroll, hpre, Nat.zero_add] at hfirst
  have hrun := run_at hconstant (0 - kPreRollFrames) kPreRollFrames lengths
  rw [hzero, ← hblocks, hsum, sub_zero] at hrun
  rw [AudioGraph.render, hfirst]
  exact congrArg Prod.snd hrun

end Signal

section Fresh

variable {F : Type} (m : Machine F) (sample_rate : Nat)

theorem maps_buildTrack (track_def : TrackDef F) :
    (buildTrack m sample_rate track_def).maps = (buildSounds m track_def).map Sound.map := by
  rw [AudioTrack.maps, buildTrack, List.map_map]
  rfl

variable [Sample F] (first : Int)

theorem buildTrack_fresh (track_def : TrackDef F) :
    (buildTrack m sample_rate track_def).at_ first 0 = buildTrack m sample_rate track_def := by
  rw [AudioTrack.at_, stagesAt_zero, maps_buildTrack, List.map_map]
  rfl

/-- A built graph has taken nothing. -/
theorem buildGraph_fresh (doc : ProjectDef F) :
    (buildGraph m sample_rate doc).at_ first 0 = buildGraph m sample_rate doc := by
  have htracks : (doc.tracks.map (buildTrack m sample_rate)).map (fun t => t.at_ first 0) =
      doc.tracks.map (buildTrack m sample_rate) := by
    rw [List.map_map]
    exact List.map_congr_left fun t _ => buildTrack_fresh m sample_rate first t
  rw [AudioGraph.at_, buildGraph, htracks]

end Fresh

end DawProject.Playback
