import DawProject.Playback.Stem

/-!
The fader of a track whose stem plays. `processTrack` of
`engine/src/graph/audio_graph.cpp` applies the gain between the clips and the
chain, on the peer that runs the plugins as on the peer that plays the stem,
which `renderTrackStem` of `engine/src/render/stem_render.cpp` has rendered at
unit gain. The peers agree, whatever comes after the stem, exactly when the
prefix of the chain that the stem stands for gives the stem times the gain.
-/

namespace DawProject.Playback

open Engine (ProcessorDef TrackDef ProjectDef governing isPathComponentSafe isBuiltin
  timelineClips reduceTrack calculateProjectLength)
open Floats Midi Signals

section Chains

variable {F : Type}

/-- A plugin of the chain that plays and that the machine has no module for. -/
def Unresolved (m : Machine F) (p : ProcessorDef F) : Prop :=
  p.type = "vst3" ∧ p.bypass = false ∧ m.opts.resolvable p.uid = false

instance (m : Machine F) (p : ProcessorDef F) : Decidable (Unresolved m p) :=
  inferInstanceAs (Decidable (_ ∧ _ ∧ _))

/-- A node after the stem: both peers have its processor, which does not hear
notes. -/
structure Shared (player reader : Machine F) (p : ProcessorDef F) : Prop where
  resolved : ¬ Unresolved player p
  read : ¬ Unresolved reader p
  builtin : reader.builtin p = player.builtin p
  plugin : reader.plugin p = player.plugin p
  deaf : ∀ sound ∈ player.plugin p, ∀ notes, (sound notes).map = (sound []).map

/-- No processor of the machine declares a latency. -/
structure ZeroLatency (m : Machine F) : Prop where
  builtin : ∀ p, ∀ sound ∈ m.builtin p, sound.latency = 0
  plugin : ∀ p, ∀ sound ∈ m.plugin p, ∀ notes, (sound notes).latency = 0

variable {m player reader : Machine F} {track_notes : List ScheduledNote}

theorem filter_unresolved {chain : List (ProcessorDef F)}
    (hruns : ∀ p ∈ chain, ¬ Unresolved m p) (i : Nat) :
    (chain.zipIdx i).filter (fun x =>
      x.1.type == "vst3" && !x.1.bypass && !m.opts.resolvable x.1.uid) = [] := by
  rw [List.filter_eq_nil_iff]
  rintro ⟨p, j⟩ hp hplays
  apply hruns p (List.fst_mem_of_mem_zipIdx hp)
  simpa [Unresolved, and_assoc] using hplays

theorem governing_eq_none {chain : List (ProcessorDef F)}
    (hruns : ∀ p ∈ chain, ¬ Unresolved m p) : governing m.opts chain = none :=
  congrArg List.getLast? (filter_unresolved hruns 0)

/-- The last node without a module. -/
theorem governing_append_cons (upstream : List (ProcessorDef F)) {rest : List (ProcessorDef F)}
    {node : ProcessorDef F} (hnode : Unresolved m node) (hrest : ∀ p ∈ rest, ¬ Unresolved m p) :
    governing m.opts (upstream ++ node :: rest) = some (node, upstream.length) := by
  obtain ⟨htype, hbypass, hmissing⟩ := hnode
  have hlast := filter_unresolved hrest (0 + upstream.length + 1)
  rw [governing, List.zipIdx_append, List.filter_append, List.zipIdx_cons,
    List.filter_cons_of_pos (by simp [htype, hbypass, hmissing])]
  rw [Nat.zero_add] at hlast ⊢
  exact (congrArg (fun l => (_ ++ (node, upstream.length) :: l).getLast?) hlast).trans
    List.getLast?_concat

theorem exists_of_governing {chain : List (ProcessorDef F)} {node : ProcessorDef F} {index : Nat}
    (hgoverning : governing m.opts chain = some (node, index)) :
    Unresolved m node ∧ ∃ upstream : List (ProcessorDef F), upstream.length = index ∧
      chain.take (index + 1) = upstream ++ [node] := by
  have hmem := List.mem_of_getLast? hgoverning
  obtain ⟨hin, hplays⟩ := List.mem_filter.mp hmem
  have hget := List.mem_zipIdx_iff_getElem?.mp hin
  obtain ⟨hlt, hnode⟩ := List.getElem?_eq_some_iff.mp hget
  refine ⟨by simpa [Unresolved, and_assoc] using hplays, chain.take index, ?_, ?_⟩
  · exact List.length_take_of_le (Nat.le_of_lt hlt)
  · rw [List.take_add_one, hget]
    rfl

/-- The processors of a chain in two parts. -/
theorem buildChain_append (upstream : List (ProcessorDef F)) (notes_assigned : Bool) :
    ∃ assigned, ∀ rest, buildChain m track_notes notes_assigned (upstream ++ rest) =
      buildChain m track_notes notes_assigned upstream ++
        buildChain m track_notes assigned rest := by
  induction upstream generalizing notes_assigned with
  | nil => exact ⟨notes_assigned, fun _ => rfl⟩
  | cons p upstream ih =>
      obtain ⟨assigned, hsame⟩ := ih (createProcessor m track_notes notes_assigned p).2
      refine ⟨assigned, fun rest => ?_⟩
      simp only [List.cons_append, buildChain, hsame, List.append_assoc]

theorem resolvable_of_not_unresolved {p : ProcessorDef F} (hruns : ¬ Unresolved m p)
    (htype : p.type = "vst3") (hbypass : ¬ p.bypass = true) :
    m.opts.resolvable p.uid = true := by
  by_contra hmissing
  exact hruns ⟨htype, by simpa using hbypass, by simpa using hmissing⟩

/-- Notes change nothing in a node after the stem. -/
theorem map_createProcessor {p : ProcessorDef F} (hshared : Shared player reader p)
    (assigned assigned' : Bool) :
    (createProcessor reader track_notes assigned p).1.map Sound.map =
      (createProcessor player track_notes assigned' p).1.map Sound.map := by
  unfold createProcessor
  rw [hshared.builtin, hshared.plugin]
  split
  · rfl
  split
  · rename_i htype
    split
    · rfl
    rename_i hbypass
    rw [resolvable_of_not_unresolved hshared.resolved htype hbypass,
      resolvable_of_not_unresolved hshared.read htype hbypass]
    simp only [Bool.not_true, Bool.false_eq_true, if_false]
    cases hplugin : player.plugin p with
    | none => rfl
    | some sound =>
        have hdeaf := hshared.deaf sound hplugin
        have hmap (assigned : Bool) :
            (if (!assigned && !track_notes.isEmpty) = true then (some (sound track_notes), true)
              else (some (sound []), assigned)).1.map Sound.map = some (sound []).map := by
          split
          · exact congrArg some (hdeaf track_notes)
          · rfl
        exact (hmap assigned).trans (hmap assigned').symm
  · rfl

theorem maps_shared {rest : List (ProcessorDef F)} (hshared : ∀ p ∈ rest, Shared player reader p)
    (assigned assigned' : Bool) :
    (buildChain reader track_notes assigned rest).map Sound.map =
      (buildChain player track_notes assigned' rest).map Sound.map := by
  induction rest generalizing assigned assigned' with
  | nil => rfl
  | cons p rest ih =>
      obtain ⟨hfirst, hrest⟩ := List.forall_mem_cons.mp hshared
      have hmap : (createProcessor reader track_notes assigned p).1.map Sound.map = _ :=
        map_createProcessor hfirst assigned assigned'
      simp only [buildChain, List.map_append]
      rw [ih hrest, ← Option.toList_map, ← Option.toList_map, hmap]

theorem latency_createProcessor (hzero : ZeroLatency m) (notes_assigned : Bool)
    (p : ProcessorDef F) :
    ∀ sound ∈ (createProcessor m track_notes notes_assigned p).1, sound.latency = 0 := by
  have hidentity : ∀ sound ∈ some (Sound.identity : Sound F), sound.latency = 0 := by
    rintro sound ⟨⟩
    rfl
  unfold createProcessor
  split
  · split
    · exact hidentity
    · exact hzero.builtin p
  split
  · split
    · exact hidentity
    split
    · nofun
    split
    · nofun
    rename_i sound hplugin
    split
    · rintro _ ⟨⟩
      exact hzero.plugin p sound hplugin track_notes
    · rintro _ ⟨⟩
      exact hzero.plugin p sound hplugin []
  · nofun

theorem latency_buildChain (hzero : ZeroLatency m) (notes_assigned : Bool)
    (chain : List (ProcessorDef F)) :
    ∀ sound ∈ buildChain m track_notes notes_assigned chain, sound.latency = 0 := by
  induction chain generalizing notes_assigned with
  | nil => nofun
  | cons p chain ih =>
      intro sound hsound
      rcases List.mem_append.mp hsound with hfirst | hrest
      · exact latency_createProcessor hzero notes_assigned p sound (Option.mem_toList.mp hfirst)
      · exact ih _ sound hrest

theorem totalDeclaredLatencySamples_eq_zero (hzero : ZeroLatency m) (doc : ProjectDef F) :
    totalDeclaredLatencySamples m doc = 0 := by
  have hsum : ∀ l : List UInt32, (∀ x ∈ l, x = 0) → l.sum = 0 := by
    intro l hl
    induction l with
    | nil => rfl
    | cons x l ih =>
        obtain ⟨rfl, hrest⟩ := List.forall_mem_cons.mp hl
        rw [List.sum_cons, ih hrest]
        rfl
  apply hsum
  intro latency hlatency
  obtain ⟨sound, hsound, rfl⟩ := List.mem_map.mp hlatency
  obtain ⟨track, -, hbuilt⟩ := List.mem_flatMap.mp hsound
  rw [buildSounds] at hbuilt
  split at hbuilt
  · exact latency_buildChain hzero false _ sound hbuilt
  · exact latency_buildChain hzero false _ sound hbuilt

end Chains

section Peers

variable {F : Type}

/-- The stem of the node is loaded. -/
structure HasStem (m : Machine F) (node : ProcessorDef F) (stem : Stem F) : Prop where
  hash : node.stem_hash ≠ ""
  safe : isPathComponentSafe node.stem_hash = true
  latency : node.stem_latency_samples = stem.latency_samples
  loaded : ∃ asset, m.assets node.stem_hash = some asset ∧ asset.isValid = true ∧
    asset.Holds stem

/-- The track with another pan and another chain. -/
def withChain (track : TrackDef F) (pan : F) (chain : List (ProcessorDef F)) : TrackDef F :=
  { track with pan := pan, chain := chain }

/-- The graph of one track. -/
def soloGraph (m : Machine F) (sample_rate : Nat) (master_gain : F) (track : TrackDef F) :
    AudioGraph F :=
  buildGraph m sample_rate { master_gain := master_gain, tracks := [track] }

variable {m : Machine F} {sample_rate : Nat} {track : TrackDef F} {pan : F}
  {upstream rest : List (ProcessorDef F)} {node : ProcessorDef F} {stem : Stem F}

section Player

variable {chain : List (ProcessorDef F)} (hruns : ∀ p ∈ chain, ¬ Unresolved m p)

include hruns

theorem resolveStemSubstitution_eq_none :
    resolveStemSubstitution m.opts m.assets (withChain track pan chain) = none := by
  have hgoverning : governing m.opts (withChain track pan chain).chain = none :=
    governing_eq_none hruns
  rw [resolveStemSubstitution, hgoverning]

theorem maps_player : (buildTrack m sample_rate (withChain track pan chain)).maps =
    (buildChain m (trackNotes track.clips) false chain).map Sound.map := by
  rw [maps_buildTrack, buildSounds, resolveStemSubstitution_eq_none hruns]
  rfl

theorem clips_player : (buildTrack m sample_rate (withChain track pan chain)).clips =
    (timelineClips track.clips).map (makeClipPlayer m.assets sample_rate) := by
  rw [buildTrack, buildClips, resolveStemSubstitution_eq_none hruns]
  rfl

end Player

section Reader

variable (hgone : Unresolved m node) (hnode : HasStem m node stem)
  (hrest : ∀ p ∈ rest, ¬ Unresolved m p)

include hgone hnode hrest

theorem playsStem_append :
    PlaysStem m (withChain track pan (upstream ++ node :: rest)) stem := by
  obtain ⟨asset, hasset, hvalid, hholds⟩ := hnode.loaded
  have hgoverning : governing m.opts (withChain track pan (upstream ++ node :: rest)).chain =
      some (node, upstream.length) := governing_append_cons upstream hgone hrest
  refine ⟨⟨node, upstream.length, asset, hgoverning, hnode.latency, hasset, hholds⟩, ?_⟩
  simp [resolveStemSubstitution, hgoverning, hnode.hash, hnode.safe, hasset, hvalid]

/-- The chain goes on after the node. -/
theorem maps_reader : (buildTrack m sample_rate
      (withChain track pan (upstream ++ node :: rest))).maps =
    (buildChain m (trackNotes track.clips) false rest).map Sound.map := by
  have hactive : (resolveStemSubstitution m.opts m.assets
      (withChain track pan (upstream ++ node :: rest))).isSome = true :=
    (playsStem_append hgone hnode hrest).active
  have hgoverning : governing m.opts (withChain track pan (upstream ++ node :: rest)).chain =
      some (node, upstream.length) := governing_append_cons upstream hgone hrest
  obtain ⟨sub, hsub⟩ := Option.isSome_iff_exists.mp hactive
  obtain ⟨node', index, asset, hgoverning', -, -, -, hresume⟩ :=
    resolveStemSubstitution_eq_some hsub
  obtain ⟨-, rfl⟩ := Prod.mk.inj (Option.some.inj (hgoverning.symm.trans hgoverning'))
  have hdrop : (upstream ++ node :: rest).drop (upstream.length + 1) = rest := by
    rw [List.drop_append, List.drop_of_length_le (Nat.le_succ _)]
    simp
  simp only [maps_buildTrack, buildSounds, hsub, hresume]
  rw [withChain, hdrop]

theorem source_reader [Sample F] (hlatency : stem.latency_samples = 0) (n : Nat) :
    (buildTrack m sample_rate (withChain track pan (upstream ++ node :: rest))).source 0 n =
      (stem.sound n).scale track.gain := by
  have hplays : PlaysStem m (withChain track pan (upstream ++ node :: rest)) stem :=
    playsStem_append hgone hnode hrest
  obtain ⟨sub, hsub, hplayed, -⟩ :=
    hplays.player (hlatency.trans (Nat.cast_zero (R := Int)).symm)
  have hclips : (buildTrack m sample_rate
      (withChain track pan (upstream ++ node :: rest))).clips = [sub.stem_player] := by
    simp only [buildTrack, buildClips, hsub]
  rw [AudioTrack.source, AudioTrack.mix, hclips, List.foldl_cons, List.foldl_nil, zero_add,
    zero_add, hplayed, Nat.add_zero]
  rfl

end Reader

section Split

variable [Sample F] {player reader : Machine F} {assigned : Bool}

/-- What the chain of a track gives at a position, in a run from position 0 on. -/
def chainOutput (m : Machine F) (sample_rate : Nat) (track : TrackDef F) (t : Nat) : Frame F :=
  cascade (buildTrack m sample_rate track).maps ((buildTrack m sample_rate track).source 0) t

/-- The nodes after the node, on the peer with the plugins. -/
theorem chainOutput_player (hruns : ∀ p ∈ upstream ++ [node], ¬ Unresolved player p)
    (hshared : ∀ p ∈ rest, Shared player reader p)
    (hsplit : ∀ rest,
      buildChain player (trackNotes track.clips) false (upstream ++ [node] ++ rest) =
        buildChain player (trackNotes track.clips) false (upstream ++ [node]) ++
          buildChain player (trackNotes track.clips) assigned rest) :
    chainOutput player sample_rate (withChain track pan (upstream ++ [node] ++ rest)) =
      cascade ((buildChain player (trackNotes track.clips) assigned rest).map Sound.map)
        (chainOutput player sample_rate (withChain track track.pan (upstream ++ [node]))) := by
  have hall : ∀ p ∈ upstream ++ [node] ++ rest, ¬ Unresolved player p := by
    intro p hp
    rcases List.mem_append.mp hp with hfirst | hrest
    · exact hruns p hfirst
    · exact (hshared p hrest).resolved
  have hsource : (buildTrack player sample_rate
      (withChain track pan (upstream ++ [node] ++ rest))).source 0 =
        (buildTrack player sample_rate
          (withChain track track.pan (upstream ++ [node]))).source 0 := by
    funext n
    simp only [AudioTrack.source, AudioTrack.mix, clips_player hall, clips_player hruns]
    rfl
  funext n
  rw [chainOutput, hsource, maps_player hall, hsplit, List.map_append, cascade_append]
  rw [← maps_player hruns]
  rfl

/-- The nodes after the node, on the peer with the stem. -/
theorem chainOutput_reader (hgone : Unresolved reader node) (hnode : HasStem reader node stem)
    (hshared : ∀ p ∈ rest, Shared player reader p) (hlatency : stem.latency_samples = 0)
    (assigned : Bool) :
    chainOutput reader sample_rate (withChain track pan (upstream ++ [node] ++ rest)) =
      cascade ((buildChain player (trackNotes track.clips) assigned rest).map Sound.map)
        (fun n => (stem.sound n).scale track.gain) := by
  have hrest : ∀ p ∈ rest, ¬ Unresolved reader p := fun p hp => (hshared p hp).read
  have hsource : (buildTrack reader sample_rate
      (withChain track pan (upstream ++ node :: rest))).source 0 =
        fun n => (stem.sound n).scale track.gain := by
    funext n
    exact source_reader hgone hnode hrest hlatency n
  rw [List.append_assoc, List.singleton_append]
  funext n
  rw [chainOutput, hsource, maps_reader hgone hnode hrest, maps_shared hshared false assigned]

end Split

end Peers

section Outputs

variable {F D : Type} [Floats F D] [Sample F] {m player reader : Machine F} {sample_rate : Nat}
  {track : TrackDef F} {node : ProcessorDef F} {index : Nat}

/-- What comes after the node is not in its stem, nor is the pan. -/
theorem reduceTrack_withChain (hindex : index < track.chain.length) {i : Nat} (hi : i ≤ index)
    (pan : F) (rest : List (ProcessorDef F)) :
    reduceTrack (withChain track pan (track.chain.take (index + 1) ++ rest)) i =
      reduceTrack track i := by
  have htake : (track.chain.take (index + 1) ++ rest).take (i + 1) = track.chain.take (i + 1) := by
    rw [List.take_append_of_le_length, List.take_take, min_eq_left (Nat.succ_le_succ hi)]
    rw [List.length_take_of_le hindex]
    exact Nat.succ_le_succ hi
  rw [reduceTrack, withChain, htake]
  rfl

variable [OfNat F 2] [LE F] [DecidableLE F] [DecidableEq F] [Add D] [Sub D] [Mul D] [Div D]

/-- The peers give the same, whatever comes after the node and however the track
is panned and the mix is scaled, for all positions before `stop`. -/
def SameOutput (player reader : Machine F) (sample_rate : Nat) (track : TrackDef F)
    (index : Nat) (stop : Int) : Prop :=
  ∀ (rest : List (ProcessorDef F)) (pan master_gain : F) (lengths : List Nat),
    (∀ p ∈ rest, Shared player reader p) → lengths.sum ≤ stop →
      ((soloGraph player sample_rate master_gain
          (withChain track pan (track.chain.take (index + 1) ++ rest))).run
            (blocksFrom 0 lengths)).2 =
        ((soloGraph reader sample_rate master_gain
          (withChain track pan (track.chain.take (index + 1) ++ rest))).run
            (blocksFrom 0 lengths)).2

theorem run_soloGraph (hlanes : track.automation = []) (master_gain pan : F)
    (chain : List (ProcessorDef F)) (lengths : List Nat) :
    ((soloGraph m sample_rate master_gain (withChain track pan chain)).run
        (blocksFrom 0 lengths)).2 =
      window (fun n =>
        (panFrame pan (chainOutput m sample_rate (withChain track pan chain) n)).scale master_gain)
        0 lengths.sum := by
  have hconstant : (soloGraph m sample_rate master_gain (withChain track pan chain)).Constant := by
    refine ⟨?_, rfl⟩
    intro t ht
    rw [List.mem_singleton.mp ht]
    exact hlanes
  rw [run_fresh hconstant (buildGraph_fresh _ _ _ _)]
  apply window_congr
  intro i _
  exact congrArg (Frame.scale master_gain) (zero_add _)

/-- The track of a peer with a stem gives what that of the peer with the plugins
gives, at every position of the project and whatever comes after the node,
exactly when the chain up to the node gives the stem times the gain. -/
theorem sameOutput_iff {project reduced : ProjectDef F} {stem : Stem F}
    (htrack : project.tracks.find? (fun t => t.id == track.id) = some track)
    (hlanes : track.automation = [])
    (hgoverning : governing reader.opts track.chain = some (node, index))
    (hruns : ∀ p ∈ track.chain.take (index + 1), ¬ Unresolved player p)
    (hzero : ZeroLatency player)
    (hreduced : reducedProject D project track.id node.id = .ok reduced)
    (hstem : renderTrackStem D player project track.id node.id = .ok stem)
    (hnode : HasStem reader node stem) :
    SameOutput player reader project.sample_rate track index (calculateProjectLength project) ↔
      ∀ t : Nat, t < calculateProjectLength project →
        chainOutput player project.sample_rate
            (withChain track track.pan (track.chain.take (index + 1))) t =
          if t < declaredFrames (calculateProjectLength reduced) then
            (prefixOutput player project.sample_rate reduced t).scale track.gain
          else 0 := by
  obtain ⟨hgone, upstream, -, htake⟩ := exists_of_governing hgoverning
  have hrendered := renderTrackStem_ok hreduced hstem
  have hlatency : stem.latency_samples = 0 := by
    obtain ⟨-, rfl⟩ := renderReduced_ok hrendered
    rw [totalDeclaredLatencySamples_eq_zero hzero]
    rfl
  have hproject : ∀ t ∈ project.tracks.find? (fun t => t.id == track.id), t.automation = [] := by
    intro t ht
    rw [htrack] at ht
    obtain rfl := Option.some.inj ht
    exact hlanes
  have hsound := sound_of_rendered
    (constant_of_reduced hproject hreduced player project.sample_rate) hrendered
  have hscaled : ∀ t, (stem.sound t).scale track.gain =
      if t < declaredFrames (calculateProjectLength reduced) then
        (prefixOutput player project.sample_rate reduced t).scale track.gain
      else 0 := by
    intro t
    rw [hsound, apply_ite (Frame.scale track.gain), Frame.scale_zero]
  obtain ⟨assigned, hsplit⟩ := buildChain_append (upstream ++ [node]) false
  rw [htake] at hruns
  simp only [← hscaled, SameOutput, htake]
  constructor
  · intro hsame t ht
    have hin : (([t + 1] : List Nat).sum : Int) ≤ calculateProjectLength project := by
      rw [List.sum_singleton]
      omega
    have hnone := List.forall_mem_nil (Shared player reader)
    have hlt : t < ([t + 1] : List Nat).sum := by
      rw [List.sum_singleton]
      exact Nat.lt_succ_self t
    have hblock := congrArg (fun frames => frames.getD t 0) (hsame [] 0 1 [t + 1] hnone hin)
    rw [run_soloGraph hlanes, run_soloGraph hlanes, chainOutput_player hruns hnone hsplit,
      chainOutput_reader hgone hnode hnone hlatency assigned] at hblock
    simp only [getD_window hlt, panFrame_zero, Frame.scale_one, Nat.zero_add] at hblock
    exact hblock
  · intro hprefix rest pan master_gain lengths hshared hin
    rw [run_soloGraph hlanes, run_soloGraph hlanes, chainOutput_player hruns hshared hsplit,
      chainOutput_reader hgone hnode hshared hlatency assigned]
    apply window_congr
    intro i hi
    apply congrArg (fun x => (panFrame pan x).scale master_gain)
    exact cascade_congr fun k hk => hprefix k (by omega)

end Outputs

section Example

/-- A plugin without latency: it squares each sample, or doubles it. -/
def shaper (squares : Bool) : Sound ℚ where
  map := fun x _ =>
    if squares then ⟨x.left * x.left, x.right * x.right⟩
    else ⟨x.left + x.left, x.right + x.right⟩

/-- A machine with the plugin and a file of one sample. -/
def mixer (squares : Bool) : Machine ℚ where
  opts := { platform := .posix, assets_dir := "studio", vst3_modules := [("u", "u.vst3")] }
  assets := fun hash => if hash = "a" then some ⟨[1], 1, 48000, 1⟩ else none
  builtin := fun _ => none
  plugin := fun _ => some fun _ => shaper squares

/-- A machine without the plugin that has loaded a stem of one frame. -/
def bystander (level : ℚ) : Machine ℚ where
  opts := { platform := .posix, assets_dir := "studio" }
  assets := fun hash => if hash = "s" then some ⟨[level, level], 2, 48000, 1⟩ else none
  builtin := fun _ => none
  plugin := fun _ => none

def fadedNode : ProcessorDef ℚ where
  id := "p"
  type := "vst3"
  uid := "u"
  stem_hash := "s"

def fadedTrack (gain : ℚ) : TrackDef ℚ where
  id := "t"
  gain := gain
  pan := 0
  clips := [{ id := "c", asset_hash := "a", length_samples := 1 }]
  chain := [fadedNode]

def fadedProject (gain : ℚ) : ProjectDef ℚ where
  master_gain := 1
  tracks := [fadedTrack gain]

def shapedStem (level : ℚ) : Stem ℚ where
  frames := [⟨level, level⟩]
  data_size := 8
  latency_samples := 0

theorem reducedProject_faded :
    reducedProject ℚ (fadedProject (1 / 2)) "t" "p" = .ok (fadedProject 1) := rfl

theorem constant_faded (squares : Bool) :
    (buildGraph (mixer squares) 48000 (fadedProject 1)).Constant := by
  refine ⟨?_, rfl⟩
  intro t ht
  rw [List.mem_singleton.mp ht]
  rfl

theorem renderTrackStem_faded (squares : Bool) :
    renderTrackStem ℚ (mixer squares) (fadedProject (1 / 2)) "t" "p" =
      .ok (shapedStem (if squares then 1 else 2)) := by
  have hframes : (buildGraph (mixer squares) 48000 (fadedProject 1)).render 1 =
      (shapedStem (if squares then 1 else 2)).frames := by
    rw [render_eq (constant_faded squares) (buildGraph_fresh _ _ _ _)]
    cases squares <;> decide +kernel
  have hrate : (fadedProject (1 / 2)).sample_rate = 48000 := rfl
  have hcomplete : (buildGraph (mixer squares) 48000 (fadedProject 1)).builtNodes =
      docNodes (mixer squares) (fadedProject 1) := rfl
  have hlength : calculateProjectLength (fadedProject 1) = 1 := rfl
  have hsafe : isPathComponentSafe "p" = true := by decide
  have hsize : dataSize 1 = 8 := rfl
  have hlatency : ((totalDeclaredLatencySamples (mixer squares) (fadedProject 1)).toNat : Int) =
      0 := rfl
  rw [renderTrackStem, reducedProject_faded]
  simp only [hrate, hsafe, renderReduced, hcomplete, hlength, hframes, hsize, hlatency]
  rfl

theorem hasStem_faded (level : ℚ) :
    HasStem (bystander level) fadedNode (shapedStem level) where
  hash := by decide
  safe := by decide
  latency := rfl
  loaded := by
    have hsize : (8 : UInt32).toNat / 8 = 1 := rfl
    exact ⟨⟨[level, level], 2, 48000, 1⟩, rfl, rfl, rfl, hsize.symm, rfl⟩

/-- The fader passes a plugin that doubles. -/
theorem sameOutput_doubling :
    SameOutput (mixer false) (bystander 2) 48000 (fadedTrack (1 / 2)) 0
      (calculateProjectLength (fadedProject (1 / 2))) := by
  have hruns : ∀ p ∈ (fadedTrack (1 / 2)).chain.take (0 + 1), ¬ Unresolved (mixer false) p := by
    intro p hp
    rw [List.mem_singleton.mp hp]
    decide
  have hzero : ZeroLatency (mixer false) := by
    refine ⟨nofun, ?_⟩
    rintro p _ ⟨⟩ notes
    rfl
  refine (sameOutput_iff rfl rfl rfl hruns hzero reducedProject_faded (renderTrackStem_faded false)
    (hasStem_faded 2)).mpr ?_
  intro t ht
  have hlength : calculateProjectLength (fadedProject (1 / 2)) = 1 := rfl
  obtain rfl : t = 0 := by omega
  have hgiven : prefixOutput (mixer false) (fadedProject (1 / 2)).sample_rate (fadedProject 1) 0 =
      ⟨2, 2⟩ := by
    refine (prefixOutput_eq (constant_faded false) 0).trans ?_
    decide +kernel
  rw [hgiven]
  decide +kernel

/-- The plugin squares what the fader has halved, and the stem is halved after
it. -/
theorem not_sameOutput_squaring :
    renderTrackStem ℚ (mixer true) (fadedProject (1 / 2)) "t" "p" = .ok (shapedStem 1) ∧
      HasStem (bystander 1) fadedNode (shapedStem 1) ∧
      ((soloGraph (mixer true) 48000 1 (fadedTrack (1 / 2))).run (blocksFrom 0 [1])).2 =
        [⟨1 / 4, 1 / 4⟩] ∧
      ((soloGraph (bystander 1) 48000 1 (fadedTrack (1 / 2))).run (blocksFrom 0 [1])).2 =
        [⟨1 / 2, 1 / 2⟩] ∧
      ¬ SameOutput (mixer true) (bystander 1) 48000 (fadedTrack (1 / 2)) 0
        (calculateProjectLength (fadedProject (1 / 2))) := by
  have hplugin : ((soloGraph (mixer true) 48000 1 (fadedTrack (1 / 2))).run
      (blocksFrom 0 [1])).2 = [⟨1 / 4, 1 / 4⟩] := by
    decide +kernel
  have hplayed : ((soloGraph (bystander 1) 48000 1 (fadedTrack (1 / 2))).run
      (blocksFrom 0 [1])).2 = [⟨1 / 2, 1 / 2⟩] := by
    decide +kernel
  refine ⟨renderTrackStem_faded true, hasStem_faded 1, hplugin, hplayed, ?_⟩
  intro hsame
  have hblock := hsame [] 0 1 [1] (List.forall_mem_nil _) (by decide)
  have hframes := hplugin.symm.trans (hblock.trans hplayed)
  exact absurd hframes (by decide +kernel)

end Example

end DawProject.Playback
