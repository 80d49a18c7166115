import DawProject.Playback.Graph
import DawProject.Playback.Lines

/-!
The built-in devices of a chain in the live graph, `buildGraph` of
`engine/src/main.cpp`, and in the offline one. The live graph leaves a device out
that is bypassed, and the offline one puts a node in its place that changes
nothing; the sound card and the renderer cut their blocks as they like. Both give
the same frames: those of nodes that forget nothing.
-/

namespace DawProject.Playback

open Engine (ProcessorDef isBuiltin)
open Signals

/-- The numbers of a width: their arithmetic, their literals and what is computed of
them. -/
class Number (N : Type) extends Zero N, One N, Add N, Sub N, Mul N, Div N, Neg N, LE N, LT N,
    OfScientific N, Elementary N

section Nodes

variable {F D : Type} [Floats F D] [Number F] [DecidableLE F] [DecidableLT F] [Number D]
  [DecidableLT D] [DecidableEq D]

/-- A device without a line. -/
inductive PlainNode (F D : Type) where
  | stateful (node : BuiltinNode F D)
  | shaper (node : Shaper F D)
  | echo (node : Echo F)

/-- A node that was just prepared, with a memory without an end. -/
def BuiltinNode.plain : BuiltinNode F D → PlainNode F D
  | .drive node => .shaper { node.toDriveSettings with }
  | .delay node => .echo node.unbounded
  | node => .stateful node

def PlainNode.processFrame (node : PlainNode F D) (x : Frame F) : PlainNode F D × Frame F :=
  match node with
  | .stateful node => (node.processFrame x).map .stateful id
  | .shaper node => (node.processFrame x).map .shaper id
  | .echo node => (node.processFrame x).map .echo id

/-- The node after a past, the newest first. -/
def PlainNode.after (node : PlainNode F D) : List (Frame F) → PlainNode F D
  | [] => node
  | x :: past => ((node.after past).processFrame x).1

/-- What the node makes of a frame after a past. -/
def PlainNode.map (node : PlainNode F D) : CausalMap (Frame F) :=
  fun x past => ((node.after past).processFrame x).2

/-- The device of a document at a rate, for the offline graph. -/
def builtinSound (sample_rate : Nat) (proc_def : ProcessorDef F) : Option (Sound F) :=
  (makeBuiltinNode proc_def).map fun node =>
    { map := (node.prepare sample_rate).plain.map, latency := node.getLatencySamples }

/-- A node of the engine, or the node without a bridge that stands for one. -/
abbrev ChainNode (F D : Type) := Option (BuiltinNode F D)

def ChainNode.process (block : List (Frame F)) : ChainNode F D → ChainNode F D × List (Frame F)
  | none => (none, block)
  | some node => (node.process block).map some id

def makeNode (sample_rate : Nat) (proc_def : ProcessorDef F) : List (ChainNode F D) :=
  ((makeBuiltinNode proc_def).map fun node => some (node.prepare sample_rate)).toList

/-- The nodes that the live graph makes of the devices of a chain. -/
def liveChain (sample_rate : Nat) (chain : List (ProcessorDef F)) : List (ChainNode F D) :=
  chain.flatMap fun proc_def => if proc_def.bypass then [] else makeNode sample_rate proc_def

/-- Those of the offline graph. -/
def offlineChain (sample_rate : Nat) (chain : List (ProcessorDef F)) : List (ChainNode F D) :=
  chain.flatMap fun proc_def => if proc_def.bypass then [none] else makeNode sample_rate proc_def

/-- Each node processes the block that the one before it has left. -/
def processChain : List (ChainNode F D) → List (Frame F) → List (ChainNode F D) × List (Frame F)
  | [], block => ([], block)
  | node :: nodes, block =>
      let (node, out) := ChainNode.process block node
      let (nodes, out) := processChain nodes out
      (node :: nodes, out)

/-- The blocks one after the other. -/
def runChain (nodes : List (ChainNode F D)) : List (List (Frame F)) → List (List (Frame F))
  | [] => []
  | block :: blocks =>
      let (nodes, out) := processChain nodes block
      out :: runChain nodes blocks

/-- `getLatencySamples` of a node; the one without a bridge has none. -/
def ChainNode.latency : ChainNode F D → UInt32
  | none => 0
  | some node => node.getLatencySamples

/-- The latency that the nodes of a chain declare together. -/
def chainLatency (nodes : List (ChainNode F D)) : UInt32 := (nodes.map ChainNode.latency).sum

/-- A signal in blocks of these lengths, from the moment `n` on. -/
def blocksOf (x : Nat → Frame F) (n : Nat) : List Nat → List (List (Frame F))
  | [] => []
  | count :: lengths => window x n count :: blocksOf x (n + count) lengths

end Nodes

section Stages

variable {F : Type}

theorem map_run (stage : Stage (Frame F)) (block : List (Frame F)) :
    (stage.run block).1.map = stage.map := by
  induction block generalizing stage with
  | nil => rfl
  | cons x block ih => exact ih _

theorem run_identity {stage : Stage (Frame F)} (hmap : stage.map = Sound.identity.map)
    (block : List (Frame F)) : (stage.run block).2 = block := by
  induction block generalizing stage with
  | nil => rfl
  | cons x block ih =>
      rw [Stage.run, hmap]
      exact congrArg (x :: ·) (ih rfl)

end Stages

section Memory

variable {F D : Type} [Floats F D] [Number F] [Number D] [DecidableLT D]

/-- A node has the end of what the plain one has. -/
inductive BuiltinNode.Recalls : BuiltinNode F D → PlainNode F D → Prop where
  | stateful (node : BuiltinNode F D) : Recalls node (.stateful node)
  | drive {node : DriveNode F D} {shaper : Shaper F D} (h : node.Recalls shaper) :
      Recalls (.drive node) (.shaper shaper)
  | delay {node : DelayNode F} {echo : Echo F} (h : node.Recalls echo) :
      Recalls (.delay node) (.echo echo)

variable {node : BuiltinNode F D} {plain : PlainNode F D}

theorem BuiltinNode.Recalls.step (h : node.Recalls plain) (x : Frame F) :
    (node.processFrame x).1.Recalls (plain.processFrame x).1 ∧
      (node.processFrame x).2 = (plain.processFrame x).2 := by
  cases h with
  | stateful => exact ⟨.stateful _, rfl⟩
  | drive h => exact ⟨.drive (h.step x).1, (h.step x).2⟩
  | delay h => exact ⟨.delay (h.step x).1, (h.step x).2⟩

omit [DecidableLT D] in
/-- After `prepare` there is nothing to remember. -/
theorem recalls_plain [DecidableEq D] (node : BuiltinNode F D) (sample_rate : Nat) :
    (node.prepare sample_rate).Recalls (node.prepare sample_rate).plain := by
  cases node with
  | gain node => exact .stateful _
  | utility node => exact .stateful _
  | eq3 node => exact .stateful _
  | compressor node => exact .stateful _
  | drive node =>
      exact .drive {
        settings := rfl
        left := ChannelState.recalls_reset
        right := ChannelState.recalls_reset }
  | delay node => exact .delay (recalls_prepare node sample_rate)

/-- A block of a node is one of the stage with its map. -/
theorem BuiltinNode.Recalls.process {stage : Stage (Frame F)} (hmap : stage.map = plain.map)
    (h : node.Recalls (plain.after stage.past)) (block : List (Frame F)) :
    (node.process block).2 = (stage.run block).2 ∧
      (node.process block).1.Recalls (plain.after (stage.run block).1.past) := by
  induction block generalizing node stage with
  | nil => exact ⟨rfl, h⟩
  | cons x block ih =>
      obtain ⟨hnext, hout⟩ := h.step x
      obtain ⟨hrest, hlast⟩ := @ih _ { stage with past := x :: stage.past } hmap hnext
      refine ⟨congrArg₂ List.cons ?_ hrest, hlast⟩
      rw [hmap]
      exact hout

/-- A node of the chain has the end of what the stage was given. -/
inductive ChainNode.Recalls : ChainNode F D → Stage (Frame F) → Prop where
  | bypassed {stage : Stage (Frame F)} (hmap : stage.map = Sound.identity.map) :
      Recalls none stage
  | device {node : BuiltinNode F D} {plain : PlainNode F D} {stage : Stage (Frame F)}
      (hmap : stage.map = plain.map) (h : node.Recalls (plain.after stage.past)) :
      Recalls (some node) stage

theorem ChainNode.Recalls.process {node : ChainNode F D} {stage : Stage (Frame F)}
    (h : node.Recalls stage) (block : List (Frame F)) :
    (ChainNode.process block node).2 = (stage.run block).2 ∧
      (ChainNode.process block node).1.Recalls (stage.run block).1 := by
  cases h with
  | bypassed hmap => exact ⟨(run_identity hmap block).symm, .bypassed ((map_run ..).trans hmap)⟩
  | device hmap h =>
      obtain ⟨hout, hlast⟩ := BuiltinNode.Recalls.process hmap h block
      exact ⟨hout, .device ((map_run ..).trans hmap) hlast⟩

/-- The nodes of a chain and the stages of the other; the stages may have nodes in
between that change nothing. -/
inductive Follows : List (ChainNode F D) → List (Stage (Frame F)) → Prop where
  | nil : Follows [] []
  | node {node : ChainNode F D} {stage : Stage (Frame F)} {nodes : List (ChainNode F D)}
      {stages : List (Stage (Frame F))} (h : node.Recalls stage) (hrest : Follows nodes stages) :
      Follows (node :: nodes) (stage :: stages)
  | omitted {stage : Stage (Frame F)} {nodes : List (ChainNode F D)}
      {stages : List (Stage (Frame F))} (hmap : stage.map = Sound.identity.map)
      (hrest : Follows nodes stages) : Follows nodes (stage :: stages)

theorem Follows.process {nodes : List (ChainNode F D)} {stages : List (Stage (Frame F))}
    (h : Follows nodes stages) (block : List (Frame F)) :
    (processChain nodes block).2 = (runStages stages block).2 ∧
      Follows (processChain nodes block).1 (runStages stages block).1 := by
  induction h generalizing block with
  | nil => exact ⟨rfl, .nil⟩
  | @node node stage nodes stages h hrest ih =>
      obtain ⟨hout, hnext⟩ := h.process block
      obtain ⟨hlast, hnodes⟩ := ih (ChainNode.process block node).2
      simp only [processChain, runStages]
      rw [← hout]
      exact ⟨hlast, .node hnext hnodes⟩
  | @omitted stage nodes stages hmap hrest ih =>
      obtain ⟨hlast, hnodes⟩ := ih block
      simp only [runStages]
      rw [run_identity hmap]
      exact ⟨hlast, .omitted ((map_run ..).trans hmap) hnodes⟩

/-- Blocks of a signal, through nodes that follow stages. -/
theorem Follows.run {fs : List (CausalMap (Frame F))} {x : Nat → Frame F} {n : Nat}
    {nodes : List (ChainNode F D)} (h : Follows nodes (stagesAt fs x n)) (lengths : List Nat) :
    (runChain nodes (blocksOf x n lengths)).flatten = window (cascade fs x) n lengths.sum := by
  induction lengths generalizing nodes n with
  | nil => rfl
  | cons count lengths ih =>
      obtain ⟨hout, hnext⟩ := h.process (window x n count)
      rw [runStages_window] at hout hnext
      rw [blocksOf, runChain, List.flatten_cons, ih hnext, hout, List.sum_cons, window_add]

end Memory

section Chain

variable {F D : Type} [Floats F D] [Number F] [DecidableLE F] [DecidableLT F] [Number D]
  [DecidableLT D] [DecidableEq D]

/-- The offline graph with the devices of the engine. -/
def Machine.withDevices (m : Machine F) (sample_rate : Nat) : Machine F :=
  { m with builtin := builtinSound sample_rate }

/-- The maps of the devices of a chain, in the offline graph. -/
def deviceMaps (m : Machine F) (sample_rate : Nat) (chain : List (ProcessorDef F)) :
    List (CausalMap (Frame F)) :=
  (buildChain (m.withDevices sample_rate) [] false chain).map Sound.map

variable (m : Machine F) (sample_rate : Nat)

/-- The stages of maps that were not yet given anything. -/
def fresh (fs : List (CausalMap (Frame F))) : List (Stage (Frame F)) :=
  fs.map fun f => { map := f }

theorem deviceMaps_cons {p : ProcessorDef F} (hp : isBuiltin p = true)
    (chain : List (ProcessorDef F)) : deviceMaps m sample_rate (p :: chain) =
      (if p.bypass then [Sound.identity.map]
        else ((builtinSound sample_rate p).map Sound.map).toList) ++
          deviceMaps m sample_rate chain := by
  rw [deviceMaps, buildChain, createProcessor, if_pos hp]
  cases p.bypass with
  | true => rfl
  | false =>
      simp only [Bool.false_eq_true, if_false, List.map_append]
      cases hsound : (m.withDevices sample_rate).builtin p with
      | none => rw [show builtinSound sample_rate p = none from hsound]; rfl
      | some sound => rw [show builtinSound sample_rate p = some sound from hsound]; rfl

/-- A device that is made follows its map. -/
theorem Follows.device {nodes : List (ChainNode F D)} {fs : List (CausalMap (Frame F))}
    (h : Follows nodes (fresh fs)) (p : ProcessorDef F) :
    Follows (makeNode sample_rate p ++ nodes)
      (fresh (((builtinSound sample_rate p).map Sound.map).toList ++ fs)) := by
  rw [makeNode, builtinSound]
  cases makeBuiltinNode p with
  | none => exact h
  | some node => exact .node (.device rfl (recalls_plain node sample_rate)) h

variable {chain : List (ProcessorDef F)} (hchain : ∀ p ∈ chain, isBuiltin p = true)
include hchain

theorem follows_liveChain :
    Follows (liveChain sample_rate chain) (fresh (deviceMaps m sample_rate chain)) := by
  induction chain with
  | nil => exact .nil
  | cons p chain ih =>
      have hrest := ih fun q hq => hchain q (List.mem_cons_of_mem p hq)
      rw [liveChain, List.flatMap_cons, deviceMaps_cons m sample_rate (hchain p List.mem_cons_self)]
      cases p.bypass with
      | true => exact .omitted rfl hrest
      | false => exact hrest.device sample_rate p

theorem follows_offlineChain :
    Follows (offlineChain sample_rate chain) (fresh (deviceMaps m sample_rate chain)) := by
  induction chain with
  | nil => exact .nil
  | cons p chain ih =>
      have hrest := ih fun q hq => hchain q (List.mem_cons_of_mem p hq)
      rw [offlineChain, List.flatMap_cons,
        deviceMaps_cons m sample_rate (hchain p List.mem_cons_self)]
      cases p.bypass with
      | true => exact .node (.bypassed rfl) hrest
      | false => exact hrest.device sample_rate p

omit hchain

omit [DecidableLT D] in
/-- Neither graph counts a device that is bypassed. -/
theorem chainLatency_live_eq_offline (chain : List (ProcessorDef F)) :
    chainLatency (liveChain sample_rate chain) = chainLatency (offlineChain sample_rate chain) := by
  induction chain with
  | nil => rfl
  | cons p chain ih =>
      rw [liveChain, offlineChain, List.flatMap_cons, List.flatMap_cons]
      simp only [chainLatency, List.map_append, List.sum_append] at ih ⊢
      rw [liveChain, offlineChain] at ih
      rw [ih]
      cases p.bypass with
      | true => simp [ChainNode.latency]
      | false => rfl

/-- The built-in devices of a chain, live and offline, each in its own blocks: the
frames are those of the maps of the offline graph, of nodes that forget nothing, and
the latency is the same. -/
theorem heard_of_run (chain : List (ProcessorDef F)) (x : Nat → Frame F)
    (live offline : List Nat) :
    let devices := chain.filter isBuiltin
    let heard := cascade (deviceMaps m sample_rate devices) x
    (runChain (liveChain sample_rate devices) (blocksOf x 0 live)).flatten =
        window heard 0 live.sum ∧
      (runChain (offlineChain sample_rate devices) (blocksOf x 0 offline)).flatten =
        window heard 0 offline.sum ∧
      chainLatency (liveChain sample_rate devices) =
        chainLatency (offlineChain sample_rate devices) := by
  have hall : ∀ p ∈ chain.filter isBuiltin, isBuiltin p = true := fun p hp =>
    (List.mem_filter.mp hp).2
  have hlive := follows_liveChain m sample_rate hall
  have hoffline := follows_offlineChain m sample_rate hall
  rw [fresh, ← stagesAt_zero (x := x)] at hlive hoffline
  exact ⟨hlive.run live, hoffline.run offline, chainLatency_live_eq_offline sample_rate _⟩

end Chain

end DawProject.Playback
