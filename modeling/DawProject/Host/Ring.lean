import DawProject.Lib.Run
import Mathlib.Algebra.Group.Defs
import Mathlib.Logic.Function.Basic

/-!
The shared ring between the engine and the child process of a plugin:
`engine/src/host/shared_audio_ring.h`, the audio thread in
`ProxyNode::process` of `engine/src/host/proxy_node.cpp`, the serve loop of
`engine/src/host/plugin_host_main.cpp` and the restart of
`engine/src/host/plugin_bridge.cpp`. Every load and every store of the audio
and of a stamp is a step of its own; a push to the MIDI FIFO and a pop from it
are one step each. Blocks are numbered from 1, and 0 stands for none. The
plugin reads its input and writes its output in any order.
-/

namespace DawProject.Host

def kRingSlots : Nat := 8

def kRingBlockSize : Nat := 256

def kRingChannels : Nat := 2

def kMidiQueueSlots : Nat := 256

/-- The samples of a block, with the channels interleaved. -/
abbrev kBlockSamples : Nat := kRingChannels * kRingBlockSize

inductive MidiKind where
  | noteOff
  | noteOn
  | controlChange
  | pitchBend
deriving DecidableEq, Repr

structure MidiEvent where
  kind : MidiKind := .noteOff
  channel : UInt8 := 0
  data1 : UInt8 := 0
  data2 : UInt8 := 0
  /-- In the block. -/
  sample_offset : Nat := 0
deriving DecidableEq, Repr

/-- What the slots of the FIFO keep of an event. -/
def MidiEvent.masked (ev : MidiEvent) : MidiEvent :=
  { ev with
    data1 := ev.data1 &&& 0x7F
    data2 := ev.data2 &&& 0x7F
    channel := ev.channel &&& 0x0F }

/-- An event with the block it was pushed for, which no step reads. -/
structure Scheduled where
  block : Nat
  event : MidiEvent
deriving DecidableEq, Repr

/-- The samples of one block. -/
abbrev Samples (α : Type) := Nat → α

structure SharedAudioRing (α : Type) where
  input_seq : Nat := 0
  output_seq : Nat := 0
  in_slot_seq : Nat → Nat := fun _ => 0
  out_slot_seq : Nat → Nat := fun _ => 0
  /-- The FIFO from `midi_read_idx` to `midi_write_idx`. -/
  midi : List Scheduled := []
  in_ : Nat → Samples α
  out_ : Nat → Samples α

def slotOf (seq : Nat) : Nat := seq % kRingSlots

/-- `pushMidiEvent`: a full queue loses its oldest event. -/
def pushMidiEvent {α : Type} (ring : SharedAudioRing α) (ev : Scheduled) : SharedAudioRing α :=
  if ring.midi.length ≥ kMidiQueueSlots then { ring with midi := ring.midi.tail ++ [ev] }
  else { ring with midi := ring.midi ++ [ev] }

/-- Store one sample of a slot. -/
def storeAt {α : Type} (slots : Nat → Samples α) (slot i : Nat) (x : α) : Nat → Samples α :=
  Function.update slots slot (Function.update (slots slot) i x)

/-- A node of the chain: its depth is clamped when it is made. -/
structure ProxyNode where
  depth : Nat
  bypass : Bool
  one_le_depth : 1 ≤ depth
  depth_le : depth ≤ kRingSlots - 2

def ProxyNode.ofDepth (depth : Nat) (bypass : Bool) : ProxyNode where
  depth := max 1 (min depth (kRingSlots - 2))
  bypass := bypass
  one_le_depth := by omega
  depth_le := by
    have hslots : 1 ≤ kRingSlots - 2 := by decide
    omega

/-- What a call of `ProxyNode::process` returns. -/
inductive Source where
  /-- Silence, while the pipeline fills. -/
  | fill
  /-- The dry block of a bypassed node. -/
  | bypass
  | wet
  /-- The dry block of a late child, counted. -/
  | dry
deriving DecidableEq, Repr

structure Returned (α : Type) where
  node : ProxyNode
  /-- The block of the call. -/
  seq : Nat
  source : Source
  output : Samples α

/-- The block a call returns. -/
def Returned.want {α : Type} (r : Returned α) : Nat := r.seq - r.node.depth

/-- One call of the plugin's `process()` for a block: what it has read and, for
each sample, the last value it has written. -/
structure Call (α : Type) where
  block : Nat
  read : List (Nat × α) := []
  written : Nat → Option α := fun _ => none

/-- Where the audio thread is in `ProxyNode::process`. -/
inductive Engine (α : Type) where
  | idle
  | storing (node : ProxyNode) (input : Samples α) (notes : List MidiEvent) (i : Nat)
  | emitting (node : ProxyNode) (notes : List MidiEvent)
  | publishing (node : ProxyNode)
  /-- `input_seq` is published, the return half is next. -/
  | published (node : ProxyNode)
  | copying (node : ProxyNode) (source : Source) (i : Nat) (output : Samples α)

/-- Where the child is in its serve loop. -/
inductive Child (α : Type) where
  | dead
  | polling (last_in : Nat)
  | backlog (s newest : Nat)
  | draining (s newest : Nat) (events : List Scheduled)
  | processing (s newest : Nat) (call : Call α)
  /-- `process()` has returned, its input is not checked again yet. -/
  | processed (s newest : Nat)
  | confirmed (s newest : Nat)

/-- One event that reached the plugin. -/
structure Delivery where
  /-- The block of the `process()` call. -/
  call : Nat
  scheduled : Scheduled
deriving DecidableEq, Repr

/-- The two processes and the ring. `blocks` holds the deposited audio, `calls`
the finished calls of the plugin, `pushed` and `delivered` the MIDI events and
`returned` the results of the node; no step reads them. -/
structure Bridge (α : Type) where
  ring : SharedAudioRing α
  engine : Engine α := .idle
  child : Child α := .polling 0
  missed : Nat := 0
  blocks : Nat → Samples α
  calls : List (Call α) := []
  pushed : List Scheduled := []
  delivered : List Delivery := []
  returned : List (Returned α) := []

/-- A new ring, whose audio is silent. -/
def Bridge.start (α : Type) [Zero α] : Bridge α where
  ring := { in_ := fun _ _ => 0, out_ := fun _ _ => 0 }
  blocks := fun _ _ => 0

/-- Push an event for the next block to be deposited. -/
def Bridge.push {α : Type} (s : Bridge α) (ev : MidiEvent) : Bridge α :=
  let scheduled : Scheduled := ⟨s.ring.input_seq + 1, ev.masked⟩
  { s with
    ring := pushMidiEvent s.ring scheduled
    pushed := s.pushed ++ [scheduled] }

/-- The first block of the backlog after block `last_in`. -/
def resumePoint (last_in newest : Nat) : Nat :=
  if newest ≥ last_in + 1 + (kRingSlots - 2) then newest - (kRingSlots - 2) + 1
  else last_in + 1

variable {α : Type} [Zero α]

/-- One step of the audio thread. -/
inductive EngineStep : Bridge α → Bridge α → Prop where
  /-- `emitMidi`, `emitMidiEvent` and `allNotesOff`, ahead of the call. -/
  | emitMidi {s : Bridge α} (ev : MidiEvent) (hengine : s.engine = .idle) :
      EngineStep s (s.push ev)
  | process {s : Bridge α} (node : ProxyNode) (input : Option (Samples α))
      (notes : List MidiEvent) (hengine : s.engine = .idle) :
      EngineStep s
        { s with
          engine := .storing node (input.getD fun _ => 0) notes 0
          blocks := Function.update s.blocks (s.ring.input_seq + 1) (input.getD fun _ => 0) }
  | store {s : Bridge α} {node : ProxyNode} {input : Samples α} {notes : List MidiEvent} {i : Nat}
      (hengine : s.engine = .storing node input notes i) (hi : i < kBlockSamples) :
      EngineStep s
        { s with
          engine := .storing node input notes (i + 1)
          ring := { s.ring with
            in_ := storeAt s.ring.in_ (slotOf (s.ring.input_seq + 1)) i (input i) } }
  | stored {s : Bridge α} {node : ProxyNode} {input : Samples α} {notes : List MidiEvent} {i : Nat}
      (hengine : s.engine = .storing node input notes i) (hi : i = kBlockSamples) :
      EngineStep s { s with engine := .emitting node notes }
  | emit {s : Bridge α} {node : ProxyNode} {ev : MidiEvent} {notes : List MidiEvent}
      (hengine : s.engine = .emitting node (ev :: notes)) :
      EngineStep s { s.push ev with engine := .emitting node notes }
  | stamp {s : Bridge α} {node : ProxyNode} (hengine : s.engine = .emitting node []) :
      EngineStep s
        { s with
          engine := .publishing node
          ring := { s.ring with
            in_slot_seq := Function.update s.ring.in_slot_seq (slotOf (s.ring.input_seq + 1))
              (s.ring.input_seq + 1) } }
  | publish {s : Bridge α} {node : ProxyNode} (hengine : s.engine = .publishing node) :
      EngineStep s
        { s with
          engine := .published node
          ring := { s.ring with input_seq := s.ring.input_seq + 1 } }
  | fill {s : Bridge α} {node : ProxyNode} (hengine : s.engine = .published node)
      (hseq : s.ring.input_seq ≤ node.depth) :
      EngineStep s
        { s with
          engine := .idle
          returned := s.returned ++ [⟨node, s.ring.input_seq, .fill, fun _ => 0⟩] }
  | collect {s : Bridge α} {node : ProxyNode} {source : Source}
      (hengine : s.engine = .published node) (hseq : node.depth < s.ring.input_seq)
      (hsource : source =
        if node.bypass then .bypass
        else if s.ring.out_slot_seq (slotOf (s.ring.input_seq - node.depth)) =
            s.ring.input_seq - node.depth then .wet
        else .dry) :
      EngineStep s { s with engine := .copying node source 0 fun _ => 0 }
  | copy {s : Bridge α} {node : ProxyNode} {source : Source} {i : Nat} {output : Samples α}
      (hengine : s.engine = .copying node source i output) (hi : i < kBlockSamples) :
      EngineStep s
        { s with
          engine := .copying node source (i + 1) <|
            Function.update output i <|
              (if source = .wet then s.ring.out_ else s.ring.in_)
                (slotOf (s.ring.input_seq - node.depth)) i }
  | copied {s : Bridge α} {node : ProxyNode} {source : Source} {i : Nat} {output : Samples α}
      (hengine : s.engine = .copying node source i output) (hi : i = kBlockSamples) :
      EngineStep s
        { s with
          engine := .idle
          missed := if source = .dry then s.missed + 1 else s.missed
          returned := s.returned ++ [⟨node, s.ring.input_seq, source, output⟩] }

/-- One step of the child, or its restart. -/
inductive ChildStep : Bridge α → Bridge α → Prop where
  | restart {s : Bridge α} (hchild : s.child = .dead) : ChildStep s { s with child := .polling 0 }
  | poll {s : Bridge α} {last_in : Nat} (hchild : s.child = .polling last_in)
      (hnewest : s.ring.input_seq ≠ last_in) :
      ChildStep s
        { s with child := .backlog (resumePoint last_in s.ring.input_seq) s.ring.input_seq }
  | caughtUp {s : Bridge α} {b newest : Nat} (hchild : s.child = .backlog b newest)
      (hb : newest < b) : ChildStep s { s with child := .polling newest }
  | skip {s : Bridge α} {b newest : Nat} (hchild : s.child = .backlog b newest) (hb : b ≤ newest)
      (hstamp : s.ring.in_slot_seq (slotOf b) ≠ b) :
      ChildStep s { s with child := .backlog (b + 1) newest }
  | enter {s : Bridge α} {b newest : Nat} (hchild : s.child = .backlog b newest) (hb : b ≤ newest)
      (hstamp : s.ring.in_slot_seq (slotOf b) = b) :
      ChildStep s { s with child := .draining b newest [] }
  | drain {s : Bridge α} {b newest : Nat} {events rest : List Scheduled} {ev : Scheduled}
      (hchild : s.child = .draining b newest events) (hmidi : s.ring.midi = ev :: rest) :
      ChildStep s
        { s with
          child := .draining b newest (events ++ [ev])
          ring := { s.ring with midi := rest } }
  | begin {s : Bridge α} {b newest : Nat} {events : List Scheduled}
      (hchild : s.child = .draining b newest events) (hmidi : s.ring.midi = []) :
      ChildStep s
        { s with
          child := .processing b newest { block := b }
          delivered := s.delivered ++ events.map fun ev => ⟨b, ev⟩ }
  | read {s : Bridge α} {b newest i : Nat} {call : Call α}
      (hchild : s.child = .processing b newest call) (hi : i < kBlockSamples) :
      ChildStep s
        { s with
          child := .processing b newest
            { call with read := call.read ++ [(i, s.ring.in_ (slotOf b) i)] } }
  | write {s : Bridge α} {b newest i : Nat} {call : Call α} (x : α)
      (hchild : s.child = .processing b newest call) (hi : i < kBlockSamples) :
      ChildStep s
        { s with
          child := .processing b newest
            { call with written := Function.update call.written i (some x) }
          ring := { s.ring with out_ := storeAt s.ring.out_ (slotOf b) i x } }
  /-- The call is over once every sample of the output is written. -/
  | finish {s : Bridge α} {b newest : Nat} {call : Call α}
      (hchild : s.child = .processing b newest call)
      (hcomplete : ∀ i < kBlockSamples, call.written i ≠ none) :
      ChildStep s { s with child := .processed b newest, calls := s.calls ++ [call] }
  | torn {s : Bridge α} {b newest : Nat} (hchild : s.child = .processed b newest)
      (hstamp : s.ring.in_slot_seq (slotOf b) ≠ b) :
      ChildStep s
        { s with
          child := .backlog (b + 1) newest
          ring := { s.ring with output_seq := b } }
  | confirm {s : Bridge α} {b newest : Nat} (hchild : s.child = .processed b newest)
      (hstamp : s.ring.in_slot_seq (slotOf b) = b) :
      ChildStep s { s with child := .confirmed b newest }
  | publishOut {s : Bridge α} {b newest : Nat} (hchild : s.child = .confirmed b newest) :
      ChildStep s
        { s with
          child := .backlog (b + 1) newest
          ring := { s.ring with
            out_slot_seq := Function.update s.ring.out_slot_seq (slotOf b) b
            output_seq := b } }

/-- The child dies, wherever it is. -/
inductive Die : Bridge α → Bridge α → Prop where
  | die {s : Bridge α} : Die s { s with child := .dead }

/-- One step of the bridge. -/
inductive Step (s t : Bridge α) : Prop where
  | engine (hstep : EngineStep s t)
  | child (hstep : ChildStep s t)
  | die (hstep : Die s t)

end DawProject.Host
