import DawProject.Host.Wet
import Mathlib.Data.List.DropRight

/-!
The bridge in an offline render: `SyncProxyNode::process` of
`engine/src/host/sync_proxy_node.cpp` over `PluginBridge::processBlockSync` of
`engine/src/host/plugin_bridge.cpp`. The rendering thread deposits a block,
waits for the stamp of its output, and gives up for good when it has waited too
long. A render restarts no child. The plugin is called for every block once, in
order and with the notes of that block, and what the node returns for a block is
what that call wrote.
-/

namespace DawProject.Host

variable {α : Type}

/-- What `SyncProxyNode::process` is called with. -/
structure Request (α : Type) where
  frames : Nat
  /-- Silence where there is no input. -/
  input : Samples α
  notes : List MidiEvent

/-- The input, with silence up to a whole block. -/
def Request.padded [Zero α] (q : Request α) : Samples α :=
  fun i => if i < kRingChannels * q.frames then q.input i else 0

/-- What the queue holds of the notes of a block. -/
def queued (block : Nat) (notes : List MidiEvent) : List Scheduled :=
  (notes.map fun ev => ⟨block, ev.masked⟩).rtake kMidiQueueSlots

/-- What the plugin is to hear of the notes. -/
def Request.events (q : Request α) : List MidiEvent :=
  (q.notes.map MidiEvent.masked).rtake kMidiQueueSlots

inductive Outcome where
  | bypass
  | wet (seq : Nat)
  | failed
deriving DecidableEq, Repr

structure SyncReturned (α : Type) where
  request : Request α
  outcome : Outcome
  output : Samples α

/-- Where the rendering thread is in `SyncProxyNode::process`. -/
inductive SyncEngine (α : Type) where
  | idle
  | emitting (q : Request α) (notes : List MidiEvent)
  | storing (q : Request α) (i : Nat)
  | stamping (q : Request α)
  | publishing (q : Request α)
  | waiting (q : Request α)
  | copying (q : Request α) (i : Nat) (output : Samples α)

/-- The audio thread of `bridge` stays idle. -/
structure SyncProxyNode (α : Type) where
  bridge : Bridge α
  engine : SyncEngine α := .idle
  bypass : Bool := false
  failed : Bool := false
  returned : List (SyncReturned α) := []

def SyncProxyNode.start (α : Type) [Zero α] (bypass : Bool) : SyncProxyNode α where
  bridge := .start α
  bypass := bypass

def SyncProxyNode.give (s : SyncProxyNode α) (q : Request α) (outcome : Outcome)
    (output : Samples α) : SyncProxyNode α :=
  { s with engine := .idle, returned := s.returned ++ [⟨q, outcome, output⟩] }

/-- The node fails, and returns silence. -/
def SyncProxyNode.fail [Zero α] (s : SyncProxyNode α) (q : Request α) : SyncProxyNode α :=
  { s with failed := true }.give q .failed fun _ => 0

inductive SyncStep [Zero α] : SyncProxyNode α → SyncProxyNode α → Prop where
  | bypassed {s : SyncProxyNode α} (q : Request α) (hengine : s.engine = .idle)
      (hbypass : s.bypass = true) : SyncStep s (s.give q .bypass q.input)
  | refuse {s : SyncProxyNode α} (q : Request α) (hengine : s.engine = .idle)
      (hbypass : s.bypass = false) (hrefused : s.failed = true ∨ kRingBlockSize < q.frames) :
      SyncStep s (s.fail q)
  | process {s : SyncProxyNode α} (q : Request α) (hengine : s.engine = .idle)
      (hbypass : s.bypass = false) (hlive : s.failed = false) (hframes : q.frames ≤ kRingBlockSize) :
      SyncStep s { s with engine := .emitting q q.notes }
  | emit {s : SyncProxyNode α} {q : Request α} {ev : MidiEvent} {notes : List MidiEvent}
      (hengine : s.engine = .emitting q (ev :: notes)) :
      SyncStep s { s with engine := .emitting q notes, bridge := s.bridge.push ev }
  /-- The exchange refuses an empty block. -/
  | empty {s : SyncProxyNode α} {q : Request α} (hengine : s.engine = .emitting q [])
      (hframes : q.frames = 0) : SyncStep s (s.fail q)
  | deposit {s : SyncProxyNode α} {q : Request α} (hengine : s.engine = .emitting q [])
      (hframes : q.frames ≠ 0) :
      SyncStep s
        { s with
          engine := .storing q 0
          bridge := { s.bridge with
            blocks := Function.update s.bridge.blocks (s.bridge.ring.input_seq + 1) q.padded } }
  | store {s : SyncProxyNode α} {q : Request α} {i : Nat} (hengine : s.engine = .storing q i)
      (hi : i < kBlockSamples) :
      SyncStep s
        { s with
          engine := .storing q (i + 1)
          bridge := { s.bridge with
            ring := { s.bridge.ring with
              in_ := storeAt s.bridge.ring.in_ (slotOf (s.bridge.ring.input_seq + 1)) i
                (q.padded i) } } }
  | stored {s : SyncProxyNode α} {q : Request α} {i : Nat} (hengine : s.engine = .storing q i)
      (hi : i = kBlockSamples) : SyncStep s { s with engine := .stamping q }
  | stamp {s : SyncProxyNode α} {q : Request α} (hengine : s.engine = .stamping q) :
      SyncStep s
        { s with
          engine := .publishing q
          bridge := { s.bridge with
            ring := { s.bridge.ring with
              in_slot_seq := Function.update s.bridge.ring.in_slot_seq
                (slotOf (s.bridge.ring.input_seq + 1)) (s.bridge.ring.input_seq + 1) } } }
  | publish {s : SyncProxyNode α} {q : Request α} (hengine : s.engine = .publishing q) :
      SyncStep s
        { s with
          engine := .waiting q
          bridge := { s.bridge with
            ring := { s.bridge.ring with input_seq := s.bridge.ring.input_seq + 1 } } }
  /-- The output of the block is stamped. -/
  | collect {s : SyncProxyNode α} {q : Request α} (hengine : s.engine = .waiting q)
      (hstamp : s.bridge.ring.out_slot_seq (slotOf s.bridge.ring.input_seq) =
        s.bridge.ring.input_seq) :
      SyncStep s { s with engine := .copying q 0 fun _ => 0 }
  | timeout {s : SyncProxyNode α} {q : Request α} (hengine : s.engine = .waiting q)
      (hstamp : s.bridge.ring.out_slot_seq (slotOf s.bridge.ring.input_seq) ≠
        s.bridge.ring.input_seq) : SyncStep s (s.fail q)
  | copy {s : SyncProxyNode α} {q : Request α} {i : Nat} {output : Samples α}
      (hengine : s.engine = .copying q i output) (hi : i < kRingChannels * q.frames) :
      SyncStep s
        { s with
          engine := .copying q (i + 1) <|
            Function.update output i (s.bridge.ring.out_ (slotOf s.bridge.ring.input_seq) i) }
  | copied {s : SyncProxyNode α} {q : Request α} {i : Nat} {output : Samples α}
      (hengine : s.engine = .copying q i output) (hi : i = kRingChannels * q.frames) :
      SyncStep s (s.give q (.wet s.bridge.ring.input_seq) output)
  | child {s : SyncProxyNode α} {bridge : Bridge α} (hstep : ChildStep s.bridge bridge)
      (halive : s.bridge.child ≠ .dead) : SyncStep s { s with bridge := bridge }
  | die {s : SyncProxyNode α} {bridge : Bridge α} (hstep : Die s.bridge bridge) :
      SyncStep s { s with bridge := bridge }

/-- The events that reached the plugin in its call for a block. -/
def Bridge.heard (b : Bridge α) (seq : Nat) : List MidiEvent :=
  (b.delivered.filter fun d => d.call = seq).map fun d => d.scheduled.event

/-- A call of the plugin for block `seq` read the block that was asked for, heard its
notes and wrote what was returned. -/
def Bridge.Answered [Zero α] (b : Bridge α) (seq : Nat) (r : SyncReturned α) : Prop :=
  ∃ call ∈ b.calls, call.block = seq ∧
    (∀ i < kRingChannels * r.request.frames, call.written i = some (r.output i)) ∧
    (∀ p ∈ call.read, p.2 = r.request.padded p.1) ∧ b.heard seq = r.request.events

def SyncProxyNode.Honest [Zero α] (s : SyncProxyNode α) (r : SyncReturned α) : Prop :=
  match r.outcome with
  | .bypass => s.bypass = true ∧ r.output = r.request.input
  | .wet seq => s.bridge.Answered seq r
  | .failed => s.failed = true ∧ r.output = fun _ => 0

/-- The plugin is called for every block once and in order, and the node returns the
blocks in that order until it fails for good. -/
structure SyncProxyNode.Exact [Zero α] (s : SyncProxyNode α) : Prop where
  calls : s.bridge.calls.map Call.block = List.range' 1 s.bridge.calls.length
  outcomes : s.bypass = false → ∃ wet failed : Nat,
    s.returned.map SyncReturned.outcome =
      (List.range' 1 wet).map Outcome.wet ++ List.replicate failed Outcome.failed ∧
    (s.failed = false → failed = 0)
  returned : ∀ r ∈ s.returned, s.Honest r

section Queue

theorem queued_nil (block : Nat) : queued block [] = [] := by
  rw [queued, List.map_nil, List.rtake_nil]

theorem map_queued (q : Request α) (block : Nat) :
    (queued block q.notes).map Scheduled.event = q.events := by
  rw [queued, Request.events, List.rtake, List.rtake, List.map_drop, List.length_map,
    List.length_map, List.map_map]
  rfl

/-- Pushing on a queue that keeps the last `n` elements. -/
theorem rtake_concat {β : Type} (l : List β) (x : β) {n : Nat} (hn : 0 < n) :
    (l ++ [x]).rtake n =
      if (l.rtake n).length ≥ n then (l.rtake n).tail ++ [x] else l.rtake n ++ [x] := by
  unfold List.rtake
  rw [List.length_append, List.length_singleton, List.drop_append_of_le_length (by omega),
    List.tail_drop, List.length_drop]
  split
  · rw [show l.length + 1 - n = l.length - n + 1 by omega]
  · rw [show l.length + 1 - n = l.length - n by omega]

/-- The queue keeps the last events that were pushed for the block. -/
theorem midi_push {b : Bridge α} {sent : List MidiEvent} (ev : MidiEvent)
    (hmidi : b.ring.midi = queued (b.ring.input_seq + 1) sent) :
    (b.push ev).ring.midi = queued (b.ring.input_seq + 1) (sent ++ [ev]) := by
  rw [queued, List.map_append, List.map_singleton, rtake_concat _ _ (by decide)]
  simp only [Bridge.push, pushMidiEvent, hmidi, queued]
  split <;> rfl

end Queue

section Invariant

/-- The blocks whose output is stamped, when `c` calls are over. -/
def Child.published (c : Nat) : Child α → Nat
  | .processed _ _ | .confirmed _ _ => c - 1
  | _ => c

/-- The child is at the block after the calls that are over, or still publishes the
last of them. -/
def ChildAt (b : Bridge α) : Child α → Prop
  | .dead => True
  | .polling last_in => last_in = b.calls.length
  | .backlog m newest =>
      m = b.calls.length + 1 ∧ newest ≤ b.ring.input_seq ∧ b.calls.length ≤ newest
  | .draining m newest _ => m = b.calls.length + 1 ∧ newest = m ∧ b.ring.input_seq = m
  | .processing m newest call =>
      (m = b.calls.length + 1 ∧ newest = m ∧ b.ring.input_seq = m) ∧ call.block = m ∧
        (∀ p ∈ call.read, p.2 = b.blocks m p.1) ∧
        ∀ i x, call.written i = some x → b.ring.out_ (slotOf m) i = x
  | .processed m newest | .confirmed m newest =>
      m = b.calls.length ∧ newest = m ∧ b.ring.input_seq = m ∧ 1 ≤ m

/-- The output of the last call is in its slot. -/
structure LastCall (b : Bridge α) (call : Call α) : Prop where
  read : ∀ p ∈ call.read, p.2 = b.blocks b.calls.length p.1
  written : ∀ i x, call.written i = some x → b.ring.out_ (slotOf b.calls.length) i = x
  complete : ∀ i < kBlockSamples, call.written i ≠ none

/-- The block of `input_seq` is in its slot. -/
structure Deposit (b : Bridge α) : Prop where
  stamp : b.ring.in_slot_seq (slotOf b.ring.input_seq) = b.ring.input_seq
  audio : ∀ i < kBlockSamples, b.ring.in_ (slotOf b.ring.input_seq) i = b.blocks b.ring.input_seq i

/-- The child serves the blocks in order, and is at most one behind. -/
structure Served (b : Bridge α) : Prop where
  order : b.calls.map Call.block = List.range' 1 b.calls.length
  le_input : b.calls.length ≤ b.ring.input_seq
  input_le : b.ring.input_seq ≤ b.calls.length + 1
  child : ChildAt b b.child
  stamps : ∀ slot, b.ring.out_slot_seq slot ≤ b.child.published b.calls.length
  last : ∀ call ∈ b.calls.getLast?, LastCall b call
  deposit : 1 ≤ b.ring.input_seq → Deposit b
  delivered : ∀ d ∈ b.delivered, d.call ≤ b.ring.input_seq

/-- Every block has been answered. -/
def Rested (b : Bridge α) : Prop := b.child.published b.calls.length = b.ring.input_seq

/-- The notes of the block that is asked for are on their way, or have arrived. -/
def Hears (b : Bridge α) (q : Request α) : Prop :=
  if b.calls.length = b.ring.input_seq then
    b.ring.midi = [] ∧ b.heard b.ring.input_seq = q.events
  else match b.child with
    | .dead => True
    | .draining _ _ events =>
        events ++ b.ring.midi = queued b.ring.input_seq q.notes ∧ b.heard b.ring.input_seq = []
    | .processing _ _ _ => b.ring.midi = [] ∧ b.heard b.ring.input_seq = q.events
    | _ => b.ring.midi = queued b.ring.input_seq q.notes ∧ b.heard b.ring.input_seq = []

/-- The next block is stored up to sample `i`. -/
structure Deposits [Zero α] (b : Bridge α) (q : Request α) (i : Nat) : Prop where
  rested : Rested b
  frames : q.frames ≤ kRingBlockSize
  midi : b.ring.midi = queued (b.ring.input_seq + 1) q.notes
  block : b.blocks (b.ring.input_seq + 1) = q.padded
  le : i ≤ kBlockSamples
  stored : ∀ j < i, b.ring.in_ (slotOf (b.ring.input_seq + 1)) j = q.padded j

/-- The last block is the one that is asked for. -/
structure Asks [Zero α] (b : Bridge α) (q : Request α) : Prop where
  one_le : 1 ≤ b.ring.input_seq
  frames : q.frames ≤ kRingBlockSize
  block : b.blocks b.ring.input_seq = q.padded
  hears : Hears b q

def NodeAt [Zero α] (b : Bridge α) : SyncEngine α → Prop
  | .idle => Rested b ∧ b.ring.midi = []
  | .emitting q notes => Rested b ∧ q.frames ≤ kRingBlockSize ∧
      ∃ sent, q.notes = sent ++ notes ∧ b.ring.midi = queued (b.ring.input_seq + 1) sent
  | .storing q i => Deposits b q i
  | .stamping q => Deposits b q kBlockSamples
  | .publishing q => Deposits b q kBlockSamples ∧
      b.ring.in_slot_seq (slotOf (b.ring.input_seq + 1)) = b.ring.input_seq + 1
  | .waiting q => Asks b q
  | .copying q i output => Asks b q ∧ Rested b ∧ i ≤ kRingChannels * q.frames ∧
      ∀ j < i, output j = b.ring.out_ (slotOf b.ring.input_seq) j

/-- The blocks that are not returned yet. -/
def SyncEngine.pending : SyncEngine α → Nat
  | .waiting _ | .copying _ _ _ => 1
  | _ => 0

structure Synced [Zero α] (s : SyncProxyNode α) : Prop where
  served : Served s.bridge
  node : s.failed = false → NodeAt s.bridge s.engine
  rest : s.failed = true → s.engine = .idle
  outcomes : s.bypass = false → ∃ wet failed : Nat,
    s.returned.map SyncReturned.outcome =
      (List.range' 1 wet).map Outcome.wet ++ List.replicate failed Outcome.failed ∧
    (s.failed = false → failed = 0 ∧ wet + s.engine.pending = s.bridge.ring.input_seq)
  returned : ∀ r ∈ s.returned, s.Honest r

end Invariant

section Child

variable {b next : Bridge α}

theorem slotOf_succ_ne (n : Nat) : slotOf (n + 1) ≠ slotOf n :=
  slotOf_ne (by omega) (by omega) (by omega)

/-- The child moves on, and perhaps takes events from the queue. -/
theorem Served.move (hs : Served b) {child : Child α} (midi : List Scheduled)
    (hat : ChildAt b child)
    (hpublished : b.child.published b.calls.length ≤ child.published b.calls.length) :
    Served { b with child := child, ring := { b.ring with midi := midi } } where
  order := hs.order
  le_input := hs.le_input
  input_le := hs.input_le
  child := by cases child <;> exact hat
  stamps := fun slot => (hs.stamps slot).trans hpublished
  last := fun call hcall => ⟨(hs.last call hcall).read, (hs.last call hcall).written,
    (hs.last call hcall).complete⟩
  deposit := fun hone => ⟨(hs.deposit hone).stamp, (hs.deposit hone).audio⟩
  delivered := hs.delivered

theorem Served.write (hs : Served b) {m newest i : Nat} {call : Call α} (x : α)
    (hchild : b.child = .processing m newest call) :
    Served
      { b with
        child := .processing m newest
          { call with written := Function.update call.written i (some x) }
        ring := { b.ring with out_ := storeAt b.ring.out_ (slotOf m) i x } } := by
  have hat := hs.child
  rw [hchild] at hat
  obtain ⟨hm, hblock, hread, hwritten⟩ := hat
  have hstamps := hs.stamps
  rw [hchild] at hstamps
  refine ⟨hs.order, hs.le_input, hs.input_le, ⟨hm, hblock, hread, ?_⟩, hstamps, ?_,
    fun hone => ⟨(hs.deposit hone).stamp, (hs.deposit hone).audio⟩, hs.delivered⟩
  · intro j y (hy : Function.update call.written i (some x) j = some y)
    show storeAt b.ring.out_ (slotOf m) i x (slotOf m) j = y
    rw [storeAt_slot]
    by_cases hji : j = i
    · rw [hji, Function.update_self] at hy ⊢
      exact Option.some.inj hy
    · rw [Function.update_of_ne hji] at hy ⊢
      exact hwritten j y hy
  · intro call' hcall'
    obtain ⟨hread', hwritten', hcomplete⟩ := hs.last call' hcall'
    refine ⟨hread', ?_, hcomplete⟩
    intro j y hy
    show storeAt b.ring.out_ (slotOf m) i x (slotOf b.calls.length) j = y
    rw [hm.1, storeAt_other _ _ _ (slotOf_succ_ne _).symm]
    exact hwritten' j y hy

theorem Served.finish (hs : Served b) {m newest : Nat} {call : Call α}
    (hchild : b.child = .processing m newest call)
    (hcomplete : ∀ i < kBlockSamples, call.written i ≠ none) :
    Served { b with child := .processed m newest, calls := b.calls ++ [call] } := by
  have hat := hs.child
  rw [hchild] at hat
  obtain ⟨⟨hm, hnewest, hinput⟩, hblock, hread, hwritten⟩ := hat
  have hstamps := hs.stamps
  rw [hchild] at hstamps
  have hlength : (b.calls ++ [call]).length = m := by
    rw [List.length_append, List.length_singleton, hm]
  refine ⟨?_, ?_, ?_, ⟨hlength.symm, hnewest, hinput, by omega⟩, ?_, ?_,
    fun hone => ⟨(hs.deposit hone).stamp, (hs.deposit hone).audio⟩, hs.delivered⟩
  · rw [List.map_append, List.map_singleton, hblock, hs.order, hlength, hm, List.range'_1_concat,
      Nat.add_comm 1]
  · show (b.calls ++ [call]).length ≤ b.ring.input_seq
    omega
  · show b.ring.input_seq ≤ (b.calls ++ [call]).length + 1
    omega
  · intro slot
    show b.ring.out_slot_seq slot ≤ (b.calls ++ [call]).length - 1
    rw [hlength, hm]
    exact hstamps slot
  · intro last hlast
    have hsame : call = last := by simpa using hlast
    rw [← hsame]
    refine ⟨?_, ?_, hcomplete⟩
    · show ∀ p ∈ call.read, p.2 = b.blocks (b.calls ++ [call]).length p.1
      rw [hlength]
      exact hread
    · show ∀ i x, call.written i = some x → b.ring.out_ (slotOf (b.calls ++ [call]).length) i = x
      rw [hlength]
      exact hwritten

/-- The input of the block that the child is at has its stamp. -/
theorem Served.stamp_eq (hs : Served b) {m newest : Nat} (hchild : b.child = .backlog m newest)
    (hle : m ≤ newest) : b.ring.in_slot_seq (slotOf m) = m := by
  have hat := hs.child
  rw [hchild] at hat
  obtain ⟨hm, hnewest, -⟩ := hat
  have hinput : b.ring.input_seq = m := by
    have := hs.input_le
    omega
  have hstamp := (hs.deposit (by omega)).stamp
  rwa [hinput] at hstamp

/-- A step of a child that is not restarted. -/
theorem Served.childStep (hs : Served b) (hstep : ChildStep b next) (halive : b.child ≠ .dead) :
    Served next := by
  have hle := hs.le_input
  have hinput := hs.input_le
  have hat := hs.child
  cases hstep with
  | restart hchild => exact absurd hchild halive
  | @poll last_in hchild hnewest =>
      rw [hchild] at hat
      obtain rfl : last_in = b.calls.length := hat
      refine hs.move b.ring.midi ⟨?_, Nat.le_refl _, hle⟩ (by rw [hchild]; exact Nat.le_refl _)
      rw [resumePoint, if_neg]
      have hslots : kRingSlots - 2 = 6 := rfl
      omega
  | @caughtUp m newest hchild hm =>
      rw [hchild] at hat
      obtain ⟨hcalls, -, hnewest⟩ := hat
      exact hs.move b.ring.midi (show newest = _ by omega) (by rw [hchild]; exact Nat.le_refl _)
  | skip hchild hm hstamp => exact absurd (hs.stamp_eq hchild hm) hstamp
  | @enter m newest hchild hm hstamp =>
      rw [hchild] at hat
      obtain ⟨hcalls, hnewest, -⟩ := hat
      exact hs.move b.ring.midi ⟨hcalls, by omega, by omega⟩ (by rw [hchild]; exact Nat.le_refl _)
  | @drain m newest events rest ev hchild hmidi =>
      rw [hchild] at hat
      exact hs.move rest hat (by rw [hchild]; exact Nat.le_refl _)
  | @begin m newest events hchild hmidi =>
      rw [hchild] at hat
      have hmoved : Served { b with child := .processing m newest { block := m } } :=
        hs.move b.ring.midi
          ⟨hat, rfl, fun _ hp => absurd hp List.not_mem_nil, fun _ _ hx => absurd hx (by simp)⟩
          (by rw [hchild]; exact Nat.le_refl _)
      refine ⟨hmoved.order, hmoved.le_input, hmoved.input_le, hmoved.child, hmoved.stamps, ?_,
        fun hone => ⟨(hs.deposit hone).stamp, (hs.deposit hone).audio⟩, ?_⟩
      · exact fun call hcall => ⟨(hs.last call hcall).read, (hs.last call hcall).written,
          (hs.last call hcall).complete⟩
      · intro d hd
        rcases List.mem_append.mp hd with hd | hd
        · exact hs.delivered d hd
        · obtain ⟨ev, -, rfl⟩ := List.mem_map.mp hd
          exact hat.2.2.ge
  | @read m newest i call hchild hi =>
      rw [hchild] at hat
      obtain ⟨hm, hblock, hread, hwritten⟩ := hat
      refine hs.move b.ring.midi ⟨hm, hblock, ?_, hwritten⟩ (by rw [hchild]; exact Nat.le_refl _)
      intro p hp
      rcases List.mem_append.mp hp with hp | hp
      · exact hread p hp
      · rw [List.mem_singleton.mp hp]
        have haudio := (hs.deposit (by omega)).audio i hi
        rwa [hm.2.2] at haudio
  | write x hchild hi => exact hs.write x hchild
  | finish hchild hcomplete => exact hs.finish hchild hcomplete
  | @torn m newest hchild hstamp =>
      rw [hchild] at hat
      obtain ⟨-, -, hseq, hone⟩ := hat
      have hsame := (hs.deposit (by omega)).stamp
      rw [hseq] at hsame
      exact absurd hsame hstamp
  | @confirm m newest hchild hstamp =>
      rw [hchild] at hat
      exact hs.move b.ring.midi hat (by rw [hchild]; exact Nat.le_refl _)
  | @publishOut m newest hchild =>
      rw [hchild] at hat
      obtain ⟨hm, hnewest, hseq, hone⟩ := hat
      have hmoved : Served { b with child := .backlog (m + 1) newest } :=
        hs.move b.ring.midi ⟨by omega, by omega, by omega⟩ (by rw [hchild]; exact Nat.sub_le _ _)
      refine ⟨hmoved.order, hmoved.le_input, hmoved.input_le, hmoved.child, ?_, ?_,
        fun hone => ⟨(hs.deposit hone).stamp, (hs.deposit hone).audio⟩, hs.delivered⟩
      · intro slot
        show Function.update b.ring.out_slot_seq (slotOf m) m slot ≤ b.calls.length
        by_cases hslot : slot = slotOf m
        · rw [hslot, Function.update_self]
          omega
        · rw [Function.update_of_ne hslot]
          exact hmoved.stamps slot
      · exact fun call hcall => ⟨(hs.last call hcall).read, (hs.last call hcall).written,
          (hs.last call hcall).complete⟩

theorem Served.die (hs : Served b) (hstep : Die b next) : Served next := by
  cases hstep
  refine hs.move b.ring.midi trivial ?_
  show b.child.published b.calls.length ≤ b.calls.length
  cases b.child <;> simp only [Child.published] <;> omega

theorem published_le (c : Nat) (child : Child α) : child.published c ≤ c := by
  cases child <;> simp only [Child.published] <;> omega

theorem Served.length_eq (hs : Served b) (hrested : Rested b) :
    b.calls.length = b.ring.input_seq := by
  have hle := published_le b.calls.length b.child
  rw [hrested] at hle
  exact Nat.le_antisymm hs.le_input hle

theorem Rested.childStep (hrested : Rested b) (hs : Served b) (hstep : ChildStep b next)
    (halive : b.child ≠ .dead) : Rested next := by
  have hserved := hs.length_eq hrested
  have hat := hs.child
  unfold Rested at hrested ⊢
  cases hstep with
  | restart hchild => exact absurd hchild halive
  | poll hchild hnewest => exact hserved
  | caughtUp hchild hm => exact hserved
  | skip hchild hm hstamp => exact hserved
  | enter hchild hm hstamp => exact hserved
  | drain hchild hmidi => exact hserved
  | begin hchild hmidi => exact hserved
  | read hchild hi => exact hserved
  | write x hchild hi => exact hserved
  | @finish m newest call hchild hcomplete =>
      show (b.calls ++ [call]).length - 1 = b.ring.input_seq
      rw [List.length_append, List.length_singleton, Nat.add_sub_cancel]
      exact hserved
  | torn hchild hstamp => exact hserved
  | @confirm m newest hchild hstamp =>
      rw [hchild] at hrested
      exact hrested
  | publishOut hchild => exact hserved

theorem Rested.die (hrested : Rested b) (hs : Served b) (hstep : Die b next) : Rested next := by
  cases hstep
  exact hs.length_eq hrested

/-- A child that has nothing to serve leaves the audio, the calls and the events as
they are. -/
theorem Served.quiet (hs : Served b) (hserved : b.calls.length = b.ring.input_seq)
    (hstep : ChildStep b next) (halive : b.child ≠ .dead) :
    ∃ child out_slot_seq output_seq, next =
      { b with
        child := child
        ring := { b.ring with out_slot_seq := out_slot_seq, output_seq := output_seq } } := by
  have hat := hs.child
  cases hstep with
  | restart hchild => exact absurd hchild halive
  | poll hchild hnewest => exact ⟨_, _, _, rfl⟩
  | caughtUp hchild hm => exact ⟨_, _, _, rfl⟩
  | skip hchild hm hstamp => exact ⟨_, _, _, rfl⟩
  | enter hchild hm hstamp => exact ⟨_, _, _, rfl⟩
  | drain hchild hmidi =>
      rw [hchild] at hat
      obtain ⟨hm, -, hseq⟩ := hat
      omega
  | begin hchild hmidi =>
      rw [hchild] at hat
      obtain ⟨hm, -, hseq⟩ := hat
      omega
  | read hchild hi =>
      rw [hchild] at hat
      obtain ⟨⟨hm, -, hseq⟩, -⟩ := hat
      omega
  | write x hchild hi =>
      rw [hchild] at hat
      obtain ⟨⟨hm, -, hseq⟩, -⟩ := hat
      omega
  | finish hchild hcomplete =>
      rw [hchild] at hat
      obtain ⟨⟨hm, -, hseq⟩, -⟩ := hat
      omega
  | torn hchild hstamp => exact ⟨_, _, _, rfl⟩
  | confirm hchild hstamp => exact ⟨_, _, _, rfl⟩
  | publishOut hchild => exact ⟨_, _, _, rfl⟩

/-- The plugin hears of no other block than the next one. -/
theorem Served.heard_eq (hs : Served b) (hstep : ChildStep b next) {seq : Nat}
    (hseq : seq ≤ b.calls.length) : next.heard seq = b.heard seq := by
  cases hstep with
  | @begin m newest events hchild hmidi =>
      have hat := hs.child
      rw [hchild] at hat
      have hother : (events.map fun ev => (⟨m, ev⟩ : Delivery)).filter
          (fun d => d.call = seq) = [] := by
        rw [List.filter_eq_nil_iff]
        intro d hd
        obtain ⟨ev, -, rfl⟩ := List.mem_map.mp hd
        have hne : m ≠ seq := by
          have := hat.1
          omega
        simpa using hne
      simp only [Bridge.heard, List.filter_append, hother, List.append_nil]
  | restart hchild => rfl
  | poll hchild hnewest => rfl
  | caughtUp hchild hm => rfl
  | skip hchild hm hstamp => rfl
  | enter hchild hm hstamp => rfl
  | drain hchild hmidi => rfl
  | read hchild hi => rfl
  | write x hchild hi => rfl
  | finish hchild hcomplete => rfl
  | torn hchild hstamp => rfl
  | confirm hchild hstamp => rfl
  | publishOut hchild => rfl

theorem calls_subset (hstep : ChildStep b next) : ∀ call ∈ b.calls, call ∈ next.calls := by
  intro call hcall
  cases hstep with
  | finish hchild hcomplete => exact List.mem_append_left _ hcall
  | restart hchild => exact hcall
  | poll hchild hnewest => exact hcall
  | caughtUp hchild hm => exact hcall
  | skip hchild hm hstamp => exact hcall
  | enter hchild hm hstamp => exact hcall
  | drain hchild hmidi => exact hcall
  | begin hchild hmidi => exact hcall
  | read hchild hi => exact hcall
  | write x hchild hi => exact hcall
  | torn hchild hstamp => exact hcall
  | confirm hchild hstamp => exact hcall
  | publishOut hchild => exact hcall

/-- The notes of the block that is asked for, while the child serves it. -/
theorem Served.hears (hs : Served b) {q : Request α} (hb : Hears b q)
    (hstep : ChildStep b next) (halive : b.child ≠ .dead) : Hears next q := by
  by_cases hserved : b.calls.length = b.ring.input_seq
  · obtain ⟨child, out_slot_seq, output_seq, rfl⟩ := hs.quiet hserved hstep halive
    unfold Hears at hb ⊢
    rw [if_pos hserved] at hb
    exact (if_pos hserved).mpr hb
  have hat := hs.child
  unfold Hears at hb
  rw [if_neg hserved] at hb
  cases hstep with
  | restart hchild => exact absurd hchild halive
  | poll hchild hnewest =>
      rw [hchild] at hb
      exact (if_neg hserved).mpr hb
  | caughtUp hchild hm =>
      rw [hchild] at hb
      exact (if_neg hserved).mpr hb
  | skip hchild hm hstamp => exact absurd (hs.stamp_eq hchild hm) hstamp
  | enter hchild hm hstamp =>
      rw [hchild] at hb
      exact (if_neg hserved).mpr hb
  | @drain m newest events rest ev hchild hmidi =>
      rw [hchild] at hb
      refine (if_neg hserved).mpr ⟨?_, hb.2⟩
      rw [← hb.1, hmidi, List.append_assoc]
      rfl
  | @begin m newest events hchild hmidi =>
      rw [hchild] at hb hat
      obtain ⟨hqueue, hnothing⟩ := hb
      rw [hmidi, List.append_nil] at hqueue
      refine (if_neg hserved).mpr ⟨hmidi, ?_⟩
      have hown : (events.map fun ev => (⟨m, ev⟩ : Delivery)).filter
          (fun d => d.call = b.ring.input_seq) = events.map fun ev => ⟨m, ev⟩ := by
        rw [List.filter_eq_self]
        intro d hd
        obtain ⟨ev, -, rfl⟩ := List.mem_map.mp hd
        simpa using hat.2.2.symm
      unfold Bridge.heard at hnothing ⊢
      dsimp only
      rw [List.filter_append, List.map_append, hnothing, hown, hqueue, List.map_map,
        List.nil_append]
      exact map_queued q _
  | read hchild hi =>
      rw [hchild] at hb
      exact (if_neg hserved).mpr hb
  | write x hchild hi =>
      rw [hchild] at hb
      exact (if_neg hserved).mpr hb
  | @finish m newest call hchild hcomplete =>
      rw [hchild] at hb hat
      have hdone : (b.calls ++ [call]).length = b.ring.input_seq := by
        rw [List.length_append, List.length_singleton, ← hat.1.1]
        exact hat.1.2.2.symm
      exact (if_pos hdone).mpr hb
  | torn hchild hstamp =>
      rw [hchild] at hat
      exact absurd (hat.1.symm.trans hat.2.2.1.symm) hserved
  | confirm hchild hstamp =>
      rw [hchild] at hat
      exact absurd (hat.1.symm.trans hat.2.2.1.symm) hserved
  | publishOut hchild =>
      rw [hchild] at hat
      exact absurd (hat.1.symm.trans hat.2.2.1.symm) hserved

end Child

section Node

variable [Zero α] {s t : SyncProxyNode α} {b next : Bridge α}

/-- A step that keeps what the rendering thread relies on. -/
theorem NodeAt.keep {engine : SyncEngine α} (hnode : NodeAt b engine)
    (hseq : next.ring.input_seq = b.ring.input_seq) (hblocks : next.blocks = b.blocks)
    (hrested : Rested b → Rested next ∧ next.ring.midi = b.ring.midi ∧
      next.ring.in_ = b.ring.in_ ∧ next.ring.in_slot_seq = b.ring.in_slot_seq ∧
      next.ring.out_ = b.ring.out_)
    (hhears : ∀ q, Hears b q → Hears next q) : NodeAt next engine := by
  have hdeposits : ∀ {q i}, Deposits b q i → Deposits next q i := by
    intro q i hd
    obtain ⟨hrest, hmidi, hin, -, -⟩ := hrested hd.rested
    refine ⟨hrest, hd.frames, ?_, ?_, hd.le, ?_⟩
    · rw [hmidi, hseq]
      exact hd.midi
    · rw [hblocks, hseq]
      exact hd.block
    · rw [hin, hseq]
      exact hd.stored
  have hasks : ∀ {q}, Asks b q → Asks next q := by
    intro q ha
    refine ⟨?_, ha.frames, ?_, hhears q ha.hears⟩
    · rw [hseq]
      exact ha.one_le
    · rw [hblocks, hseq]
      exact ha.block
  cases engine with
  | idle =>
      obtain ⟨hrest, hmidi, -⟩ := hrested hnode.1
      exact ⟨hrest, hmidi.trans hnode.2⟩
  | emitting q notes =>
      obtain ⟨hrest, hframes, sent, hsent, hqueue⟩ := hnode
      obtain ⟨hrest, hmidi, -⟩ := hrested hrest
      refine ⟨hrest, hframes, sent, hsent, ?_⟩
      rw [hmidi, hseq]
      exact hqueue
  | storing q i => exact hdeposits hnode
  | stamping q => exact hdeposits hnode
  | publishing q =>
      obtain ⟨-, -, -, hstamp, -⟩ := hrested hnode.1.rested
      refine ⟨hdeposits hnode.1, ?_⟩
      rw [hstamp, hseq]
      exact hnode.2
  | waiting q => exact hasks hnode
  | copying q i output =>
      obtain ⟨ha, hrest, hle, hcopied⟩ := hnode
      obtain ⟨hrest, -, -, -, hout⟩ := hrested hrest
      refine ⟨hasks ha, hrest, hle, ?_⟩
      rw [hout, hseq]
      exact hcopied

/-- The child does not disturb the rendering thread. -/
theorem NodeAt.childStep (hs : Served b) {engine : SyncEngine α} (hnode : NodeAt b engine)
    (hstep : ChildStep b next) (halive : b.child ≠ .dead) : NodeAt next engine := by
  have hsame : next.ring.input_seq = b.ring.input_seq ∧ next.blocks = b.blocks := by
    cases hstep <;> exact ⟨rfl, rfl⟩
  refine hnode.keep hsame.1 hsame.2 ?_ fun q hq => hs.hears hq hstep halive
  intro hrested
  refine ⟨hrested.childStep hs hstep halive, ?_⟩
  obtain ⟨child, out_slot_seq, output_seq, rfl⟩ :=
    hs.quiet (hs.length_eq hrested) hstep halive
  exact ⟨rfl, rfl, rfl, rfl⟩

theorem NodeAt.die (hs : Served b) {engine : SyncEngine α} (hnode : NodeAt b engine)
    (hstep : Die b next) : NodeAt next engine := by
  have hrested : Rested b → Rested next := fun hrested => hrested.die hs hstep
  cases hstep
  refine hnode.keep rfl rfl (fun hrest => ⟨hrested hrest, rfl, rfl, rfl, rfl⟩) ?_
  intro q hq
  unfold Hears at hq ⊢
  split at hq
  · rename_i hserved
    exact (if_pos hserved).mpr hq
  · rename_i hbehind
    exact (if_neg hbehind).mpr trivial

/-- What was returned stays as it is while the child serves on. -/
theorem SyncProxyNode.Honest.childStep (hs : Served s.bridge) {r : SyncReturned α}
    (hr : s.Honest r) (hstep : ChildStep s.bridge next) : { s with bridge := next }.Honest r := by
  unfold SyncProxyNode.Honest at hr ⊢
  cases houtcome : r.outcome with
  | bypass =>
      rw [houtcome] at hr
      exact hr
  | failed =>
      rw [houtcome] at hr
      exact hr
  | wet seq =>
      rw [houtcome] at hr
      obtain ⟨call, hcall, hblock, hwritten, hread, hheard⟩ := hr
      have hseq : seq ≤ s.bridge.calls.length := by
        have hmem := List.mem_map_of_mem (f := Call.block) hcall
        rw [hs.order, List.mem_range'_1, hblock] at hmem
        omega
      refine ⟨call, calls_subset hstep call hcall, hblock, hwritten, hread, ?_⟩
      rw [← hheard]
      exact hs.heard_eq hstep hseq

theorem Served.start : Served (Bridge.start α) where
  order := rfl
  le_input := Nat.le_refl 0
  input_le := Nat.zero_le 1
  child := rfl
  stamps := fun _ => Nat.le_refl 0
  last := fun _ hcall => absurd hcall (by simp [Bridge.start])
  deposit := fun hone => absurd hone (Nat.not_succ_le_zero 0)
  delivered := fun _ hd => absurd hd List.not_mem_nil

theorem Synced.start (bypass : Bool) : Synced (SyncProxyNode.start α bypass) where
  served := .start
  node := fun _ => ⟨rfl, rfl⟩
  rest := fun hfailed => absurd hfailed Bool.false_ne_true
  outcomes := fun _ => ⟨0, 0, rfl, fun _ => ⟨rfl, rfl⟩⟩
  returned := fun _ hr => absurd hr List.not_mem_nil

/-- A step of the rendering thread that returns nothing. -/
theorem Synced.advance (hs : Synced s) (hlive : s.failed = false) {engine : SyncEngine α}
    (hserved : Served b) (hnode : NodeAt b engine)
    (hpending : engine.pending + s.bridge.ring.input_seq = s.engine.pending + b.ring.input_seq)
    (hcalls : b.calls = s.bridge.calls) (hdelivered : b.delivered = s.bridge.delivered) :
    Synced { s with engine := engine, bridge := b } where
  served := hserved
  node := fun _ => hnode
  rest := fun hfailed => absurd (hlive.symm.trans hfailed) Bool.false_ne_true
  outcomes := by
    intro hbypass
    obtain ⟨wet, failed, houtcomes, hpend⟩ := hs.outcomes hbypass
    refine ⟨wet, failed, houtcomes, ?_⟩
    intro _
    obtain ⟨hnone, hwet⟩ := hpend hlive
    refine ⟨hnone, ?_⟩
    show wet + engine.pending = b.ring.input_seq
    omega
  returned := by
    intro r hr
    have hhonest := hs.returned r hr
    unfold SyncProxyNode.Honest Bridge.Answered Bridge.heard at hhonest ⊢
    dsimp only
    rw [hcalls, hdelivered]
    exact hhonest

theorem Synced.childStep (hs : Synced s) (hstep : ChildStep s.bridge next)
    (halive : s.bridge.child ≠ .dead) : Synced { s with bridge := next } where
  served := hs.served.childStep hstep halive
  node := fun hlive => (hs.node hlive).childStep hs.served hstep halive
  rest := hs.rest
  outcomes := by
    intro hbypass
    have hsame : next.ring.input_seq = s.bridge.ring.input_seq := by cases hstep <;> rfl
    obtain ⟨wet, failed, houtcomes, hpend⟩ := hs.outcomes hbypass
    refine ⟨wet, failed, houtcomes, ?_⟩
    dsimp only
    rw [hsame]
    exact hpend
  returned := fun r hr => (hs.returned r hr).childStep hs.served hstep

theorem Synced.die (hs : Synced s) (hstep : Die s.bridge next) :
    Synced { s with bridge := next } := by
  have hserved := hs.served.die hstep
  have hnode := fun hlive => (hs.node hlive).die hs.served hstep
  cases hstep
  exact ⟨hserved, hnode, hs.rest, hs.outcomes, hs.returned⟩

theorem Synced.fail (hs : Synced s) (q : Request α) : Synced (s.fail q) where
  served := hs.served
  node := fun hlive => absurd hlive.symm Bool.false_ne_true
  rest := fun _ => rfl
  outcomes := by
    intro hbypass
    obtain ⟨wet, failed, houtcomes, -⟩ := hs.outcomes hbypass
    refine ⟨wet, failed + 1, ?_, fun hlive => absurd hlive.symm Bool.false_ne_true⟩
    show (s.returned ++ _).map SyncReturned.outcome = _
    rw [List.map_append, houtcomes, List.replicate_succ', ← List.append_assoc]
    rfl
  returned := by
    intro r hr
    rcases List.mem_append.mp hr with hr | hr
    · have hhonest := hs.returned r hr
      unfold SyncProxyNode.Honest at hhonest ⊢
      cases houtcome : r.outcome with
      | bypass =>
          rw [houtcome] at hhonest
          exact hhonest
      | failed =>
          rw [houtcome] at hhonest
          exact ⟨rfl, hhonest.2⟩
      | wet seq =>
          rw [houtcome] at hhonest
          exact hhonest
    · rw [List.mem_singleton.mp hr]
      exact ⟨rfl, rfl⟩

theorem Synced.bypassed (hs : Synced s) (q : Request α) (hengine : s.engine = .idle)
    (hbypass : s.bypass = true) : Synced (s.give q .bypass q.input) where
  served := hs.served
  node := by
    intro hlive
    have hnode := hs.node hlive
    rw [hengine] at hnode
    exact hnode
  rest := fun _ => rfl
  outcomes := fun hwet => absurd (hbypass.symm.trans hwet) (by decide)
  returned := by
    intro r hr
    rcases List.mem_append.mp hr with hr | hr
    · exact hs.returned r hr
    · rw [List.mem_singleton.mp hr]
      exact ⟨hbypass, rfl⟩

omit [Zero α] in
/-- The last call is the one for the last block. -/
theorem Served.last_block (hs : Served b) {call : Call α} (hcall : call ∈ b.calls.getLast?) :
    call.block = b.calls.length := by
  obtain ⟨before, hbefore⟩ := List.getLast?_eq_some_iff.mp hcall
  have horder := hs.order
  rw [hbefore, List.map_append, List.map_singleton, List.length_append, List.length_singleton,
    List.range'_1_concat] at horder
  rw [hbefore, List.length_append, List.length_singleton, Nat.add_comm]
  exact List.head_eq_of_cons_eq (List.append_inj' horder rfl).2

/-- What is copied out is what the last call wrote. -/
theorem Asks.answered (hs : Served b) {q : Request α} (hasks : Asks b q) (hrested : Rested b)
    {output : Samples α}
    (hcopied : ∀ j < kRingChannels * q.frames, output j = b.ring.out_ (slotOf b.ring.input_seq) j) :
    b.Answered b.ring.input_seq ⟨q, .wet b.ring.input_seq, output⟩ := by
  have hlength := hs.length_eq hrested
  have hone := hasks.one_le
  obtain ⟨call, hcall⟩ : ∃ call, call ∈ b.calls.getLast? := by
    cases hlast : b.calls.getLast? with
    | some call => exact ⟨call, rfl⟩
    | none =>
        rw [List.getLast?_eq_none_iff.mp hlast] at hlength
        exact absurd hlength (by simp only [List.length_nil]; omega)
  have hlast := hs.last call hcall
  have hblock := hs.last_block hcall
  rw [hlength] at hblock
  have hhears := hasks.hears
  unfold Hears at hhears
  rw [if_pos hlength] at hhears
  refine ⟨call, List.mem_of_mem_getLast? hcall, hblock, ?_, ?_, hhears.2⟩
  · intro i hi
    have hframes := hasks.frames
    have hinside : i < kBlockSamples := by
      have hsamples : kBlockSamples = 512 := rfl
      have hchannels : kRingChannels = 2 := rfl
      have hsize : kRingBlockSize = 256 := rfl
      dsimp only at hi
      rw [hchannels] at hi
      omega
    obtain ⟨x, hx⟩ := Option.ne_none_iff_exists'.mp (hlast.complete i hinside)
    have hout := hlast.written i x hx
    rw [hlength] at hout
    rw [hx]
    exact congrArg some (hout.symm.trans (hcopied i hi).symm)
  · intro p hp
    rw [hlast.read p hp, hlength, hasks.block]

omit [Zero α] in
/-- A bridge whose input side moves on. -/
theorem Served.input (hs : Served b) {in_ : Nat → Samples α} {in_slot_seq : Nat → Nat}
    {midi pushed : List Scheduled} {blocks : Nat → Samples α}
    (hin : in_ (slotOf b.ring.input_seq) = b.ring.in_ (slotOf b.ring.input_seq))
    (hstamp : in_slot_seq (slotOf b.ring.input_seq) =
      b.ring.in_slot_seq (slotOf b.ring.input_seq))
    (hblocks : ∀ seq ≤ b.ring.input_seq, blocks seq = b.blocks seq) :
    Served
      { b with
        ring := { b.ring with in_ := in_, in_slot_seq := in_slot_seq, midi := midi }
        pushed := pushed
        blocks := blocks } where
  order := hs.order
  le_input := hs.le_input
  input_le := hs.input_le
  child := by
    have hat := hs.child
    cases hchild : b.child with
    | processing m newest call =>
        rw [hchild] at hat
        obtain ⟨hm, hblock, hread, hwritten⟩ := hat
        refine ⟨hm, hblock, ?_, hwritten⟩
        intro p hp
        show p.2 = blocks m p.1
        rw [hblocks m hm.2.2.ge]
        exact hread p hp
    | dead => trivial
    | polling last_in =>
        rw [hchild] at hat
        exact hat
    | backlog m newest =>
        rw [hchild] at hat
        exact hat
    | draining m newest events =>
        rw [hchild] at hat
        exact hat
    | processed m newest =>
        rw [hchild] at hat
        exact hat
    | confirmed m newest =>
        rw [hchild] at hat
        exact hat
  stamps := hs.stamps
  last := by
    intro call hcall
    refine ⟨?_, (hs.last call hcall).written, (hs.last call hcall).complete⟩
    intro p hp
    show p.2 = blocks b.calls.length p.1
    rw [hblocks _ hs.le_input]
    exact (hs.last call hcall).read p hp
  deposit := by
    intro hone
    refine ⟨hstamp.trans (hs.deposit hone).stamp, ?_⟩
    intro i hi
    show in_ (slotOf b.ring.input_seq) i = blocks b.ring.input_seq i
    rw [hin, hblocks _ (Nat.le_refl _)]
    exact (hs.deposit hone).audio i hi
  delivered := hs.delivered

/-- The child finds the block that is published. -/
theorem Deposits.publish (hs : Served b) {q : Request α} (hd : Deposits b q kBlockSamples)
    (hstamp : b.ring.in_slot_seq (slotOf (b.ring.input_seq + 1)) = b.ring.input_seq + 1) :
    Served { b with ring := { b.ring with input_seq := b.ring.input_seq + 1 } } ∧
      Asks { b with ring := { b.ring with input_seq := b.ring.input_seq + 1 } } q := by
  have hlength := hs.length_eq hd.rested
  have hrested := hd.rested
  have hat := hs.child
  unfold Rested at hrested
  have hunheard : b.heard (b.ring.input_seq + 1) = [] := by
    unfold Bridge.heard
    rw [List.map_eq_nil_iff, List.filter_eq_nil_iff]
    intro e he
    have hle := hs.delivered e he
    simp only [decide_eq_true_eq]
    omega
  have hbehind : b.calls.length ≠ b.ring.input_seq + 1 := by omega
  have hchild : ChildAt { b with ring := { b.ring with input_seq := b.ring.input_seq + 1 } }
        b.child ∧
      Hears { b with ring := { b.ring with input_seq := b.ring.input_seq + 1 } } q := by
    unfold Hears
    rw [if_neg hbehind]
    dsimp only
    cases hchild : b.child with
    | dead => exact ⟨trivial, trivial⟩
    | polling last_in =>
        rw [hchild] at hat
        exact ⟨hat, hd.midi, hunheard⟩
    | backlog m newest =>
        rw [hchild] at hat
        exact ⟨⟨hat.1, Nat.le_succ_of_le hat.2.1, hat.2.2⟩, hd.midi, hunheard⟩
    | draining m newest events =>
        rw [hchild] at hat
        obtain ⟨hm, -, hseq⟩ := hat
        omega
    | processing m newest call =>
        rw [hchild] at hat
        obtain ⟨⟨hm, -, hseq⟩, -⟩ := hat
        omega
    | processed m newest =>
        rw [hchild] at hat hrested
        obtain ⟨hm, -, hseq, hone⟩ := hat
        simp only [Child.published] at hrested
        omega
    | confirmed m newest =>
        rw [hchild] at hat hrested
        obtain ⟨hm, -, hseq, hone⟩ := hat
        simp only [Child.published] at hrested
        omega
  refine ⟨⟨hs.order, Nat.le_succ_of_le hs.le_input, ?_, hchild.1, hs.stamps, ?_, ?_, ?_⟩,
    ⟨Nat.succ_pos _, hd.frames, hd.block, hchild.2⟩⟩
  · show b.ring.input_seq + 1 ≤ b.calls.length + 1
    omega
  · exact fun call hcall => ⟨(hs.last call hcall).read, (hs.last call hcall).written,
      (hs.last call hcall).complete⟩
  · intro _
    refine ⟨hstamp, ?_⟩
    intro i hi
    show b.ring.in_ (slotOf (b.ring.input_seq + 1)) i = b.blocks (b.ring.input_seq + 1) i
    rw [hd.stored i hi, hd.block]
  · exact fun d hd => Nat.le_succ_of_le (hs.delivered d hd)

theorem Synced.copied (hs : Synced s) {q : Request α} {i : Nat} {output : Samples α}
    (hengine : s.engine = .copying q i output) (hi : i = kRingChannels * q.frames) :
    Synced (s.give q (.wet s.bridge.ring.input_seq) output) := by
  have hlive : s.failed = false := by
    cases hfailed : s.failed with
    | false => rfl
    | true =>
        have hidle := hs.rest hfailed
        rw [hengine] at hidle
        cases hidle
  have hnode := hs.node hlive
  rw [hengine, hi] at hnode
  obtain ⟨hasks, hrested, -, hcopied⟩ := hnode
  have hlength := hs.served.length_eq hrested
  have hhears := hasks.hears
  unfold Hears at hhears
  rw [if_pos hlength] at hhears
  refine ⟨hs.served, fun _ => ⟨hrested, hhears.1⟩, fun _ => rfl, ?_, ?_⟩
  · intro hbypass
    obtain ⟨wet, failed, houtcomes, hpend⟩ := hs.outcomes hbypass
    obtain ⟨rfl, hwet⟩ := hpend hlive
    rw [hengine] at hwet
    have hseq : s.bridge.ring.input_seq = 1 + wet := by
      simp only [SyncEngine.pending] at hwet
      omega
    refine ⟨wet + 1, 0, ?_, fun _ => ⟨rfl, ?_⟩⟩
    · show (s.returned ++ _).map SyncReturned.outcome = _
      rw [List.map_append, houtcomes, List.replicate_zero, List.append_nil, List.append_nil,
        List.range'_1_concat, List.map_append, hseq]
      rfl
    · show wet + 1 + 0 = s.bridge.ring.input_seq
      omega
  · intro r hr
    rcases List.mem_append.mp hr with hr | hr
    · exact hs.returned r hr
    · rw [List.mem_singleton.mp hr]
      exact hasks.answered hs.served hrested hcopied

theorem Synced.emit (hs : Synced s) {q : Request α} {ev : MidiEvent} {notes : List MidiEvent}
    (hengine : s.engine = .emitting q (ev :: notes)) (hlive : s.failed = false) :
    Synced { s with engine := .emitting q notes, bridge := s.bridge.push ev } := by
  have hnode := hs.node hlive
  rw [hengine] at hnode
  obtain ⟨hrested, hframes, sent, hsent, hmidi⟩ := hnode
  have hpushed := midi_push ev hmidi
  obtain ⟨midi, pushed, heq⟩ := push_eq s.bridge ev
  rw [heq] at hpushed ⊢
  refine hs.advance hlive (hs.served.input rfl rfl fun _ _ => rfl)
    ⟨hrested, hframes, sent ++ [ev], ?_, hpushed⟩ ?_ rfl rfl
  · rw [hsent, List.append_assoc]
    rfl
  · rw [hengine]
    rfl

theorem Synced.store (hs : Synced s) {q : Request α} {i : Nat}
    (hengine : s.engine = .storing q i) (hi : i < kBlockSamples) (hlive : s.failed = false) :
    Synced
      { s with
        engine := .storing q (i + 1)
        bridge := { s.bridge with
          ring := { s.bridge.ring with
            in_ := storeAt s.bridge.ring.in_ (slotOf (s.bridge.ring.input_seq + 1)) i
              (q.padded i) } } } := by
  have hd := hs.node hlive
  rw [hengine] at hd
  refine hs.advance hlive (hs.served.input (storeAt_other _ _ _ (slotOf_succ_ne _).symm) rfl
    fun _ _ => rfl) ⟨hd.rested, hd.frames, hd.midi, hd.block, hi, ?_⟩ ?_ rfl rfl
  · intro j hj
    show storeAt s.bridge.ring.in_ (slotOf (s.bridge.ring.input_seq + 1)) i (q.padded i)
      (slotOf (s.bridge.ring.input_seq + 1)) j = q.padded j
    rw [storeAt_slot]
    exact update_copied hd.stored rfl j hj
  · rw [hengine]
    rfl

theorem Synced.step (hs : Synced s) (hstep : SyncStep s t) : Synced t := by
  have hlive : s.engine ≠ .idle → s.failed = false := by
    intro hbusy
    cases hfailed : s.failed with
    | false => rfl
    | true => exact absurd (hs.rest hfailed) hbusy
  cases hstep with
  | bypassed q hengine hbypass => exact hs.bypassed q hengine hbypass
  | refuse q hengine hbypass hrefused => exact hs.fail q
  | process q hengine hbypass hlive hframes =>
      have hnode := hs.node hlive
      rw [hengine] at hnode
      refine hs.advance hlive hs.served
        ⟨hnode.1, hframes, [], rfl, hnode.2.trans (queued_nil _).symm⟩ ?_ rfl rfl
      rw [hengine]
      rfl
  | emit hengine => exact hs.emit hengine (hlive (by simp [hengine]))
  | empty hengine hframes => exact hs.fail _
  | @deposit q hengine hframes =>
      have hnode := hs.node (hlive (by simp [hengine]))
      rw [hengine] at hnode
      obtain ⟨hrested, hframes', sent, hsent, hmidi⟩ := hnode
      rw [List.append_nil] at hsent
      rw [← hsent] at hmidi
      refine hs.advance (hlive (by simp [hengine]))
        (hs.served.input rfl rfl fun seq hseq => Function.update_of_ne (by omega) _ _)
        ⟨hrested, hframes', hmidi, Function.update_self _ _ _, Nat.zero_le _,
          fun j hj => absurd hj (Nat.not_lt_zero j)⟩ ?_ rfl rfl
      rw [hengine]
      rfl
  | store hengine hi => exact hs.store hengine hi (hlive (by simp [hengine]))
  | @stored q i hengine hi =>
      have hnode := hs.node (hlive (by simp [hengine]))
      rw [hengine, hi] at hnode
      refine hs.advance (hlive (by simp [hengine])) hs.served hnode ?_ rfl rfl
      rw [hengine]
      rfl
  | @stamp q hengine =>
      have hd := hs.node (hlive (by simp [hengine]))
      rw [hengine] at hd
      refine hs.advance (hlive (by simp [hengine]))
        (hs.served.input rfl (Function.update_of_ne (slotOf_succ_ne _).symm _ _) fun _ _ => rfl)
        ⟨⟨hd.rested, hd.frames, hd.midi, hd.block, hd.le, hd.stored⟩,
          Function.update_self _ _ _⟩ ?_ rfl rfl
      rw [hengine]
      rfl
  | @publish q hengine =>
      have hnode := hs.node (hlive (by simp [hengine]))
      rw [hengine] at hnode
      obtain ⟨hserved, hasks⟩ := hnode.1.publish hs.served hnode.2
      refine hs.advance (hlive (by simp [hengine])) hserved hasks ?_ rfl rfl
      rw [hengine]
      show 1 + s.bridge.ring.input_seq = 0 + (s.bridge.ring.input_seq + 1)
      omega
  | @collect q hengine hstamp =>
      have hasks := hs.node (hlive (by simp [hengine]))
      rw [hengine] at hasks
      have hstamps := hs.served.stamps (slotOf s.bridge.ring.input_seq)
      have hpublished := published_le s.bridge.calls.length s.bridge.child
      have hle := hs.served.le_input
      have hrested : Rested s.bridge := by
        unfold Rested
        omega
      refine hs.advance (hlive (by simp [hengine])) hs.served
        ⟨hasks, hrested, Nat.zero_le _, fun j hj => absurd hj (Nat.not_lt_zero j)⟩ ?_ rfl rfl
      rw [hengine]
      rfl
  | timeout hengine hstamp => exact hs.fail _
  | @copy q i output hengine hi =>
      have hnode := hs.node (hlive (by simp [hengine]))
      rw [hengine] at hnode
      obtain ⟨hasks, hrested, hle, hcopied⟩ := hnode
      refine hs.advance (hlive (by simp [hengine])) hs.served
        ⟨hasks, hrested, hi, update_copied hcopied rfl⟩ ?_ rfl rfl
      rw [hengine]
      rfl
  | copied hengine hi => exact hs.copied hengine hi
  | child hstep halive => exact hs.childStep hstep halive
  | die hstep => exact hs.die hstep

end Node

/-- In every run of an offline render. -/
theorem exact_of_run [Zero α] {bypass : Bool} {s : SyncProxyNode α}
    (hrun : Run.Reaches SyncStep (SyncProxyNode.start α bypass) s) : s.Exact := by
  have hs : Synced s := hrun.invariant (.start bypass) fun _ _ hstep ha => ha.step hstep
  refine ⟨hs.served.order, ?_, hs.returned⟩
  intro hbypass
  obtain ⟨wet, failed, houtcomes, hpend⟩ := hs.outcomes hbypass
  exact ⟨wet, failed, houtcomes, fun hlive => (hpend hlive).1⟩

section Example

variable [Zero α] {first s : SyncProxyNode α}

/-- The rendering thread stores a whole block. -/
theorem reaches_syncStored {q : Request α} (hrun : Run.Reaches SyncStep first s)
    (hengine : s.engine = .storing q 0) :
    ∃ in_, Run.Reaches SyncStep first
      { s with
        engine := .storing q kBlockSamples
        bridge := { s.bridge with ring := { s.bridge.ring with in_ := in_ } } } := by
  have hloop : ∀ i ≤ kBlockSamples, ∃ in_, Run.Reaches SyncStep first
      { s with
        engine := .storing q i
        bridge := { s.bridge with ring := { s.bridge.ring with in_ := in_ } } } := by
    intro i
    induction i with
    | zero =>
        intro _
        refine ⟨s.bridge.ring.in_, ?_⟩
        rw [← hengine]
        exact hrun
    | succ i ih =>
        intro hi
        obtain ⟨in_, hstored⟩ := ih (Nat.le_of_succ_le hi)
        exact ⟨_, hstored.tail (.store rfl hi)⟩
  exact hloop kBlockSamples (Nat.le_refl _)

/-- The plugin writes the same sample everywhere. -/
theorem reaches_syncWritten {m newest : Nat} {call : Call α} (x : α)
    (hrun : Run.Reaches SyncStep first s) (hchild : s.bridge.child = .processing m newest call) :
    ∃ written out_, Run.Reaches SyncStep first
        { s with
          bridge := { s.bridge with
            child := .processing m newest { call with written := written }
            ring := { s.bridge.ring with out_ := out_ } } } ∧
      ∀ i < kBlockSamples, written i = some x := by
  have hloop : ∀ i ≤ kBlockSamples, ∃ written out_, Run.Reaches SyncStep first
      { s with
        bridge := { s.bridge with
          child := .processing m newest { call with written := written }
          ring := { s.bridge.ring with out_ := out_ } } } ∧
      ∀ j < i, written j = some x := by
    intro i
    induction i with
    | zero =>
        intro _
        refine ⟨call.written, s.bridge.ring.out_, ?_, fun j hj => absurd hj (Nat.not_lt_zero j)⟩
        rw [← hchild]
        exact hrun
    | succ i ih =>
        intro hi
        obtain ⟨written, out_, hwrote, hwritten⟩ := ih (Nat.le_of_succ_le hi)
        refine ⟨Function.update written i (some x), storeAt out_ (slotOf m) i x,
          hwrote.tail (.child ?_ (by intro hdead; cases hdead)), ?_⟩
        · exact @ChildStep.write α _ m newest i { call with written := written } x rfl hi
        · intro j hj
          by_cases hji : j = i
          · rw [hji, Function.update_self]
          · rw [Function.update_of_ne hji]
            exact hwritten j (by omega)
  exact hloop kBlockSamples (Nat.le_refl _)

/-- One frame and a note. -/
def oneFrame : Request ℤ where
  frames := 1
  input := fun _ => 1
  notes := [{ kind := .noteOn, data1 := 60, data2 := 100, sample_offset := 0 }]

/-- The child answers the frame. -/
theorem exact_of_run_oneFrame :
    ∃ s : SyncProxyNode ℤ, s.Exact ∧ s.returned.map SyncReturned.outcome = [.wet 1] := by
  have hprocess := Relation.ReflTransGen.single
    (SyncStep.process (s := SyncProxyNode.start ℤ false) oneFrame rfl rfl rfl (by decide))
  have hdeposited := (hprocess.tail (.emit rfl)).tail (.deposit rfl Nat.one_ne_zero)
  obtain ⟨in_, hstored⟩ := reaches_syncStored hdeposited rfl
  have hpublished := ((hstored.tail (.stored rfl rfl)).tail (.stamp rfl)).tail (.publish rfl)
  have hpolled := hpublished.tail
    (.child (.poll rfl Nat.one_ne_zero) (by intro hdead; cases hdead))
  have hentered := hpolled.tail
    (.child (.enter rfl (Nat.le_refl 1) rfl) (by intro hdead; cases hdead))
  have hdrained := hentered.tail (.child (.drain rfl rfl) (by intro hdead; cases hdead))
  have hbegun := hdrained.tail (.child (.begin rfl rfl) (by intro hdead; cases hdead))
  obtain ⟨written, out_, hwrote, hwritten⟩ := reaches_syncWritten 1 hbegun rfl
  have hcomplete : ∀ i < kBlockSamples, written i ≠ none := by
    intro i hi
    rw [hwritten i hi]
    exact Option.some_ne_none 1
  have hfinished := hwrote.tail (.child (.finish rfl hcomplete) (by intro hdead; cases hdead))
  have hconfirmed := hfinished.tail (.child (.confirm rfl rfl) (by intro hdead; cases hdead))
  have hanswered := hconfirmed.tail (.child (.publishOut rfl) (by intro hdead; cases hdead))
  have hcollected := hanswered.tail (.collect rfl rfl)
  have hcopied := (hcollected.tail (.copy rfl (by decide))).tail (.copy rfl (by decide))
  exact ⟨_, exact_of_run (hcopied.tail (.copied rfl rfl)), rfl⟩

end Example

end DawProject.Host
