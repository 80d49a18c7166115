import DawProject.Host.Ring
import DawProject.Lib.LossyRing

/-!
The MIDI FIFO of `engine/src/host/shared_audio_ring.h` by its atomic steps:
`pushMidiEvent` and `popMidiEvent` on the lossy ring, with the five fields of an
event as the cells of a slot.
-/

namespace DawProject.Host

open LossyRing (Queue Fate)

def MidiKind.code : MidiKind → Nat
  | .noteOff => 0
  | .noteOn => 1
  | .controlChange => 2
  | .pitchBend => 3

/-- The cast of a code that a push has stored. -/
def MidiKind.ofCode : Nat → MidiKind
  | 1 => .noteOn
  | 2 => .controlChange
  | 3 => .pitchBend
  | _ => .noteOff

/-- What `pushMidiEvent` stores, field by field. -/
def MidiEvent.fields (ev : MidiEvent) : List Nat :=
  [ev.kind.code, (ev.data1 &&& 0x7F).toNat, (ev.data2 &&& 0x7F).toNat,
    (ev.channel &&& 0x0F).toNat, ev.sample_offset]

/-- What `popMidiEvent` makes of the fields it has read. -/
def MidiEvent.ofFields : List Nat → MidiEvent
  | [kind, data1, data2, channel, sample_offset] =>
      { kind := .ofCode kind
        data1 := UInt8.ofNat data1
        data2 := UInt8.ofNat data2
        channel := UInt8.ofNat channel
        sample_offset := sample_offset }
  | _ => {}

def kMidiFields : Nat := 5

/-- The FIFO, with the events pushed so far, which no step reads. -/
structure MidiFifo where
  ring : Queue Nat := Queue.empty fun _ _ => 0
  pushed : List MidiEvent := []

/-- An atomic step of the producer or of the consumer. -/
inductive MidiStep where
  /-- A push begins. -/
  | push (ev : MidiEvent)
  | other (e : LossyRing.Event Nat)
deriving DecidableEq, Repr

namespace MidiFifo

def step (s : MidiFifo) : MidiStep → Option MidiFifo
  | .push ev =>
      (s.ring.step kMidiQueueSlots kMidiFields (.push ev.fields)).map fun ring =>
        { ring := ring, pushed := s.pushed ++ [ev] }
  | .other e =>
      if e.item?.isNone then
        (s.ring.step kMidiQueueSlots kMidiFields e).map fun ring => { s with ring := ring }
      else none

def Step (s next : MidiFifo) : Prop := ∃ e, s.step e = some next

/-- The events that `popMidiEvent` has returned, in this order. -/
def popped (s : MidiFifo) : List MidiEvent := s.ring.popped.map MidiEvent.ofFields

end MidiFifo

section Run

variable {s next : MidiFifo}

theorem ofFields_fields (ev : MidiEvent) : MidiEvent.ofFields ev.fields = ev.masked := by
  have hkind : MidiKind.ofCode ev.kind.code = ev.kind := by cases ev.kind <;> rfl
  simp only [MidiEvent.ofFields, MidiEvent.fields, MidiEvent.masked, hkind, UInt8.ofNat_toNat]

/-- The ring holds the fields of the events pushed. -/
structure MidiFifoInv (s : MidiFifo) : Prop where
  ring : LossyRing.Inv kMidiQueueSlots kMidiFields s.ring
  offered : s.ring.offered = s.pushed.map MidiEvent.fields

/-- Every step is one of the ring, and a push offers the fields of its event. -/
theorem ring_step {e : MidiStep} (hstep : s.step e = some next) :
    ∃ e', s.ring.step kMidiQueueSlots kMidiFields e' = some next.ring ∧
      next.pushed.map MidiEvent.fields = s.pushed.map MidiEvent.fields ++ e'.item?.toList := by
  cases e with
  | push ev =>
      obtain ⟨ring, hring, rfl⟩ := Option.map_eq_some_iff.mp hstep
      exact ⟨_, hring, List.map_append⟩
  | other e =>
      simp only [MidiFifo.step] at hstep
      split at hstep
      · rename_i hother
        obtain ⟨ring, hring, rfl⟩ := Option.map_eq_some_iff.mp hstep
        rw [Option.isNone_iff_eq_none] at hother
        refine ⟨e, hring, ?_⟩
        rw [hother]
        exact (List.append_nil _).symm
      · cases hstep

theorem midiFifoInv_of_step (hinv : MidiFifoInv s) (hstep : MidiFifo.Step s next) :
    MidiFifoInv next := by
  obtain ⟨e, hstep⟩ := hstep
  obtain ⟨e', hring, hpushed⟩ := ring_step hstep
  refine ⟨LossyRing.inv_of_step (by decide) hinv.ring hring, ?_⟩
  rw [(LossyRing.step_cases hring).1, hinv.offered, hpushed]

theorem midiFifoInv_of_run (hrun : Run.Reaches MidiFifo.Step {} s) : MidiFifoInv s := by
  apply Run.Reaches.invariant hrun ⟨LossyRing.inv_empty _, rfl⟩
  exact fun a b hstep ha => midiFifoInv_of_step ha hstep

/-- In every run, the events popped are a subsequence of those pushed, each as it
was pushed; an event is dropped only while 256 newer ones wait or are being
pushed. -/
theorem popped_of_run (hrun : Run.Reaches MidiFifo.Step {} s) :
    s.popped.Sublist (s.pushed.map MidiEvent.masked) ∧
    s.ring.fates.length = s.ring.read_idx ∧
    (∀ (k : Nat) (buf : List Nat), s.ring.fates[k]? = some (.popped buf) →
      ∃ ev, s.pushed[k]? = some ev ∧ MidiEvent.ofFields buf = ev.masked) ∧
    ∀ (e : MidiStep) (next : MidiFifo) (n : Nat), s.step e = some next →
      next.ring.fates = s.ring.fates ++ [.dropped n] →
      (s.pushed.drop (s.ring.read_idx + 1)).length = 256 := by
  have hinv := midiFifoInv_of_run hrun
  have hread : (s.pushed.map MidiEvent.fields).map MidiEvent.ofFields =
      s.pushed.map MidiEvent.masked := by
    rw [List.map_map]
    exact List.map_congr_left fun ev _ => ofFields_fields ev
  refine ⟨?_, hinv.ring.decided, ?_, ?_⟩
  · have hsublist := hinv.ring.popped_sublist.map MidiEvent.ofFields
    rw [hinv.offered, hread] at hsublist
    exact hsublist
  · intro k buf hk
    have hget : s.ring.offered[k]? = some buf := hinv.ring.fates k _ hk
    rw [hinv.offered, List.getElem?_map] at hget
    obtain ⟨ev, hev, rfl⟩ := Option.map_eq_some_iff.mp hget
    exact ⟨ev, hev, ofFields_fields ev⟩
  · intro e next n hstep hdropped
    obtain ⟨e', hring, -⟩ := ring_step hstep
    have hdrops : s.ring.drops kMidiQueueSlots := by
      obtain ⟨-, ⟨hsame, -⟩ | ⟨buf, -, -, -, hpopped, -⟩ | ⟨hdrops, -⟩⟩ :=
        LossyRing.step_cases hring
      · rw [hdropped] at hsame
        simp at hsame
      · rw [hdropped, List.append_cancel_left_eq] at hpopped
        cases hpopped
      · exact hdrops
    have hlength := hinv.ring.length_of_drops hdrops (by decide)
    rw [hinv.offered, List.length_map] at hlength
    have hslots : kMidiQueueSlots = 256 := rfl
    rw [List.length_drop]
    omega

end Run

/-- A note that is pushed while the consumer polls an empty queue, then popped. -/
def noteEvent : MidiEvent := { kind := .noteOn, data1 := 60, data2 := 100, sample_offset := 17 }

def oneNote : List MidiStep :=
  [.push noteEvent, .other .load, .other .loadRead, .other .makeRoom, .other .check] ++
    List.replicate 5 (.other .store) ++ [.other .load, .other .publish, .other .check] ++
    List.replicate 5 (.other .read) ++ [.other .claim]

theorem popped_of_oneNote : ∃ s : MidiFifo, s.popped = [noteEvent] ∧
    s.popped.Sublist (s.pushed.map MidiEvent.masked) := by
  have hpopped : (oneNote.foldlM MidiFifo.step {}).map MidiFifo.popped = some [noteEvent] := by
    decide
  obtain ⟨s, hrun, hs⟩ := Option.map_eq_some_iff.mp hpopped
  have hreach : Run.Reaches MidiFifo.Step {} s :=
    Run.Reaches.of_foldlM (fun _ e _ hstep => ⟨e, hstep⟩) hrun
  exact ⟨s, hs, (popped_of_run hreach).1⟩

end DawProject.Host
