import DawProject.Lib.SpscRing

/-!
The ring buffer of commands and live MIDI, `engine/src/audio/ring_buffer.h`,
with every load and every store of a push and of a pop as a step of its own.
Its indices wrap, and one slot always stays free. It simulates the queue whose
indices do not wrap.
-/

namespace DawProject.Audio

open SpscRing

/-- What the static assertions let through. -/
structure Capacity where
  val : ℕ
  pow2 : val &&& (val - 1) = 0
  pos : 0 < val

def Capacity.mask_ (c : Capacity) : ℕ := c.val - 1

structure RingBuffer (T : Type) where
  buffer_ : ℕ → T
  head_ : ℕ := 0
  tail_ : ℕ := 0

/-- Where the producer is in `push`. -/
inductive PushPhase (T : Type) where
  | idle
  | loaded (value : T) (current_head : ℕ)
  /-- The buffer was not full. -/
  | checked (value : T) (current_head : ℕ)
  | written (value : T) (current_head : ℕ)

/-- Where the consumer is in `pop`. -/
inductive PopPhase (T : Type) where
  | idle
  | loaded (current_tail : ℕ)
  /-- The buffer was not empty. -/
  | checked (current_tail : ℕ)
  | read (current_tail : ℕ) (value : T)

/-- The buffer and its two threads, with the values that were pushed and
popped, which no step reads. -/
structure RingSystem (T : Type) where
  ring : RingBuffer T
  push : PushPhase T := .idle
  pop : PopPhase T := .idle
  pushed : List T := []
  popped : List T := []

/-- A new buffer, filled with `T{}`. -/
def RingSystem.init {T : Type} (zero : T) : RingSystem T :=
  { ring := { buffer_ := fun _ => zero } }

inductive RingEvent (T : Type) where
  /-- `push` loads the head. -/
  | push (value : T)
  | loadTail
  /-- A part of the value is copied. -/
  | copy (value : T)
  | write
  | storeHead
  /-- `pop` loads the tail. -/
  | pop
  | loadHead
  | read
  | storeTail

section Steps

variable {T : Type} (c : Capacity)

def next_head (current_head : ℕ) : ℕ := (current_head + 1) &&& c.mask_

def RingBuffer.write (ring : RingBuffer T) (i : ℕ) (value : T) : RingBuffer T :=
  { ring with buffer_ := Function.update ring.buffer_ i value }

def RingSystem.step (s : RingSystem T) : RingEvent T → Option (RingSystem T)
  | .push value =>
      match s.push with
      | .idle => some { s with push := .loaded value s.ring.head_ }
      | _ => none
  | .loadTail =>
      match s.push with
      | .loaded value current_head =>
          if next_head c current_head = s.ring.tail_ then some { s with push := .idle }
          else some { s with push := .checked value current_head }
      | _ => none
  | .copy part =>
      match s.push with
      | .checked _ current_head => some { s with ring := s.ring.write current_head part }
      | _ => none
  | .write =>
      match s.push with
      | .checked value current_head =>
          some { s with
            ring := s.ring.write current_head value
            push := .written value current_head }
      | _ => none
  | .storeHead =>
      match s.push with
      | .written value current_head =>
          some { s with
            ring := { s.ring with head_ := next_head c current_head }
            push := .idle
            pushed := s.pushed ++ [value] }
      | _ => none
  | .pop =>
      match s.pop with
      | .idle => some { s with pop := .loaded s.ring.tail_ }
      | _ => none
  | .loadHead =>
      match s.pop with
      | .loaded current_tail =>
          if current_tail = s.ring.head_ then some { s with pop := .idle }
          else some { s with pop := .checked current_tail }
      | _ => none
  | .read =>
      match s.pop with
      | .checked current_tail =>
          some { s with pop := .read current_tail (s.ring.buffer_ current_tail) }
      | _ => none
  | .storeTail =>
      match s.pop with
      | .read current_tail value =>
          some { s with
            ring := { s.ring with tail_ := (current_tail + 1) &&& c.mask_ }
            pop := .idle
            popped := s.popped ++ [value] }
      | _ => none

/-- The next load finds the buffer full. -/
def RingSystem.PushFails (s : RingSystem T) : Prop :=
  ∃ value current_head, s.push = .loaded value current_head ∧
    next_head c current_head = s.ring.tail_

/-- The next load finds the buffer empty. -/
def RingSystem.PopFails (s : RingSystem T) : Prop :=
  ∃ current_tail, s.pop = .loaded current_tail ∧ current_tail = s.ring.head_

/-- The two threads are about to use one slot. -/
def RingSystem.Races (s : RingSystem T) : Prop :=
  ∃ value i, s.push = .checked value i ∧ s.pop = .checked i

end Steps

section Simulation

variable {T : Type} {c : Capacity}

theorem and_mask (x : ℕ) : x &&& c.mask_ = x % c.val := by
  obtain ⟨k, hk⟩ := (Nat.and_sub_one_eq_zero_iff_isPowerOfTwo (Nat.pos_iff_ne_zero.mp c.pos)).mp
    c.pow2
  rw [Capacity.mask_, hk, Nat.and_two_pow_sub_one_eq_mod]

theorem next_head_mod (w : ℕ) : next_head c (w % c.val) = (w + 1) % c.val := by
  rw [next_head, and_mask, Nat.mod_add_mod]

/-- Where the producer of the queue is when that of the buffer is in `push`. -/
def PushSimulates (head_ : ℕ) (push : PushPhase T) (producer : Producer T) : Prop :=
  match push with
  | .idle => producer = .idle
  | .loaded value i => i = head_ ∧ producer = .offering value
  | .checked value i => i = head_ ∧ producer = .storing value
  | .written value i => i = head_ ∧ producer = .stored value

def PopSimulates (tail_ read_idx : ℕ) (pop : PopPhase T) (consumer : Consumer T) : Prop :=
  match pop with
  | .idle => consumer = .idle
  | .loaded i => i = tail_ ∧ consumer = .looking
  | .checked i => i = tail_ ∧ ∃ w, read_idx < w ∧ consumer = .reading w []
  | .read i value => i = tail_ ∧ ∃ w, consumer = .reading w [value]

/-- The queue behind a buffer. -/
structure Simulates (c : Capacity) (s : RingSystem T) (q : Queue T) : Prop where
  inv : Inv c.val (c.val - 1) q
  head_ : s.ring.head_ = q.write_idx % c.val
  tail_ : s.ring.tail_ = q.read_idx % c.val
  buffer_ : s.ring.buffer_ = q.slots
  push : PushSimulates s.ring.head_ s.push q.producer
  pop : PopSimulates s.ring.tail_ q.read_idx s.pop q.consumer
  pushed : s.pushed = q.pushed
  popped : s.popped = q.popped

theorem simulates_init (zero : T) :
    Simulates c (RingSystem.init zero) (Queue.empty fun _ => zero) :=
  ⟨inv_empty _, (Nat.zero_mod _).symm, (Nat.zero_mod _).symm, rfl, rfl, rfl, rfl, rfl⟩

/-- The next head is the tail when all slots but one are taken. -/
theorem full_iff {q : Queue T} (hinv : Inv c.val (c.val - 1) q) :
    (q.write_idx + 1) % c.val = q.read_idx % c.val ↔ q.write_idx - q.read_idx ≥ c.val - 1 := by
  have hle := hinv.le
  have hbound := hinv.bound
  have hpos := c.pos
  constructor
  · intro hsame
    by_contra hroom
    exact slot_ne (by omega) (by omega) hsame.symm
  · intro hfull
    have heq : q.write_idx + 1 = q.read_idx + c.val := by omega
    rw [heq, Nat.add_mod_right]

theorem empty_iff {q : Queue T} (hinv : Inv c.val (c.val - 1) q) :
    q.read_idx % c.val = q.write_idx % c.val ↔ q.read_idx = q.write_idx := by
  have hle := hinv.le
  have hbound := hinv.bound
  have hpos := c.pos
  constructor
  · intro hsame
    by_contra hne
    exact slot_ne (by omega) (by omega) hsame
  · exact fun heq => heq ▸ rfl

variable {s next : RingSystem T} {q : Queue T}

theorem Simulates.full_iff (hsim : Simulates c s q) :
    next_head c s.ring.head_ = s.ring.tail_ ↔ q.write_idx - q.read_idx ≥ c.val - 1 := by
  rw [hsim.head_, hsim.tail_, next_head_mod, Audio.full_iff hsim.inv]

theorem Simulates.empty_iff (hsim : Simulates c s q) :
    s.ring.tail_ = s.ring.head_ ↔ q.read_idx = q.write_idx := by
  rw [hsim.head_, hsim.tail_, Audio.empty_iff hsim.inv]

/-- A step of the queue, which keeps its invariant. -/
theorem exists_step (hsim : Simulates c s q) (e : Event T) {q' : Queue T}
    (hstep : q.step c.val (c.val - 1) e = some q')
    (hnext : Inv c.val (c.val - 1) q' → Simulates c next q') :
    ∃ q', QueueStep c.val (c.val - 1) q q' ∧ Simulates c next q' :=
  ⟨q', ⟨e, hstep⟩, hnext (inv_step (Nat.sub_le _ _) hsim.inv hstep)⟩

theorem simulates_push (hsim : Simulates c s q) {value : T}
    (hstep : s.step c (.push value) = some next) :
    ∃ q', QueueStep c.val (c.val - 1) q q' ∧ Simulates c next q' := by
  cases hpush : s.push <;> simp only [RingSystem.step, hpush] at hstep
  case idle =>
    have hproducer := hsim.push
    rw [hpush] at hproducer
    have hproducer : q.producer = .idle := hproducer
    have hoffer : q.step c.val (c.val - 1) (.offer value) =
        some { q with producer := .offering value } := by
      simp only [Queue.step, hproducer]
    rw [← Option.some.inj hstep]
    exact exists_step hsim _ hoffer fun hinv =>
      ⟨hinv, hsim.head_, hsim.tail_, hsim.buffer_, ⟨rfl, rfl⟩, hsim.pop, hsim.pushed,
        hsim.popped⟩
  all_goals cases hstep

theorem simulates_loadTail (hsim : Simulates c s q) (hstep : s.step c .loadTail = some next) :
    ∃ q', QueueStep c.val (c.val - 1) q q' ∧ Simulates c next q' := by
  cases hpush : s.push <;> simp only [RingSystem.step, hpush] at hstep
  case loaded value i =>
    have hphase := hsim.push
    rw [hpush] at hphase
    obtain ⟨rfl, hproducer⟩ := hphase
    split at hstep
    · rename_i hfull
      have hrefuse : q.step c.val (c.val - 1) .compare =
          some { q with producer := .idle, offers := q.offers ++ [(value, false)] } := by
        simp only [Queue.step, hproducer, if_pos (hsim.full_iff.mp hfull)]
      rw [← Option.some.inj hstep]
      exact exists_step hsim _ hrefuse fun hinv =>
        ⟨hinv, hsim.head_, hsim.tail_, hsim.buffer_, rfl, hsim.pop,
          hsim.pushed.trans (Queue.pushed_append_refused q value .idle).symm, hsim.popped⟩
    · rename_i hroom
      have haccept : q.step c.val (c.val - 1) .compare =
          some { q with producer := .storing value } := by
        simp only [Queue.step, hproducer, if_neg (fun h => hroom (hsim.full_iff.mpr h))]
      rw [← Option.some.inj hstep]
      exact exists_step hsim _ haccept fun hinv =>
        ⟨hinv, hsim.head_, hsim.tail_, hsim.buffer_, ⟨rfl, rfl⟩, hsim.pop, hsim.pushed,
          hsim.popped⟩
  all_goals cases hstep

theorem simulates_copy (hsim : Simulates c s q) {part : T}
    (hstep : s.step c (.copy part) = some next) :
    ∃ q', QueueStep c.val (c.val - 1) q q' ∧ Simulates c next q' := by
  cases hpush : s.push <;> simp only [RingSystem.step, hpush] at hstep
  case checked value i =>
    have hphase := hsim.push
    rw [hpush] at hphase
    obtain ⟨rfl, hproducer⟩ := hphase
    have hsmear : q.step c.val (c.val - 1) (.smear part) =
        some { q with slots := Function.update q.slots (q.write_idx % c.val) part } := by
      simp only [Queue.step, hproducer]
    rw [← Option.some.inj hstep]
    refine exists_step hsim _ hsmear fun hinv =>
      ⟨hinv, hsim.head_, hsim.tail_, ?_, hpush ▸ hsim.push, hsim.pop, hsim.pushed, hsim.popped⟩
    rw [RingBuffer.write, hsim.buffer_, hsim.head_]
  all_goals cases hstep

theorem simulates_write (hsim : Simulates c s q) (hstep : s.step c .write = some next) :
    ∃ q', QueueStep c.val (c.val - 1) q q' ∧ Simulates c next q' := by
  cases hpush : s.push <;> simp only [RingSystem.step, hpush] at hstep
  case checked value i =>
    have hphase := hsim.push
    rw [hpush] at hphase
    obtain ⟨rfl, hproducer⟩ := hphase
    have hstore : q.step c.val (c.val - 1) .store =
        some { q with
          producer := .stored value
          slots := Function.update q.slots (q.write_idx % c.val) value } := by
      simp only [Queue.step, hproducer]
    rw [← Option.some.inj hstep]
    refine exists_step hsim _ hstore fun hinv =>
      ⟨hinv, hsim.head_, hsim.tail_, ?_, ⟨rfl, rfl⟩, hsim.pop, hsim.pushed, hsim.popped⟩
    rw [RingBuffer.write, hsim.buffer_, hsim.head_]
  all_goals cases hstep

theorem simulates_storeHead (hsim : Simulates c s q) (hstep : s.step c .storeHead = some next) :
    ∃ q', QueueStep c.val (c.val - 1) q q' ∧ Simulates c next q' := by
  cases hpush : s.push <;> simp only [RingSystem.step, hpush] at hstep
  case written value i =>
    have hphase := hsim.push
    rw [hpush] at hphase
    obtain ⟨rfl, hproducer⟩ := hphase
    have hpublish : q.step c.val (c.val - 1) .publish =
        some { q with
          producer := .idle
          write_idx := q.write_idx + 1
          offers := q.offers ++ [(value, true)] } := by
      simp only [Queue.step, hproducer]
    rw [← Option.some.inj hstep]
    refine exists_step hsim _ hpublish fun hinv =>
      ⟨hinv, ?_, hsim.tail_, hsim.buffer_, rfl, hsim.pop, ?_, hsim.popped⟩
    · show next_head c s.ring.head_ = (q.write_idx + 1) % c.val
      rw [hsim.head_, next_head_mod]
    · rw [Queue.pushed_append_published, hsim.pushed]
  all_goals cases hstep

theorem simulates_pop (hsim : Simulates c s q) (hstep : s.step c .pop = some next) :
    ∃ q', QueueStep c.val (c.val - 1) q q' ∧ Simulates c next q' := by
  cases hpop : s.pop <;> simp only [RingSystem.step, hpop] at hstep
  case idle =>
    have hconsumer := hsim.pop
    rw [hpop] at hconsumer
    have hconsumer : q.consumer = .idle := hconsumer
    have hstart : q.step c.val (c.val - 1) .start = some { q with consumer := .looking } := by
      simp only [Queue.step, hconsumer]
    rw [← Option.some.inj hstep]
    exact exists_step hsim _ hstart fun hinv =>
      ⟨hinv, hsim.head_, hsim.tail_, hsim.buffer_, hsim.push, ⟨rfl, rfl⟩, hsim.pushed, hsim.popped⟩
  all_goals cases hstep

theorem simulates_loadHead (hsim : Simulates c s q) (hstep : s.step c .loadHead = some next) :
    ∃ q', QueueStep c.val (c.val - 1) q q' ∧ Simulates c next q' := by
  cases hpop : s.pop <;> simp only [RingSystem.step, hpop] at hstep
  case loaded i =>
    have hphase := hsim.pop
    rw [hpop] at hphase
    obtain ⟨rfl, hconsumer⟩ := hphase
    split at hstep
    · rename_i hempty
      have hnothing : q.step c.val (c.val - 1) .look = some { q with consumer := .idle } := by
        simp only [Queue.step, hconsumer, if_pos (hsim.empty_iff.mp hempty)]
      rw [← Option.some.inj hstep]
      exact exists_step hsim _ hnothing fun hinv =>
        ⟨hinv, hsim.head_, hsim.tail_, hsim.buffer_, hsim.push, rfl, hsim.pushed, hsim.popped⟩
    · rename_i hsome
      have hne : q.read_idx ≠ q.write_idx := fun h => hsome (hsim.empty_iff.mpr h)
      have hlook : q.step c.val (c.val - 1) .look =
          some { q with consumer := .reading q.write_idx [] } := by
        simp only [Queue.step, hconsumer, if_neg hne]
      rw [← Option.some.inj hstep]
      exact exists_step hsim _ hlook fun hinv =>
        ⟨hinv, hsim.head_, hsim.tail_, hsim.buffer_, hsim.push,
          ⟨rfl, _, Nat.lt_of_le_of_ne hsim.inv.le hne, rfl⟩, hsim.pushed, hsim.popped⟩
  all_goals cases hstep

theorem simulates_read (hsim : Simulates c s q) (hstep : s.step c .read = some next) :
    ∃ q', QueueStep c.val (c.val - 1) q q' ∧ Simulates c next q' := by
  cases hpop : s.pop <;> simp only [RingSystem.step, hpop] at hstep
  case checked i =>
    have hphase := hsim.pop
    rw [hpop] at hphase
    obtain ⟨rfl, w, hlt, hconsumer⟩ := hphase
    have hread : q.step c.val (c.val - 1) .read =
        some { q with consumer := .reading w [q.slots (q.read_idx % c.val)] } := by
      simp only [Queue.step, hconsumer, List.length_nil, Nat.add_zero, if_pos hlt, List.nil_append]
    rw [← Option.some.inj hstep]
    refine exists_step hsim _ hread fun hinv =>
      ⟨hinv, hsim.head_, hsim.tail_, hsim.buffer_, hsim.push, ?_, hsim.pushed, hsim.popped⟩
    refine ⟨rfl, w, ?_⟩
    rw [hsim.buffer_, ← hsim.tail_]
  all_goals cases hstep

theorem simulates_storeTail (hsim : Simulates c s q) (hstep : s.step c .storeTail = some next) :
    ∃ q', QueueStep c.val (c.val - 1) q q' ∧ Simulates c next q' := by
  cases hpop : s.pop <;> simp only [RingSystem.step, hpop] at hstep
  case read i value =>
    have hphase := hsim.pop
    rw [hpop] at hphase
    obtain ⟨rfl, w, hconsumer⟩ := hphase
    have hrelease : q.step c.val (c.val - 1) .release =
        some { q with
          consumer := .idle
          read_idx := q.read_idx + 1
          popped := q.popped ++ [value] } := by
      simp only [Queue.step, hconsumer, List.length_singleton]
    rw [← Option.some.inj hstep]
    refine exists_step hsim _ hrelease fun hinv =>
      ⟨hinv, hsim.head_, ?_, hsim.buffer_, hsim.push, rfl, hsim.pushed, ?_⟩
    · show (s.ring.tail_ + 1) &&& c.mask_ = (q.read_idx + 1) % c.val
      rw [and_mask, hsim.tail_, Nat.mod_add_mod]
    · rw [hsim.popped]
  all_goals cases hstep

/-- Every step of the buffer is one of the queue. -/
theorem simulates_step (hsim : Simulates c s q) {e : RingEvent T}
    (hstep : s.step c e = some next) :
    ∃ q', QueueStep c.val (c.val - 1) q q' ∧ Simulates c next q' := by
  cases e with
  | push value => exact simulates_push hsim hstep
  | loadTail => exact simulates_loadTail hsim hstep
  | copy part => exact simulates_copy hsim hstep
  | write => exact simulates_write hsim hstep
  | storeHead => exact simulates_storeHead hsim hstep
  | pop => exact simulates_pop hsim hstep
  | loadHead => exact simulates_loadHead hsim hstep
  | read => exact simulates_read hsim hstep
  | storeTail => exact simulates_storeTail hsim hstep

theorem exists_simulates_of_run {zero : T} {events : List (RingEvent T)}
    (hrun : events.foldlM (RingSystem.step c) (RingSystem.init zero) = some s) :
    ∃ q, Simulates c s q := by
  have hreaches : Run.Reaches (fun s next => ∃ e, RingSystem.step c s e = some next)
      (RingSystem.init zero) s :=
    Run.Reaches.of_foldlM (fun _ e _ hstep => ⟨e, hstep⟩) hrun
  refine hreaches.invariant (P := fun s => ∃ q, Simulates c s q) ⟨_, simulates_init zero⟩ ?_
  rintro s next ⟨e, hstep⟩ ⟨q, hsim⟩
  obtain ⟨q', -, hnext⟩ := simulates_step hsim hstep
  exact ⟨q', hnext⟩

end Simulation

section Example

/-- Two slots, so that one value fits. -/
def capacityTwo : Capacity := ⟨2, by decide, by decide⟩

/-- A pop that begins before a push ends, and a push into the full buffer. -/
def crossedRun : List (RingEvent ℕ) :=
  [.push 7, .pop, .loadTail, .copy 1, .write, .storeHead, .push 8, .loadHead, .loadTail, .read,
    .storeTail]

end Example

end DawProject.Audio
