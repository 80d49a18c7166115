import DawProject.Lib.Run
import Mathlib.Data.List.Basic
import Mathlib.Logic.Function.Basic

/-!
A bounded queue of one producer and one consumer in shared memory, where a full
queue refuses the item that is offered. The producer compares the indices,
stores the item and publishes it; the consumer looks how far the queue goes,
reads from it and releases what it has read. Every load and every store is a
step of its own, and the indices never wrap.
-/

namespace SpscRing

variable {α : Type*}

/-- Where the producer is with an item. -/
inductive Producer (α : Type*) where
  | idle
  | offering (x : α)
  /-- There is room, and the slot is being written. -/
  | storing (x : α)
  | stored (x : α)
deriving DecidableEq, Repr

/-- Where the consumer is. -/
inductive Consumer (α : Type*) where
  | idle
  | looking
  /-- The items before the index `w` may be read. -/
  | reading (w : ℕ) (buf : List α)
deriving DecidableEq, Repr

/-- The queue, with the items offered so far, each with whether it was
published, and the items released so far. No step reads these two. -/
structure Queue (α : Type*) where
  read_idx : ℕ := 0
  write_idx : ℕ := 0
  slots : ℕ → α
  producer : Producer α := .idle
  consumer : Consumer α := .idle
  offers : List (α × Bool) := []
  popped : List α := []

/-- An empty queue. -/
def Queue.empty (slots : ℕ → α) : Queue α := { slots := slots }

/-- The items published so far. -/
def Queue.pushed (s : Queue α) : List α := (s.offers.filter Prod.snd).map Prod.fst

inductive Event (α : Type*) where
  | offer (x : α)
  /-- The consumer's index is loaded and compared. -/
  | compare
  /-- A part of the item is in the slot. -/
  | smear (x : α)
  | store
  | publish
  | start
  /-- The producer's index is loaded and compared. -/
  | look
  | read
  | release
deriving DecidableEq, Repr

-- The number of slots, and how many of them may be taken.
variable (cap limit : ℕ)

def Queue.step (s : Queue α) : Event α → Option (Queue α)
  | .offer x =>
      match s.producer with
      | .idle => some { s with producer := .offering x }
      | _ => none
  | .compare =>
      match s.producer with
      | .offering x =>
          if s.write_idx - s.read_idx ≥ limit then
            some { s with producer := .idle, offers := s.offers ++ [(x, false)] }
          else some { s with producer := .storing x }
      | _ => none
  | .smear y =>
      match s.producer with
      | .storing _ => some { s with slots := Function.update s.slots (s.write_idx % cap) y }
      | _ => none
  | .store =>
      match s.producer with
      | .storing x =>
          some { s with
            producer := .stored x
            slots := Function.update s.slots (s.write_idx % cap) x }
      | _ => none
  | .publish =>
      match s.producer with
      | .stored x =>
          some { s with
            producer := .idle
            write_idx := s.write_idx + 1
            offers := s.offers ++ [(x, true)] }
      | _ => none
  | .start =>
      match s.consumer with
      | .idle => some { s with consumer := .looking }
      | _ => none
  | .look =>
      match s.consumer with
      | .looking =>
          if s.read_idx = s.write_idx then some { s with consumer := .idle }
          else some { s with consumer := .reading s.write_idx [] }
      | _ => none
  | .read =>
      match s.consumer with
      | .reading w buf =>
          if s.read_idx + buf.length < w then
            some { s with
              consumer := .reading w (buf ++ [s.slots ((s.read_idx + buf.length) % cap)]) }
          else none
      | _ => none
  | .release =>
      match s.consumer with
      | .reading _ buf =>
          some { s with
            consumer := .idle
            read_idx := s.read_idx + buf.length
            popped := s.popped ++ buf }
      | _ => none

def QueueStep (s next : Queue α) : Prop := ∃ e, s.step cap limit e = some next

def Queue.ProducerOk (s : Queue α) : Producer α → Prop
  | .idle => True
  | .offering _ => True
  | .storing _ => s.write_idx < s.read_idx + limit
  | .stored x => s.write_idx < s.read_idx + limit ∧ s.slots (s.write_idx % cap) = x

def Queue.ConsumerOk (s : Queue α) : Consumer α → Prop
  | .idle => True
  | .looking => True
  | .reading w buf =>
      s.read_idx + buf.length ≤ w ∧ w ≤ s.write_idx ∧ buf <+: s.pushed.drop s.read_idx

structure Inv (s : Queue α) : Prop where
  le : s.read_idx ≤ s.write_idx
  bound : s.write_idx ≤ s.read_idx + limit
  length : s.pushed.length = s.write_idx
  stored : ∀ k x, s.read_idx ≤ k → s.pushed[k]? = some x → s.slots (k % cap) = x
  popped : s.popped = s.pushed.take s.read_idx
  producer : s.ProducerOk cap limit s.producer
  consumer : s.ConsumerOk s.consumer

section Steps

variable {cap limit : ℕ} {s next : Queue α} {x : α}

theorem inv_empty (slots : ℕ → α) : Inv cap limit (Queue.empty slots) :=
  ⟨Nat.le_refl _, Nat.zero_le _, rfl, nofun, rfl, trivial, trivial⟩

@[simp] theorem Queue.pushed_append_refused (s : Queue α) (x : α) (p : Producer α) :
    Queue.pushed { s with producer := p, offers := s.offers ++ [(x, false)] } = s.pushed := by
  simp [Queue.pushed]

@[simp] theorem Queue.pushed_append_published (s : Queue α) (x : α) (p : Producer α) (w : ℕ) :
    Queue.pushed { s with producer := p, write_idx := w, offers := s.offers ++ [(x, true)] } =
      s.pushed ++ [x] := by
  simp [Queue.pushed]

/-- The slot that is free is not that of an item that waits. -/
theorem slot_ne {k w : ℕ} (hlt : k < w) (hroom : w < k + cap) : k % cap ≠ w % cap := by
  intro hsame
  have hzero : (w - k) % cap = 0 := Nat.sub_mod_eq_zero_of_mod_eq hsame.symm
  rw [Nat.mod_eq_of_lt (by omega)] at hzero
  omega

theorem Queue.ConsumerOk.mono {c : Consumer α} (hconsumer : s.ConsumerOk c)
    (hread : next.read_idx = s.read_idx) (hwrite : s.write_idx ≤ next.write_idx)
    (hpushed : s.pushed <+: next.pushed) : next.ConsumerOk c := by
  cases c with
  | idle => trivial
  | looking => trivial
  | reading w buf =>
      obtain ⟨hlength, hw, hbuf⟩ := hconsumer
      refine ⟨hread ▸ hlength, Nat.le_trans hw hwrite, ?_⟩
      obtain ⟨more, hmore⟩ := hpushed
      rw [hread, ← hmore, List.drop_append]
      exact hbuf.trans (List.prefix_append _ _)

theorem Queue.ProducerOk.mono {p : Producer α} (hproducer : s.ProducerOk cap limit p)
    (hread : s.read_idx ≤ next.read_idx) (hwrite : next.write_idx = s.write_idx)
    (hslots : next.slots = s.slots) : next.ProducerOk cap limit p := by
  cases p with
  | idle => trivial
  | offering x => trivial
  | storing x =>
      have hroom : s.write_idx < s.read_idx + limit := hproducer
      show next.write_idx < next.read_idx + limit
      omega
  | stored x =>
      obtain ⟨hroom, hslot⟩ := hproducer
      refine ⟨by omega, ?_⟩
      rw [hwrite, hslots]
      exact hslot

/-- A step of the producer on its own. -/
theorem inv_of_producer (hinv : Inv cap limit s) {p : Producer α}
    (hproducer : s.ProducerOk cap limit p) : Inv cap limit { s with producer := p } :=
  ⟨hinv.le, hinv.bound, hinv.length, hinv.stored, hinv.popped,
    hproducer.mono (Nat.le_refl _) rfl rfl,
    hinv.consumer.mono rfl (Nat.le_refl _) List.prefix_rfl⟩

/-- A step of the consumer on its own. -/
theorem inv_of_consumer (hinv : Inv cap limit s) {c : Consumer α} (hconsumer : s.ConsumerOk c) :
    Inv cap limit { s with consumer := c } :=
  ⟨hinv.le, hinv.bound, hinv.length, hinv.stored, hinv.popped,
    hinv.producer.mono (Nat.le_refl _) rfl rfl,
    hconsumer.mono rfl (Nat.le_refl _) List.prefix_rfl⟩

/-- The free slot is written. -/
theorem inv_write (hlimit : limit ≤ cap) (hinv : Inv cap limit s)
    (hroom : s.write_idx < s.read_idx + limit) (y : α) {p : Producer α}
    (hproducer : Queue.ProducerOk cap limit
      { s with slots := Function.update s.slots (s.write_idx % cap) y } p) :
    Inv cap limit
      { s with producer := p, slots := Function.update s.slots (s.write_idx % cap) y } := by
  refine ⟨hinv.le, hinv.bound, hinv.length, ?_, hinv.popped,
    hproducer.mono (Nat.le_refl _) rfl rfl,
    hinv.consumer.mono rfl (Nat.le_refl _) List.prefix_rfl⟩
  intro k z hle hget
  have hlt : k < s.write_idx := by
    rw [← hinv.length]
    exact (List.getElem?_eq_some_iff.mp hget).1
  dsimp only at hle ⊢
  rw [Function.update_of_ne (slot_ne hlt (by omega))]
  exact hinv.stored k z hle hget

theorem inv_refuse (hinv : Inv cap limit s) (x : α) :
    Inv cap limit { s with producer := .idle, offers := s.offers ++ [(x, false)] } := by
  have hpushed := s.pushed_append_refused x .idle
  refine ⟨hinv.le, hinv.bound, ?_, ?_, ?_, trivial,
    hinv.consumer.mono rfl (Nat.le_refl _) (hpushed ▸ List.prefix_rfl)⟩
  · rw [hpushed]
    exact hinv.length
  · intro k y hle hget
    rw [hpushed] at hget
    exact hinv.stored k y hle hget
  · rw [hpushed]
    exact hinv.popped

theorem inv_publish (hinv : Inv cap limit s) (hstored : s.producer = .stored x) :
    Inv cap limit
      { s with
        producer := .idle
        write_idx := s.write_idx + 1
        offers := s.offers ++ [(x, true)] } := by
  have hproducer := hinv.producer
  rw [hstored] at hproducer
  obtain ⟨hroom, hslot⟩ := hproducer
  have hle := hinv.le
  have hpushed := s.pushed_append_published x .idle (s.write_idx + 1)
  refine ⟨by dsimp only; omega, by dsimp only; omega, ?_, ?_, ?_, trivial,
    hinv.consumer.mono rfl (Nat.le_succ _) (hpushed ▸ List.prefix_append _ _)⟩
  · rw [hpushed, List.length_append, hinv.length, List.length_singleton]
  · intro k y hk hget
    rw [hpushed] at hget
    rcases Nat.lt_or_ge k s.pushed.length with hlt | hge
    · rw [List.getElem?_append_left hlt] at hget
      exact hinv.stored k y hk hget
    · obtain ⟨hlt, -⟩ := List.getElem?_eq_some_iff.mp hget
      obtain rfl : k = s.pushed.length := by
        rw [List.length_append, List.length_singleton] at hlt
        omega
      rw [List.getElem?_concat_length] at hget
      rw [hinv.length, hslot]
      exact Option.some.inj hget
  · rw [hpushed, List.take_append_of_le_length (by rw [hinv.length]; exact hle)]
    exact hinv.popped

/-- One more item is read. -/
theorem consumerOk_read (hinv : Inv cap limit s) {w : ℕ} {buf : List α}
    (hreading : s.consumer = .reading w buf) (hlt : s.read_idx + buf.length < w) :
    s.ConsumerOk
      (.reading w (buf ++ [s.slots ((s.read_idx + buf.length) % cap)])) := by
  have hconsumer := hinv.consumer
  rw [hreading] at hconsumer
  obtain ⟨-, hw, hbuf⟩ := hconsumer
  have hmem : s.read_idx + buf.length < s.pushed.length := by
    rw [hinv.length]
    omega
  have hslot := hinv.stored (s.read_idx + buf.length) (s.pushed[s.read_idx + buf.length])
    (Nat.le_add_right _ _) (List.getElem?_eq_getElem hmem)
  refine ⟨by rw [List.length_append, List.length_singleton]; omega, hw, ?_⟩
  rw [hslot, List.prefix_iff_eq_take, List.length_append, List.length_singleton, List.take_add_one,
    ← List.prefix_iff_eq_take.mp hbuf, List.getElem?_drop, List.getElem?_eq_getElem hmem]
  rfl

theorem inv_release (hinv : Inv cap limit s) {w : ℕ} {buf : List α}
    (hreading : s.consumer = .reading w buf) :
    Inv cap limit
      { s with
        consumer := .idle
        read_idx := s.read_idx + buf.length
        popped := s.popped ++ buf } := by
  have hconsumer := hinv.consumer
  rw [hreading] at hconsumer
  obtain ⟨hlength, hw, hbuf⟩ := hconsumer
  have hbound := hinv.bound
  refine ⟨by dsimp only; omega, by dsimp only; omega, hinv.length, ?_, ?_, ?_, trivial⟩
  · intro k y hk hget
    exact hinv.stored k y (by dsimp only at hk; omega) hget
  · show s.popped ++ buf = s.pushed.take (s.read_idx + buf.length)
    rw [List.take_add, ← hinv.popped, ← List.prefix_iff_eq_take.mp hbuf]
  · exact hinv.producer.mono (Nat.le_add_right _ _) rfl rfl

theorem inv_step (hlimit : limit ≤ cap) (hinv : Inv cap limit s) {e : Event α}
    (hstep : s.step cap limit e = some next) : Inv cap limit next := by
  cases e with
  | offer x =>
      cases hproducer : s.producer <;> simp only [Queue.step, hproducer] at hstep
      case idle =>
        rw [← Option.some.inj hstep]
        exact inv_of_producer hinv trivial
      all_goals cases hstep
  | compare =>
      cases hproducer : s.producer <;> simp only [Queue.step, hproducer] at hstep
      case offering x =>
        split at hstep
        · rw [← Option.some.inj hstep]
          exact inv_refuse hinv x
        · rename_i hroom
          rw [← Option.some.inj hstep]
          have hle := hinv.le
          refine inv_of_producer hinv ?_
          show s.write_idx < s.read_idx + limit
          omega
      all_goals cases hstep
  | smear y =>
      cases hproducer : s.producer <;> simp only [Queue.step, hproducer] at hstep
      case storing x =>
        have hroom := hinv.producer
        rw [hproducer] at hroom
        have hwritten := inv_write hlimit hinv hroom y (p := .storing x) hroom
        rw [← Option.some.inj hstep, ← hproducer]
        exact hproducer ▸ hwritten
      all_goals cases hstep
  | store =>
      cases hproducer : s.producer <;> simp only [Queue.step, hproducer] at hstep
      case storing x =>
        have hroom := hinv.producer
        rw [hproducer] at hroom
        rw [← Option.some.inj hstep]
        exact inv_write hlimit hinv hroom x ⟨hroom, Function.update_self _ _ _⟩
      all_goals cases hstep
  | publish =>
      cases hproducer : s.producer <;> simp only [Queue.step, hproducer] at hstep
      case stored x =>
        rw [← Option.some.inj hstep]
        exact inv_publish hinv hproducer
      all_goals cases hstep
  | start =>
      cases hconsumer : s.consumer <;> simp only [Queue.step, hconsumer] at hstep
      case idle =>
        rw [← Option.some.inj hstep]
        exact inv_of_consumer hinv trivial
      all_goals cases hstep
  | look =>
      cases hconsumer : s.consumer <;> simp only [Queue.step, hconsumer] at hstep
      case looking =>
        split at hstep
        · rw [← Option.some.inj hstep]
          exact inv_of_consumer hinv trivial
        · rw [← Option.some.inj hstep]
          exact inv_of_consumer hinv ⟨hinv.le, Nat.le_refl _, List.nil_prefix⟩
      all_goals cases hstep
  | read =>
      cases hconsumer : s.consumer <;> simp only [Queue.step, hconsumer] at hstep
      case reading w buf =>
        split at hstep
        · rename_i hlt
          rw [← Option.some.inj hstep]
          exact inv_of_consumer hinv (consumerOk_read hinv hconsumer hlt)
        · cases hstep
      all_goals cases hstep
  | release =>
      cases hconsumer : s.consumer <;> simp only [Queue.step, hconsumer] at hstep
      case reading w buf =>
        rw [← Option.some.inj hstep]
        exact inv_release hinv hconsumer
      all_goals cases hstep

theorem inv_of_run (hlimit : limit ≤ cap) {slots : ℕ → α}
    (hrun : Run.Reaches (QueueStep cap limit) (Queue.empty slots) s) : Inv cap limit s :=
  hrun.invariant (inv_empty slots) fun _ _ ⟨_, hstep⟩ hinv => inv_step hlimit hinv hstep

/-- Only the free slot is written. -/
theorem slots_of_step {e : Event α} (hstep : s.step cap limit e = some next) :
    next.slots = s.slots ∨
      ∃ x y, s.producer = .storing x ∧
        next.slots = Function.update s.slots (s.write_idx % cap) y := by
  cases e with
  | offer _ | compare | publish =>
      left
      cases hproducer : s.producer <;> simp only [Queue.step, hproducer] at hstep
      all_goals
        first
        | cases hstep; done
        | rw [← Option.some.inj hstep]
        | split at hstep <;> rw [← Option.some.inj hstep]
  | smear y =>
      cases hproducer : s.producer <;> simp only [Queue.step, hproducer] at hstep
      case storing x => exact Or.inr ⟨x, y, rfl, by rw [← Option.some.inj hstep]⟩
      all_goals cases hstep
  | store =>
      cases hproducer : s.producer <;> simp only [Queue.step, hproducer] at hstep
      case storing x => exact Or.inr ⟨x, x, rfl, by rw [← Option.some.inj hstep]⟩
      all_goals cases hstep
  | start | look | read | release =>
      left
      cases hconsumer : s.consumer <;> simp only [Queue.step, hconsumer] at hstep
      all_goals
        first
        | cases hstep; done
        | rw [← Option.some.inj hstep]
        | split at hstep <;> first | cases hstep; done | rw [← Option.some.inj hstep]

/-- What waits in its slot stays there. -/
theorem Inv.slot_of_step (hlimit : limit ≤ cap) (hinv : Inv cap limit s) {e : Event α}
    (hstep : s.step cap limit e = some next) {k : ℕ} (hle : s.read_idx ≤ k)
    (hlt : k < s.write_idx) : next.slots (k % cap) = s.slots (k % cap) := by
  rcases slots_of_step hstep with hsame | ⟨x, y, hstoring, hwritten⟩
  · rw [hsame]
  · have hroom := hinv.producer
    rw [hstoring] at hroom
    have hroom : s.write_idx < s.read_idx + limit := hroom
    rw [hwritten, Function.update_of_ne (slot_ne hlt (by omega))]

/-- What is released is what was published, in this order. -/
theorem Inv.popped_prefix (hinv : Inv cap limit s) : s.popped <+: s.pushed := by
  rw [hinv.popped]
  exact List.take_prefix _ _

theorem Inv.popped_length (hinv : Inv cap limit s) : s.popped.length = s.read_idx := by
  have hle := hinv.le
  rw [hinv.popped, List.length_take, hinv.length]
  omega

theorem Inv.pending_le (hinv : Inv cap limit s) : s.pushed.length ≤ s.popped.length + limit := by
  rw [hinv.length, hinv.popped_length]
  exact hinv.bound

/-- The comparison fails only on a full queue. -/
theorem Inv.pending_of_refused (hinv : Inv cap limit s)
    (hfull : s.write_idx - s.read_idx ≥ limit) : s.pushed.length = s.popped.length + limit := by
  have hle := hinv.le
  have hbound := hinv.bound
  rw [hinv.length, hinv.popped_length]
  omega

/-- The look fails only on an empty queue. -/
theorem Inv.popped_of_empty (hinv : Inv cap limit s) (hempty : s.read_idx = s.write_idx) :
    s.popped = s.pushed := by
  rw [hinv.popped, hempty, ← hinv.length, List.take_length]

end Steps

end SpscRing
