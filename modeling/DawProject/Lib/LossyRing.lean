import DawProject.Lib.Run
import Mathlib.Data.List.Basic
import Mathlib.Logic.Function.Basic

/-!
A bounded queue of one producer and one consumer in shared memory. An item is a
row of cells. A producer that finds the queue full takes the oldest item back by
advancing the consumer's index, and a consumer reads a slot first and then
claims it, by the same comparison and exchange of that index. Every load, store
and exchange is a step of its own, and the indices never wrap.
-/

namespace LossyRing

variable {β : Type*}

/-- Where the producer is in a push. -/
inductive Producer (β : Type*) where
  | idle
  /-- The write index is loaded. -/
  | loaded (item : List β) (w : ℕ)
  /-- Both indices are loaded. -/
  | compared (item : List β) (w r : ℕ)
  /-- The slot is free, and its first `j` cells are stored. -/
  | storing (item : List β) (w j : ℕ)
deriving DecidableEq, Repr

/-- Where the consumer is in a pop. -/
inductive Consumer (β : Type*) where
  | idle
  /-- The read index is loaded. -/
  | loaded (r : ℕ)
  /-- The slot is being read, cell by cell. -/
  | reading (r : ℕ) (buf : List β)
deriving DecidableEq, Repr

instance (p : Producer β) : Decidable (p = .idle) :=
  match p with
  | .idle => isTrue rfl
  | .loaded .. | .compared .. | .storing .. => isFalse nofun

instance (c : Consumer β) : Decidable (c = .idle) :=
  match c with
  | .idle => isTrue rfl
  | .loaded .. | .reading .. => isFalse nofun

/-- What became of an item. -/
inductive Fate (β : Type*) where
  | popped (buf : List β)
  /-- The number of items that had been offered by then. -/
  | dropped (offered : ℕ)
deriving DecidableEq, Repr

def Fate.popped? : Fate β → Option (List β)
  | .popped buf => some buf
  | .dropped _ => none

/-- The ring, with the items offered to the producer and what became of the
first `read_idx` of them. No step reads these two. -/
structure Queue (β : Type*) where
  read_idx : ℕ := 0
  write_idx : ℕ := 0
  cells : ℕ → ℕ → β
  producer : Producer β := .idle
  consumer : Consumer β := .idle
  offered : List (List β) := []
  fates : List (Fate β) := []

inductive Event (β : Type*) where
  /-- A push begins: the write index is loaded. -/
  | push (item : List β)
  | loadRead
  /-- The exchange, if the queue looked full. -/
  | makeRoom
  | store
  | publish
  /-- A pop begins: the read index is loaded. -/
  | load
  | check
  | read
  /-- The exchange. -/
  | claim
  /-- The consumer goes away. -/
  | abandon
deriving DecidableEq, Repr

/-- The item of a push that begins. -/
def Event.item? : Event β → Option (List β)
  | .push item => some item
  | _ => none

-- The capacity of the ring and the number of cells of an item.
variable (cap n : ℕ)

/-- The oldest item of a full queue is dropped by the exchange that is next. -/
def Queue.drops (s : Queue β) : Prop :=
  match s.producer with
  | .compared _ w r => w - r ≥ cap ∧ s.read_idx = r
  | _ => False

instance (s : Queue β) : Decidable (s.drops cap) := by
  unfold Queue.drops
  split <;> infer_instance

def Queue.step (s : Queue β) : Event β → Option (Queue β)
  | .push item =>
      match s.producer with
      | .idle =>
          if item.length = n then
            some { s with
              producer := .loaded item s.write_idx
              offered := s.offered ++ [item] }
          else none
      | _ => none
  | .loadRead =>
      match s.producer with
      | .loaded item w => some { s with producer := .compared item w s.read_idx }
      | _ => none
  | .makeRoom =>
      match s.producer with
      | .compared item w r =>
          if s.drops cap then
            some { s with
              producer := .storing item w 0
              read_idx := r + 1
              fates := s.fates ++ [.dropped s.offered.length] }
          else some { s with producer := .storing item w 0 }
      | _ => none
  | .store =>
      match s.producer with
      | .storing item w j =>
          match item[j]? with
          | some x =>
              some { s with
                producer := .storing item w (j + 1)
                cells := Function.update s.cells (w % cap)
                  (Function.update (s.cells (w % cap)) j x) }
          | none => none
      | _ => none
  | .publish =>
      match s.producer with
      | .storing item w j =>
          match item[j]? with
          | some _ => none
          | none => some { s with producer := .idle, write_idx := w + 1 }
      | _ => none
  | .load =>
      match s.consumer with
      | .idle => some { s with consumer := .loaded s.read_idx }
      | _ => none
  | .check =>
      match s.consumer with
      | .loaded r =>
          some { s with consumer := if r ≥ s.write_idx then .idle else .reading r [] }
      | _ => none
  | .read =>
      match s.consumer with
      | .reading r buf =>
          if buf.length < n then
            some { s with consumer := .reading r (buf ++ [s.cells (r % cap) buf.length]) }
          else none
      | _ => none
  | .claim =>
      match s.consumer with
      | .reading r buf =>
          if buf.length < n then none
          else if s.read_idx = r then
            some { s with
              consumer := .idle
              read_idx := r + 1
              fates := s.fates ++ [.popped buf] }
          else some { s with consumer := .idle }
      | _ => none
  | .abandon => some { s with consumer := .idle }

/-- An empty ring. -/
def Queue.empty (cells : ℕ → ℕ → β) : Queue β := { cells := cells }

def QueueStep (s next : Queue β) : Prop := ∃ e, s.step cap n e = some next

/-- What the consumer has been given, in this order. -/
def Queue.popped (s : Queue β) : List (List β) := s.fates.filterMap Fate.popped?

/-- The items that wait or are being pushed, the oldest first. -/
def Queue.pending (s : Queue β) : List (List β) := s.offered.drop s.read_idx

/-- The item of index `w` is being pushed. -/
def Queue.Pushing (s : Queue β) (item : List β) (w : ℕ) : Prop :=
  w = s.write_idx ∧ s.offered.length = w + 1 ∧ s.offered[w]? = some item

def Queue.ProducerOk (s : Queue β) : Producer β → Prop
  | .idle => s.offered.length = s.write_idx
  | .loaded item w => s.Pushing item w
  | .compared item w r => s.Pushing item w ∧ r ≤ s.read_idx ∧ w ≤ r + cap
  | .storing item w j =>
      s.Pushing item w ∧ w < s.read_idx + cap ∧
        ∀ i < j, ∀ x ∈ item[i]?, s.cells (w % cap) i = x

def Queue.ConsumerOk (s : Queue β) : Consumer β → Prop
  | .idle => True
  | .loaded r => r ≤ s.read_idx
  | .reading r buf =>
      r ≤ s.read_idx ∧ r < s.write_idx ∧
        (s.read_idx = r → ∃ item, s.offered[r]? = some item ∧ buf <+: item)

/-- A popped item is the one that was offered; one is dropped when as many newer
ones as the ring has slots have been offered. -/
def FateOk (s : Queue β) (k : ℕ) : Fate β → Prop
  | .popped buf => s.offered[k]? = some buf
  | .dropped offered => offered = k + 1 + cap

structure Inv (s : Queue β) : Prop where
  le : s.read_idx ≤ s.write_idx
  bound : s.write_idx ≤ s.read_idx + cap
  length : ∀ item ∈ s.offered, item.length = n
  stored : ∀ k item, s.read_idx ≤ k → k < s.write_idx → s.offered[k]? = some item →
    ∀ i, ∀ x ∈ item[i]?, s.cells (k % cap) i = x
  producer : s.ProducerOk cap s.producer
  consumer : s.ConsumerOk s.consumer
  decided : s.fates.length = s.read_idx
  fates : ∀ k, ∀ fate ∈ s.fates[k]?, FateOk cap s k fate

section Steps

variable {cap n : ℕ} {s next : Queue β}

theorem inv_empty (cells : ℕ → ℕ → β) : Inv cap n (Queue.empty cells) :=
  ⟨Nat.le_refl _, Nat.zero_le _, nofun, fun _ _ _ h => absurd h (Nat.not_lt_zero _), rfl,
    trivial, rfl, by simp [Queue.empty]⟩

/-- The slot of the item being stored is not that of a pending one. -/
theorem slot_ne {k w : ℕ} (hlt : k < w) (hroom : w < k + cap) : k % cap ≠ w % cap := by
  intro hsame
  have hzero : (w - k) % cap = 0 := Nat.sub_mod_eq_zero_of_mod_eq hsame.symm
  rw [Nat.mod_eq_of_lt (by omega)] at hzero
  omega

/-- The fates hold on when items are offered. -/
theorem FateOk.offer {k : ℕ} {fate : Fate β} (hfate : FateOk cap s k fate) (item : List β)
    {p : Producer β} :
    FateOk cap { s with producer := p, offered := s.offered ++ [item] } k fate := by
  cases fate with
  | popped buf =>
      obtain ⟨hlt, hget⟩ := List.getElem?_eq_some_iff.mp hfate
      show (s.offered ++ [item])[k]? = some buf
      rw [List.getElem?_append_left hlt]
      exact hfate
  | dropped offered => exact hfate

/-- One more fate. -/
theorem Inv.decide (hinv : Inv cap n s) {fate : Fate β} (hfate : FateOk cap s s.read_idx fate) :
    (s.fates ++ [fate]).length = s.read_idx + 1 ∧
      ∀ k, ∀ f ∈ (s.fates ++ [fate])[k]?, FateOk cap s k f := by
  have hlength : (s.fates ++ [fate]).length = s.read_idx + 1 := by
    rw [List.length_append, hinv.decided, List.length_singleton]
  refine ⟨hlength, ?_⟩
  intro k f hf
  rcases Nat.lt_or_ge k s.fates.length with hlt | hge
  · rw [List.getElem?_append_left hlt] at hf
    exact hinv.fates k f hf
  · obtain ⟨hk, -⟩ := List.getElem?_eq_some_iff.mp hf
    obtain rfl : k = s.read_idx := by
      have hdecided := hinv.decided
      omega
    rw [← hinv.decided, List.getElem?_concat_length] at hf
    rw [← Option.some.inj hf]
    exact hfate

theorem inv_push (hinv : Inv cap n s) (hidle : s.producer = .idle) {item : List β}
    (hitem : item.length = n) :
    Inv cap n
      { s with producer := .loaded item s.write_idx, offered := s.offered ++ [item] } := by
  have hproducer := hinv.producer
  rw [hidle] at hproducer
  have hlength : s.offered.length = s.write_idx := hproducer
  have hold : ∀ {k : ℕ} {x : List β}, k < s.write_idx →
      ((s.offered ++ [item])[k]? = some x ↔ s.offered[k]? = some x) := by
    intro k x hk
    rw [List.getElem?_append_left (hlength ▸ hk)]
  refine ⟨hinv.le, hinv.bound, ?_, ?_, ⟨rfl, ?_, ?_⟩, ?_, hinv.decided, ?_⟩
  · intro x hx
    rcases List.mem_append.mp hx with hx | hx
    · exact hinv.length x hx
    · rw [List.mem_singleton.mp hx, hitem]
  · intro k x hle hlt hget
    exact hinv.stored k x hle hlt ((hold hlt).mp hget)
  · rw [List.length_append, hlength, List.length_singleton]
  · dsimp only
    rw [← hlength, List.getElem?_concat_length]
  · have hconsumer := hinv.consumer
    dsimp only
    cases hstate : s.consumer with
    | idle => trivial
    | loaded r =>
        rw [hstate] at hconsumer
        exact hconsumer
    | reading r buf =>
        rw [hstate] at hconsumer
        obtain ⟨hle, hlt, hread⟩ := hconsumer
        refine ⟨hle, hlt, ?_⟩
        intro hcurrent
        obtain ⟨x, hx, hbuf⟩ := hread hcurrent
        exact ⟨x, (hold hlt).mpr hx, hbuf⟩
  · exact fun k fate hfate => (hinv.fates k fate hfate).offer item

/-- A step of the producer that changes nothing the consumer sees. -/
theorem inv_of_producer (hinv : Inv cap n s) {p : Producer β}
    (hproducer : s.ProducerOk cap p) : Inv cap n { s with producer := p } := by
  refine ⟨hinv.le, hinv.bound, hinv.length, hinv.stored, ?_, ?_, hinv.decided, hinv.fates⟩
  · cases p <;> exact hproducer
  · have hconsumer := hinv.consumer
    dsimp only
    cases hstate : s.consumer <;> rw [hstate] at hconsumer <;> exact hconsumer

/-- A step of the consumer that changes nothing the producer sees. -/
theorem inv_of_consumer (hinv : Inv cap n s) {c : Consumer β} (hconsumer : s.ConsumerOk c) :
    Inv cap n { s with consumer := c } := by
  refine ⟨hinv.le, hinv.bound, hinv.length, hinv.stored, ?_, ?_, hinv.decided, hinv.fates⟩
  · have hproducer := hinv.producer
    dsimp only
    cases hstate : s.producer <;> rw [hstate] at hproducer <;> exact hproducer
  · cases c <;> exact hconsumer

/-- The read index moves on, whichever side moves it. -/
theorem inv_advance (hinv : Inv cap n s) (hlt : s.read_idx < s.write_idx) {fate : Fate β}
    (hfate : FateOk cap s s.read_idx fate) :
    Inv cap n { s with read_idx := s.read_idx + 1, fates := s.fates ++ [fate] } := by
  obtain ⟨hdecided, hfates⟩ := hinv.decide hfate
  have hbound := hinv.bound
  refine ⟨hlt, by dsimp only; omega, hinv.length, ?_, ?_, ?_, hdecided, hfates⟩
  · intro k item hle hk hget
    exact hinv.stored k item (by dsimp only at hle; omega) hk hget
  · have hproducer := hinv.producer
    dsimp only
    cases hstate : s.producer with
    | idle =>
        rw [hstate] at hproducer
        exact hproducer
    | loaded item w =>
        rw [hstate] at hproducer
        exact hproducer
    | compared item w r =>
        rw [hstate] at hproducer
        exact ⟨hproducer.1, Nat.le_succ_of_le hproducer.2.1, hproducer.2.2⟩
    | storing item w j =>
        rw [hstate] at hproducer
        obtain ⟨hpushing, hroom, hcells⟩ := hproducer
        exact ⟨hpushing, by dsimp only; omega, hcells⟩
  · have hconsumer := hinv.consumer
    dsimp only
    cases hstate : s.consumer with
    | idle => trivial
    | loaded r =>
        rw [hstate] at hconsumer
        exact Nat.le_succ_of_le hconsumer
    | reading r buf =>
        rw [hstate] at hconsumer
        obtain ⟨hle, hr, -⟩ := hconsumer
        refine ⟨Nat.le_succ_of_le hle, hr, ?_⟩
        intro hcurrent
        dsimp only at hcurrent
        omega

/-- A cell of the slot being stored. -/
theorem inv_store (hinv : Inv cap n s) {item : List β} {w j : ℕ} {x : β}
    (hstate : s.producer = .storing item w j) (hx : item[j]? = some x) :
    Inv cap n
      { s with
        producer := .storing item w (j + 1)
        cells := Function.update s.cells (w % cap) (Function.update (s.cells (w % cap)) j x) } := by
  have hproducer := hinv.producer
  rw [hstate] at hproducer
  obtain ⟨hpushing, hroom, hcells⟩ := hproducer
  refine ⟨hinv.le, hinv.bound, hinv.length, ?_, ⟨hpushing, hroom, ?_⟩, ?_, hinv.decided,
    hinv.fates⟩
  · intro k old hle hk hget i y hy
    have hother : k % cap ≠ w % cap := by
      have hw := hpushing.1
      dsimp only at hle hk
      exact slot_ne (by omega) (by omega)
    dsimp only
    rw [Function.update_of_ne hother]
    exact hinv.stored k old hle hk hget i y hy
  · intro i hi y hy
    dsimp only
    rw [Function.update_self]
    rcases eq_or_ne i j with rfl | hne
    · rw [Function.update_self]
      exact Option.some.inj (hx.symm.trans hy)
    · rw [Function.update_of_ne hne]
      exact hcells i (by omega) y hy
  · have hconsumer := hinv.consumer
    dsimp only
    cases hstate : s.consumer <;> rw [hstate] at hconsumer <;> exact hconsumer

theorem inv_publish (hinv : Inv cap n s) {item : List β} {w j : ℕ}
    (hstate : s.producer = .storing item w j) (hend : item[j]? = none) :
    Inv cap n { s with producer := .idle, write_idx := w + 1 } := by
  have hproducer := hinv.producer
  rw [hstate] at hproducer
  obtain ⟨⟨rfl, hlength, hget⟩, hroom, hcells⟩ := hproducer
  refine ⟨Nat.le_succ_of_le hinv.le, hroom, hinv.length, ?_, hlength, ?_, hinv.decided,
    hinv.fates⟩
  · intro k old hle hk hold i x hx
    rcases Nat.lt_or_ge k s.write_idx with hlt | hge
    · exact hinv.stored k old hle hlt hold i x hx
    · obtain rfl : k = s.write_idx := by
        dsimp only at hk
        omega
      obtain rfl := Option.some.inj (hget.symm.trans hold)
      apply hcells i _ x hx
      obtain ⟨hi, -⟩ := List.getElem?_eq_some_iff.mp hx
      have hj := List.getElem?_eq_none_iff.mp hend
      omega
  · have hconsumer := hinv.consumer
    dsimp only
    cases hstate : s.consumer with
    | idle => trivial
    | loaded r =>
        rw [hstate] at hconsumer
        exact hconsumer
    | reading r buf =>
        rw [hstate] at hconsumer
        exact ⟨hconsumer.1, Nat.lt_succ_of_lt hconsumer.2.1, hconsumer.2.2⟩

theorem Inv.write_le_offered (hinv : Inv cap n s) : s.write_idx ≤ s.offered.length := by
  have hproducer := hinv.producer
  cases hp : s.producer <;> rw [hp] at hproducer
  · have hlength : s.offered.length = s.write_idx := hproducer
    omega
  · have hlength := hproducer.2.1
    have hw := hproducer.1
    omega
  · have hlength := hproducer.1.2.1
    have hw := hproducer.1.1
    omega
  · have hlength := hproducer.1.2.1
    have hw := hproducer.1.1
    omega

/-- What the consumer holds when its exchange succeeds is the item that waits. -/
theorem claimed (hinv : Inv cap n s) {r : ℕ} {buf : List β}
    (hstate : s.consumer = .reading r buf) (hfull : ¬buf.length < n) (hcurrent : s.read_idx = r) :
    s.read_idx < s.write_idx ∧ s.offered[s.read_idx]? = some buf := by
  have hconsumer := hinv.consumer
  rw [hstate] at hconsumer
  obtain ⟨-, hlt, hread⟩ := hconsumer
  obtain ⟨item, hget, hbuf⟩ := hread hcurrent
  have hitem := hinv.length item (List.mem_of_getElem? hget)
  rw [hbuf.eq_of_length_le (by omega), hcurrent]
  exact ⟨hlt, hget⟩

/-- The item that is dropped is the oldest of a full queue. -/
theorem dropped (hinv : Inv cap n s) {item : List β} {w r : ℕ}
    (hstate : s.producer = .compared item w r) (hdrops : w - r ≥ cap) (hcurrent : s.read_idx = r)
    (hcap : 0 < cap) :
    s.read_idx < s.write_idx ∧ s.offered.length = s.read_idx + 1 + cap := by
  have hproducer := hinv.producer
  rw [hstate] at hproducer
  obtain ⟨⟨hw, hlength, -⟩, -⟩ := hproducer
  have hbound := hinv.bound
  omega

theorem inv_of_step (hcap : 0 < cap) (hinv : Inv cap n s) {e : Event β}
    (hstep : s.step cap n e = some next) : Inv cap n next := by
  cases e with
  | push item =>
      simp only [Queue.step] at hstep
      split at hstep
      · rename_i hidle
        split at hstep
        · rename_i hitem
          obtain rfl := Option.some.inj hstep
          exact inv_push hinv hidle hitem
        · cases hstep
      · cases hstep
  | loadRead =>
      simp only [Queue.step] at hstep
      split at hstep
      · rename_i item w hstate
        obtain rfl := Option.some.inj hstep
        have hproducer := hinv.producer
        rw [hstate] at hproducer
        refine inv_of_producer hinv ⟨hproducer, Nat.le_refl _, ?_⟩
        rw [hproducer.1]
        exact hinv.bound
      · cases hstep
  | makeRoom =>
      simp only [Queue.step] at hstep
      split at hstep
      · rename_i item w r hstate
        have hproducer := hinv.producer
        rw [hstate] at hproducer
        obtain ⟨hpushing, hread, hloaded⟩ := hproducer
        split at hstep
        · rename_i hdrops
          obtain rfl := Option.some.inj hstep
          simp only [Queue.drops, hstate] at hdrops
          obtain ⟨hfull, rfl⟩ := hdrops
          obtain ⟨hlt, hoffered⟩ := dropped hinv hstate hfull rfl hcap
          have hfate : FateOk cap s s.read_idx (.dropped s.offered.length) := hoffered
          have hroomy := inv_advance hinv hlt hfate
          refine inv_of_producer hroomy ⟨hpushing, ?_, nofun⟩
          have hbound := hinv.bound
          have hw := hpushing.1
          dsimp only
          omega
        · rename_i hkeeps
          obtain rfl := Option.some.inj hstep
          refine inv_of_producer hinv ⟨hpushing, ?_, nofun⟩
          simp only [Queue.drops, hstate] at hkeeps
          have hbound := hinv.bound
          have hw := hpushing.1
          omega
      · cases hstep
  | store =>
      simp only [Queue.step] at hstep
      split at hstep
      · rename_i item w j hstate
        split at hstep
        · rename_i x hx
          obtain rfl := Option.some.inj hstep
          exact inv_store hinv hstate hx
        · cases hstep
      · cases hstep
  | publish =>
      simp only [Queue.step] at hstep
      split at hstep
      · rename_i item w j hstate
        split at hstep
        · cases hstep
        · rename_i hend
          obtain rfl := Option.some.inj hstep
          exact inv_publish hinv hstate hend
      · cases hstep
  | load =>
      simp only [Queue.step] at hstep
      split at hstep
      · obtain rfl := Option.some.inj hstep
        exact inv_of_consumer hinv (Nat.le_refl _)
      · cases hstep
  | check =>
      simp only [Queue.step] at hstep
      split at hstep
      · rename_i r hstate
        obtain rfl := Option.some.inj hstep
        have hconsumer := hinv.consumer
        rw [hstate] at hconsumer
        apply inv_of_consumer hinv
        split
        · trivial
        · rename_i hnonempty
          refine ⟨hconsumer, Nat.lt_of_not_le hnonempty, ?_⟩
          intro hcurrent
          have hlt : r < s.offered.length :=
            Nat.lt_of_lt_of_le (Nat.lt_of_not_le hnonempty) hinv.write_le_offered
          exact ⟨_, List.getElem?_eq_getElem hlt, List.nil_prefix⟩
      · cases hstep
  | read =>
      simp only [Queue.step] at hstep
      split at hstep
      · rename_i r buf hstate
        split at hstep
        · rename_i hshort
          obtain rfl := Option.some.inj hstep
          have hconsumer := hinv.consumer
          rw [hstate] at hconsumer
          obtain ⟨hle, hlt, hread⟩ := hconsumer
          refine inv_of_consumer hinv ⟨hle, hlt, ?_⟩
          intro hcurrent
          obtain ⟨item, hget, rest, rfl⟩ := hread hcurrent
          have hitem := hinv.length _ (List.mem_of_getElem? hget)
          cases rest with
          | nil =>
              rw [List.append_nil] at hitem
              omega
          | cons x rest =>
              have hx : s.cells (r % cap) buf.length = x := by
                apply hinv.stored r _ (Nat.le_of_eq hcurrent) hlt hget
                simp
              exact ⟨_, hget, rest, by rw [hx, List.append_assoc]; rfl⟩
        · cases hstep
      · cases hstep
  | claim =>
      simp only [Queue.step] at hstep
      split at hstep
      · rename_i r buf hstate
        split at hstep
        · cases hstep
        · rename_i hfull
          split at hstep
          · rename_i hcurrent
            obtain rfl := Option.some.inj hstep
            obtain ⟨hlt, hget⟩ := claimed hinv hstate hfull hcurrent
            have hfate : FateOk cap s s.read_idx (.popped buf) := hget
            rw [← hcurrent]
            exact inv_of_consumer (inv_advance hinv hlt hfate) trivial
          · obtain rfl := Option.some.inj hstep
            exact inv_of_consumer hinv trivial
      · cases hstep
  | abandon =>
      obtain rfl := Option.some.inj hstep
      exact inv_of_consumer hinv trivial

theorem inv_of_run (hcap : 0 < cap) {cells : ℕ → ℕ → β}
    (hrun : Run.Reaches (QueueStep cap n) (Queue.empty cells) s) : Inv cap n s := by
  apply Run.Reaches.invariant hrun (inv_empty cells)
  rintro a b ⟨e, hstep⟩ ha
  exact inv_of_step hcap ha hstep

/-- The consumer gets a subsequence of what was offered, in order. -/
theorem Inv.popped_sublist (hinv : Inv cap n s) : s.popped.Sublist s.offered := by
  have hsublist : ∀ (fates : List (Fate β)) (offered : List (List β)),
      (∀ (k : ℕ) (buf : List β), fates[k]? = some (.popped buf) → offered[k]? = some buf) →
      (fates.filterMap Fate.popped?).Sublist offered := by
    intro fates
    induction fates with
    | nil => exact fun offered _ => List.nil_sublist offered
    | cons fate fates ih =>
        intro offered hfates
        cases offered with
        | nil =>
            rw [List.filterMap_eq_nil_iff.mpr]
            intro x hx
            cases x with
            | popped buf =>
                obtain ⟨k, hk⟩ := List.mem_iff_getElem?.mp hx
                cases hfates k buf hk
            | dropped m => rfl
        | cons item offered =>
            have hrest := ih offered fun k buf hk => hfates (k + 1) buf hk
            cases fate with
            | popped buf =>
                obtain rfl := Option.some.inj (hfates 0 buf rfl)
                exact hrest.cons_cons _
            | dropped m => exact hrest.cons _
  apply hsublist
  intro k buf hk
  exact hinv.fates k _ hk

/-- What a step does to what was offered and decided: a push offers, an exchange
decides what becomes of the oldest item. -/
theorem step_cases {e : Event β} (hstep : s.step cap n e = some next) :
    next.offered = s.offered ++ e.item?.toList ∧
      (next.fates = s.fates ∧ next.read_idx = s.read_idx ∨
        (∃ buf, e = .claim ∧ s.consumer = .reading s.read_idx buf ∧ ¬buf.length < n ∧
          next.fates = s.fates ++ [.popped buf] ∧ next.read_idx = s.read_idx + 1) ∨
        (s.drops cap ∧ e = .makeRoom ∧ next.fates = s.fates ++ [.dropped s.offered.length] ∧
          next.read_idx = s.read_idx + 1)) := by
  cases e with
  | push item =>
      simp only [Queue.step] at hstep
      split at hstep
      · split at hstep
        · obtain rfl := Option.some.inj hstep
          exact ⟨rfl, Or.inl ⟨rfl, rfl⟩⟩
        · cases hstep
      · cases hstep
  | makeRoom =>
      simp only [Queue.step] at hstep
      split at hstep
      · rename_i item w r hstate
        split at hstep
        · rename_i hdrops
          obtain rfl := Option.some.inj hstep
          have hcurrent : s.read_idx = r := by
            simp only [Queue.drops, hstate] at hdrops
            exact hdrops.2
          refine ⟨(List.append_nil _).symm, Or.inr (Or.inr ⟨hdrops, rfl, rfl, ?_⟩)⟩
          rw [hcurrent]
        · obtain rfl := Option.some.inj hstep
          exact ⟨(List.append_nil _).symm, Or.inl ⟨rfl, rfl⟩⟩
      · cases hstep
  | claim =>
      simp only [Queue.step] at hstep
      split at hstep
      · rename_i r buf hstate
        split at hstep
        · cases hstep
        · rename_i hfull
          split at hstep
          · rename_i hcurrent
            obtain rfl := Option.some.inj hstep
            refine ⟨(List.append_nil _).symm, Or.inr (Or.inl ⟨buf, rfl, ?_, hfull, rfl, ?_⟩)⟩
            · rw [hcurrent, hstate]
            · rw [hcurrent]
          · obtain rfl := Option.some.inj hstep
            exact ⟨(List.append_nil _).symm, Or.inl ⟨rfl, rfl⟩⟩
      · cases hstep
  | store =>
      simp only [Queue.step] at hstep
      split at hstep
      · split at hstep
        · obtain rfl := Option.some.inj hstep
          exact ⟨(List.append_nil _).symm, Or.inl ⟨rfl, rfl⟩⟩
        · cases hstep
      · cases hstep
  | publish =>
      simp only [Queue.step] at hstep
      split at hstep
      · split at hstep
        · cases hstep
        · obtain rfl := Option.some.inj hstep
          exact ⟨(List.append_nil _).symm, Or.inl ⟨rfl, rfl⟩⟩
      · cases hstep
  | read =>
      simp only [Queue.step] at hstep
      split at hstep
      · split at hstep
        · obtain rfl := Option.some.inj hstep
          exact ⟨(List.append_nil _).symm, Or.inl ⟨rfl, rfl⟩⟩
        · cases hstep
      · cases hstep
  | loadRead | load | check =>
      simp only [Queue.step] at hstep
      split at hstep
      · obtain rfl := Option.some.inj hstep
        exact ⟨(List.append_nil _).symm, Or.inl ⟨rfl, rfl⟩⟩
      · cases hstep
  | abandon =>
      obtain rfl := Option.some.inj hstep
      exact ⟨(List.append_nil _).symm, Or.inl ⟨rfl, rfl⟩⟩

/-- When an item is dropped, as many newer ones as the ring has slots wait or are
being pushed. -/
theorem Inv.length_of_drops (hinv : Inv cap n s) (hdrops : s.drops cap) (hcap : 0 < cap) :
    s.offered.length = s.read_idx + 1 + cap := by
  unfold Queue.drops at hdrops
  split at hdrops
  · rename_i item w r hstate
    exact (dropped hinv hstate hdrops.1 hdrops.2 hcap).2
  · cases hdrops

theorem Queue.pending_of_advance {item : List β} (hget : s.offered[s.read_idx]? = some item)
    (hoffered : next.offered = s.offered) (hread : next.read_idx = s.read_idx + 1) :
    s.pending = item :: next.pending := by
  obtain ⟨hlt, rfl⟩ := List.getElem?_eq_some_iff.mp hget
  rw [Queue.pending, Queue.pending, hoffered, hread]
  exact List.drop_eq_getElem_cons hlt

/-- What a step does to the items that wait: a push adds one, an exchange takes
the oldest. -/
theorem Inv.pending_of_step (hinv : Inv cap n s) (hcap : 0 < cap) {e : Event β}
    (hstep : s.step cap n e = some next) :
    (next.pending = s.pending ++ e.item?.toList ∧ next.popped = s.popped) ∨
      (∃ buf, e = .claim ∧ s.pending = buf :: next.pending ∧ next.popped = s.popped ++ [buf]) ∨
      ∃ item, e = .makeRoom ∧ s.drops cap ∧ s.pending = item :: next.pending ∧
        next.popped = s.popped := by
  have hle : s.read_idx ≤ s.offered.length := Nat.le_trans hinv.le hinv.write_le_offered
  obtain ⟨hoffered, ⟨hfates, hread⟩ | ⟨buf, rfl, hstate, hfull, hfates, hread⟩ |
    ⟨hdrops, rfl, hfates, hread⟩⟩ := step_cases hstep
  · left
    constructor
    · rw [Queue.pending, Queue.pending, hoffered, hread, List.drop_append_of_le_length hle]
    · rw [Queue.popped, Queue.popped, hfates]
  · right
    left
    obtain ⟨-, hget⟩ := claimed hinv hstate hfull rfl
    have hsame : next.offered = s.offered := hoffered.trans (List.append_nil _)
    refine ⟨buf, rfl, Queue.pending_of_advance hget hsame hread, ?_⟩
    rw [Queue.popped, Queue.popped, hfates, List.filterMap_append]
    rfl
  · right
    right
    have hlt : s.read_idx < s.offered.length := by
      have hlength := hinv.length_of_drops hdrops hcap
      omega
    have hsame : next.offered = s.offered := hoffered.trans (List.append_nil _)
    refine ⟨_, rfl, hdrops,
      Queue.pending_of_advance (List.getElem?_eq_getElem hlt) hsame hread, ?_⟩
    rw [Queue.popped, Queue.popped, hfates, List.filterMap_append]
    exact List.append_nil _

end Steps

end LossyRing
