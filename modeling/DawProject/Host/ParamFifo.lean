import DawProject.Host.MidiFifo
import DawProject.Lib.LastFor
import Mathlib.Data.Nat.Basic

/-!
The parameters of a plugin: `setParam` and `restartChild` of
`engine/src/host/plugin_bridge.cpp`, and the drain of
`engine/src/host/plugin_host_main.cpp`. The pairs travel through the lossy ring,
and a restart replays the last value of every parameter.
-/

namespace DawProject.Host

open LossyRing (Queue)
open LastFor (lastFor assign)

def kParamQueueSlots : Nat := 64

-- Parameter ids and values.
variable {P V : Type}

/-- A cell of a slot: `param_ids` or `param_values`. -/
inductive ParamCell (P V : Type) where
  | id (p : P)
  | value (v : V)
deriving DecidableEq, Repr

/-- What a push stores of a pair. -/
def pairCells (pair : P × V) : List (ParamCell P V) := [.id pair.1, .value pair.2]

def ofCells : List (ParamCell P V) → Option (P × V)
  | [.id p, .value v] => some (p, v)
  | _ => none

def kParamFields : Nat := 2

/-- The bridge and the child. `sets` holds the calls of `setParam`; no step reads
it. -/
structure ParamBridge (P V : Type) where
  ring : Queue (ParamCell P V)
  last_params : List (P × V) := []
  /-- What `restartChild` has still to replay, while it runs. -/
  replay : List (P × V) := []
  restarting : Bool := false
  alive : Bool := true
  /-- The pairs drained for the next call of `process()`. -/
  param_changes : List (P × V) := []
  /-- What the plugin has been given since the child was spawned. -/
  received : P → Option V := fun _ => none
  sets : List (P × V) := []

/-- A bridge that has just started, on whatever the segment holds. -/
def ParamBridge.start (cells : Nat → Nat → ParamCell P V) : ParamBridge P V where
  ring := Queue.empty cells

inductive ParamStep (P V : Type) where
  /-- `setParam` begins. -/
  | setParam (p : P) (v : V)
  /-- The other steps of a push. -/
  | producer (e : LossyRing.Event (ParamCell P V))
  /-- The steps of the drain. -/
  | consumer (e : LossyRing.Event (ParamCell P V))
  | process
  | die
  | restart
  | replayNext
  /-- The spawn of `restartChild`, which can fail. -/
  | spawn (ok : Bool)
deriving DecidableEq, Repr

/-- The steps of a push after its beginning. -/
def isProducer : LossyRing.Event (ParamCell P V) → Bool
  | .loadRead | .makeRoom | .store | .publish => true
  | _ => false

/-- The steps of a pop. -/
def isConsumer : LossyRing.Event (ParamCell P V) → Bool
  | .load | .check | .read | .claim => true
  | _ => false

theorem item_of_isProducer {e : LossyRing.Event (ParamCell P V)} (h : isProducer e = true) :
    e.item? = none := by
  cases e with
  | push item => cases h
  | _ => rfl

theorem item_of_isConsumer {e : LossyRing.Event (ParamCell P V)} (h : isConsumer e = true) :
    e.item? = none := by
  cases e with
  | push item => cases h
  | _ => rfl

namespace ParamBridge

variable [LinearOrder P]

/-- The beginning of a push. -/
def push (p : P) (v : V) (s : ParamBridge P V) : Option (ParamBridge P V) :=
  (s.ring.step kParamQueueSlots kParamFields (.push (pairCells (p, v)))).map fun ring =>
    { s with ring := ring, last_params := assign p v s.last_params }

def step (s : ParamBridge P V) : ParamStep P V → Option (ParamBridge P V)
  | .setParam p v =>
      if s.restarting then none
      else (s.push p v).map fun next => { next with sets := s.sets ++ [(p, v)] }
  | .producer e =>
      if isProducer e then
        (s.ring.step kParamQueueSlots kParamFields e).map fun ring => { s with ring := ring }
      else none
  | .consumer e =>
      if isConsumer e ∧ s.alive then
        (s.ring.step kParamQueueSlots kParamFields e).map fun ring =>
          { s with
            ring := ring
            param_changes := s.param_changes ++
              (ring.popped.drop s.ring.popped.length).filterMap ofCells }
      else none
  | .process =>
      if s.alive ∧ s.ring.consumer = .idle then
        some { s with
          received := s.param_changes.foldl
            (fun received pair => Function.update received pair.1 (some pair.2)) s.received
          param_changes := [] }
      else none
  | .die =>
      if s.alive then
        (s.ring.step kParamQueueSlots kParamFields .abandon).map fun ring =>
          { s with ring := ring, alive := false, param_changes := [], received := fun _ => none }
      else none
  | .restart =>
      if s.alive = false ∧ s.restarting = false ∧ s.ring.producer = .idle then
        some { s with restarting := true, replay := s.last_params }
      else none
  | .replayNext =>
      if s.restarting then
        match s.replay with
        | (p, v) :: rest => (s.push p v).map fun next => { next with replay := rest }
        | [] => none
      else none
  | .spawn ok =>
      if s.restarting ∧ s.replay = [] ∧ s.ring.producer = .idle then
        some { s with restarting := false, alive := ok }
      else none

/-- The pairs that wait or are being pushed. -/
def pending (s : ParamBridge P V) : List (P × V) := s.ring.pending.filterMap ofCells

/-- The value of a parameter that the plugin has after the next `process()`. -/
def given (s : ParamBridge P V) (p : P) : Option V :=
  (lastFor p s.param_changes).or (s.received p)

/-- Every pair pushed has reached the plugin that runs. -/
def Settled (s : ParamBridge P V) : Prop :=
  s.alive = true ∧ s.ring.producer = .idle ∧ s.ring.read_idx = s.ring.write_idx ∧
    s.param_changes = []

instance [DecidableEq P] [DecidableEq V] (s : ParamBridge P V) : Decidable s.Settled :=
  inferInstanceAs (Decidable (_ ∧ _ ∧ _ ∧ _))

/-- The plugin has been given the last value set for every parameter. -/
def Delivered (s : ParamBridge P V) : Prop :=
  ∀ p v, lastFor p s.sets = some v → s.received p = some v

end ParamBridge

/-- A pair that a full queue drops has a newer one of its parameter in the queue,
or is to be replayed by the restart, or has the value that the plugin has. What a
dead child misses, its restart replays. -/
def ParamStep.Clean [LinearOrder P] (s : ParamBridge P V) : ParamStep P V → Prop
  | .producer .makeRoom =>
      s.ring.drops kParamQueueSlots → (s.alive = false ∧ s.restarting = false) ∨
        ∀ pair ∈ s.pending.head?, pair.1 ∈ s.replay.map Prod.fst ∨
          pair.1 ∈ s.pending.tail.map Prod.fst ∨ s.given pair.1 = some pair.2
  | _ => True

instance [LinearOrder P] [DecidableEq V] (s : ParamBridge P V) (e : ParamStep P V) :
    Decidable (e.Clean s) := by
  unfold ParamStep.Clean
  split <;> infer_instance

def ParamBridgeStep [LinearOrder P] (s next : ParamBridge P V) : Prop :=
  ∃ e, s.step e = some next

def CleanParamStep [LinearOrder P] (s next : ParamBridge P V) : Prop :=
  ∃ e : ParamStep P V, e.Clean s ∧ s.step e = some next

section Run

variable [LinearOrder P] {s next : ParamBridge P V}

/-- The last value set is on its way to the plugin, or has reached it, or waits
for a restart. -/
def Covered (s : ParamBridge P V) (p : P) (v : V) : Prop :=
  (s.alive = false ∧ s.restarting = false) ∨ (p, v) ∈ s.replay ∨
    (lastFor p s.pending).or (s.given p) = some v

structure ParamBridgeInv (s : ParamBridge P V) : Prop where
  ring : LossyRing.Inv kParamQueueSlots kParamFields s.ring
  pairs : ∀ item ∈ s.ring.offered, ∃ pair, item = pairCells pair
  table : LastFor.Table s.last_params
  last : ∀ p v, (p, v) ∈ s.last_params ↔ lastFor p s.sets = some v
  restarting : s.restarting = true → s.alive = false
  dead : s.alive = false → s.param_changes = [] ∧ ∀ p, s.received p = none
  replay : ∀ pair ∈ s.replay, s.restarting = true ∧ pair ∈ s.last_params
  covered : ∀ p v, (p, v) ∈ s.last_params → Covered s p v

theorem paramBridgeInv_start (cells : Nat → Nat → ParamCell P V) :
    ParamBridgeInv (ParamBridge.start cells) := by
  refine ⟨LossyRing.inv_empty cells, nofun, List.Pairwise.nil, ?_, nofun, nofun, nofun, nofun⟩
  intro p v
  simp [ParamBridge.start]

/-- What a step of the ring alone does to the pairs: the claim takes the oldest to
the plugin, the drop loses it. -/
theorem pairs_of_ringStep (hinv : ParamBridgeInv s) {e : LossyRing.Event (ParamCell P V)}
    {ring : Queue (ParamCell P V)} (hitem : e.item? = none)
    (hstep : s.ring.step kParamQueueSlots kParamFields e = some ring) :
    ring.offered = s.ring.offered ∧
    ((ring.pending = s.ring.pending ∧ ring.popped = s.ring.popped) ∨
      (∃ pair, e = .claim ∧ s.ring.pending = pairCells pair :: ring.pending ∧
        ring.popped = s.ring.popped ++ [pairCells pair]) ∨
      ∃ pair, e = .makeRoom ∧ s.ring.drops kParamQueueSlots ∧
        s.ring.pending = pairCells pair :: ring.pending ∧ ring.popped = s.ring.popped) := by
  have hoffered := (LossyRing.step_cases hstep).1
  rw [hitem] at hoffered
  refine ⟨hoffered.trans (List.append_nil _), ?_⟩
  have hpair : ∀ {item : List (ParamCell P V)} {rest : List (List (ParamCell P V))},
      s.ring.pending = item :: rest → ∃ pair, item = pairCells pair := by
    intro item rest hpending
    apply hinv.pairs
    apply List.mem_of_mem_drop (i := s.ring.read_idx)
    rw [← LossyRing.Queue.pending, hpending]
    exact List.mem_cons_self
  rcases hinv.ring.pending_of_step (by decide) hstep with ⟨hpending, hpopped⟩ |
    ⟨buf, rfl, hpending, hpopped⟩ | ⟨item, rfl, hdrops, hpending, hpopped⟩
  · left
    rw [hitem] at hpending
    exact ⟨hpending.trans (List.append_nil _), hpopped⟩
  · right
    left
    obtain ⟨pair, rfl⟩ := hpair hpending
    exact ⟨pair, rfl, hpending, hpopped⟩
  · right
    right
    obtain ⟨pair, rfl⟩ := hpair hpending
    exact ⟨pair, rfl, hdrops, hpending, hpopped⟩

/-- What the beginning of a push does. -/
theorem push_cases (hinv : ParamBridgeInv s) {p : P} {v : V} (hpush : s.push p v = some next) :
    ∃ ring, next = { s with ring := ring, last_params := assign p v s.last_params } ∧
      LossyRing.Inv kParamQueueSlots kParamFields ring ∧
      (∀ item ∈ ring.offered, ∃ pair, item = pairCells pair) ∧
      next.pending = s.pending ++ [(p, v)] := by
  obtain ⟨ring, hstep, rfl⟩ := Option.map_eq_some_iff.mp hpush
  have hoffered := (LossyRing.step_cases hstep).1
  refine ⟨ring, rfl, LossyRing.inv_of_step (by decide) hinv.ring hstep, ?_, ?_⟩
  · intro item hitem
    rw [hoffered] at hitem
    rcases List.mem_append.mp hitem with hitem | hitem
    · exact hinv.pairs item hitem
    · exact ⟨(p, v), List.mem_singleton.mp hitem⟩
  · rcases hinv.ring.pending_of_step (by decide) hstep with ⟨hpending, -⟩ |
      ⟨buf, hclaim, -⟩ | ⟨item, hroom, -⟩
    · rw [ParamBridge.pending, hpending, List.filterMap_append]
      rfl
    · cases hclaim
    · cases hroom

/-- The newest pair of its parameter is on its way; the others stay as they
were. -/
theorem covered_push {p p' : P} {v v' : V} (hpending : next.pending = s.pending ++ [(p, v)])
    (hgiven : next.given p' = s.given p')
    (h : (p' = p ∧ v' = v) ∨ (p' ≠ p ∧ (lastFor p' s.pending).or (s.given p') = some v')) :
    (lastFor p' next.pending).or (next.given p') = some v' := by
  rw [hpending, hgiven, LastFor.lastFor_append, LastFor.lastFor_singleton]
  rcases h with ⟨rfl, rfl⟩ | ⟨hne, h⟩
  · rw [if_pos rfl, Option.some_or, Option.some_or]
  · rw [if_neg (Ne.symm hne), Option.none_or]
    exact h

theorem inv_setParam (hinv : ParamBridgeInv s) {p : P} {v : V}
    (hstep : s.step (.setParam p v) = some next) : ParamBridgeInv next := by
  simp only [ParamBridge.step] at hstep
  split at hstep
  · cases hstep
  · rename_i hidle
    obtain ⟨mid, hpush, rfl⟩ := Option.map_eq_some_iff.mp hstep
    obtain ⟨ring, rfl, hring, hpairs, hpending⟩ := push_cases hinv hpush
    refine ⟨hring, hpairs, hinv.table.assign, ?_, hinv.restarting, hinv.dead, ?_, ?_⟩
    · intro p' v'
      dsimp only
      rw [LastFor.mem_assign hinv.table, LastFor.lastFor_append, LastFor.lastFor_singleton,
        hinv.last]
      by_cases hp : p = p'
      · subst hp
        rw [if_pos rfl, Option.some_or, Option.some_inj]
        constructor
        · rintro (⟨-, rfl⟩ | ⟨hne, -⟩)
          · rfl
          · exact absurd rfl hne
        · rintro rfl
          exact Or.inl ⟨rfl, rfl⟩
      · rw [if_neg hp, Option.none_or]
        constructor
        · rintro (⟨rfl, -⟩ | ⟨-, hlast⟩)
          · exact absurd rfl hp
          · exact hlast
        · exact fun hlast => Or.inr ⟨Ne.symm hp, hlast⟩
    · intro pair hpair
      exact absurd (hinv.replay pair hpair).1 hidle
    · intro p' v' hmem
      rcases (LastFor.mem_assign hinv.table).mp hmem with hnew | ⟨hne, hmem⟩
      · exact Or.inr (Or.inr (covered_push hpending rfl (Or.inl hnew)))
      · rcases hinv.covered p' v' hmem with hdead | hreplay | hgiven
        · exact Or.inl hdead
        · exact absurd (hinv.replay _ hreplay).1 hidle
        · exact Or.inr (Or.inr (covered_push hpending rfl (Or.inr ⟨hne, hgiven⟩)))

/-- Replaying a value of the table changes nothing in the table. -/
theorem mem_assign_replayed (hinv : ParamBridgeInv s) {p p' : P} {v v' : V}
    (hmem : (p, v) ∈ s.last_params) :
    (p', v') ∈ assign p v s.last_params ↔ (p', v') ∈ s.last_params := by
  rw [LastFor.mem_assign hinv.table]
  constructor
  · rintro (⟨rfl, rfl⟩ | ⟨-, h⟩)
    · exact hmem
    · exact h
  · intro h
    by_cases hp : p' = p
    · subst hp
      exact Or.inl ⟨rfl, hinv.table.unique h hmem⟩
    · exact Or.inr ⟨hp, h⟩

theorem inv_replayNext (hinv : ParamBridgeInv s) (hstep : s.step .replayNext = some next) :
    ParamBridgeInv next := by
  simp only [ParamBridge.step] at hstep
  split at hstep
  · rename_i hrestarting
    split at hstep
    · rename_i p v rest hreplay
      have hmem : (p, v) ∈ s.last_params :=
        (hinv.replay _ (hreplay ▸ List.mem_cons_self)).2
      obtain ⟨mid, hpush, rfl⟩ := Option.map_eq_some_iff.mp hstep
      obtain ⟨ring, rfl, hring, hpairs, hpending⟩ := push_cases hinv hpush
      refine ⟨hring, hpairs, hinv.table.assign, ?_, hinv.restarting, hinv.dead, ?_, ?_⟩
      · intro p' v'
        rw [← hinv.last]
        exact mem_assign_replayed hinv hmem
      · intro pair hpair
        refine ⟨hrestarting, (mem_assign_replayed hinv hmem).mpr ?_⟩
        exact (hinv.replay pair (hreplay ▸ List.mem_cons_of_mem _ hpair)).2
      · intro p' v' hassigned
        have hmem' := (mem_assign_replayed hinv hmem).mp hassigned
        by_cases hp : p' = p
        · subst hp
          right
          right
          exact covered_push hpending rfl (Or.inl ⟨rfl, hinv.table.unique hmem' hmem⟩)
        · rcases hinv.covered p' v' hmem' with hdead | hwaits | hgiven
          · exact Or.inl hdead
          · rw [hreplay] at hwaits
            rcases List.mem_cons.mp hwaits with heq | hwaits
            · exact absurd (congrArg Prod.fst heq) hp
            · exact Or.inr (Or.inl hwaits)
          · exact Or.inr (Or.inr (covered_push hpending rfl (Or.inr ⟨hp, hgiven⟩)))
    · cases hstep
  · cases hstep

/-- A step of the ring that leaves the pairs and the child as they are. -/
theorem inv_of_ring (hinv : ParamBridgeInv s) {ring : Queue (ParamCell P V)}
    (hring : LossyRing.Inv kParamQueueSlots kParamFields ring)
    (hoffered : ring.offered = s.ring.offered) {changes : List (P × V)}
    (hdead : s.alive = false → changes = [])
    (hcovered : ∀ p v, (p, v) ∈ s.last_params → Covered s p v →
      Covered { s with ring := ring, param_changes := changes } p v) :
    ParamBridgeInv { s with ring := ring, param_changes := changes } := by
  refine ⟨hring, ?_, hinv.table, hinv.last, hinv.restarting, ?_, hinv.replay, ?_⟩
  · rw [hoffered]
    exact hinv.pairs
  · exact fun hchild => ⟨hdead hchild, (hinv.dead hchild).2⟩
  · exact fun p v hmem => hcovered p v hmem (hinv.covered p v hmem)

theorem inv_producer (hinv : ParamBridgeInv s) {e : LossyRing.Event (ParamCell P V)}
    (hclean : ParamStep.Clean s (.producer e)) (hstep : s.step (.producer e) = some next) :
    ParamBridgeInv next := by
  simp only [ParamBridge.step] at hstep
  split at hstep
  · rename_i hproducer
    obtain ⟨ring, hring, rfl⟩ := Option.map_eq_some_iff.mp hstep
    have hitem := item_of_isProducer hproducer
    obtain ⟨hoffered, hpairs⟩ := pairs_of_ringStep hinv hitem hring
    apply inv_of_ring hinv (LossyRing.inv_of_step (by decide) hinv.ring hring) hoffered
      (fun hchild => (hinv.dead hchild).1)
    rintro p v hmem (hdead | hreplay | hgiven)
    · exact Or.inl hdead
    · exact Or.inr (Or.inl hreplay)
    · rcases hpairs with ⟨hpending, -⟩ | ⟨pair, rfl, -⟩ | ⟨⟨p', v'⟩, rfl, hdrops, hpending, -⟩
      · right
        right
        rw [ParamBridge.pending, hpending]
        exact hgiven
      · cases hproducer
      · -- The pair that is dropped is the head of `pending`.
        have hhead : s.pending = (p', v') :: ring.pending.filterMap ofCells := by
          rw [ParamBridge.pending, hpending]
          rfl
        rw [hhead] at hgiven
        rcases hclean hdrops with hdead | hclean
        · exact Or.inl hdead
        · rw [hhead] at hclean
          rcases hclean (p', v') rfl with hreplay | hnewer | hsame
          · by_cases hp : p' = p
            · subst hp
              obtain ⟨⟨p'', u⟩, hu, rfl⟩ := List.mem_map.mp hreplay
              right
              left
              rw [hinv.table.unique hmem (hinv.replay _ hu).2]
              exact hu
            · right
              right
              rw [LastFor.lastFor_cons_of_mem (Or.inl hp)] at hgiven
              exact hgiven
          · right
            right
            rw [LastFor.lastFor_cons_of_mem (l := ring.pending.filterMap ofCells)
              (Or.inr hnewer)] at hgiven
            exact hgiven
          · right
            right
            rw [LastFor.lastFor, Option.or_assoc] at hgiven
            by_cases hp : p' = p
            · subst hp
              rw [if_pos rfl, Option.some_or, ← hsame] at hgiven
              exact hgiven
            · rw [if_neg hp, Option.none_or] at hgiven
              exact hgiven
  · cases hstep

theorem inv_consumer (hinv : ParamBridgeInv s) {e : LossyRing.Event (ParamCell P V)}
    (hstep : s.step (.consumer e) = some next) : ParamBridgeInv next := by
  simp only [ParamBridge.step] at hstep
  split at hstep
  · rename_i hconsumer
    obtain ⟨ring, hring, rfl⟩ := Option.map_eq_some_iff.mp hstep
    have hitem := item_of_isConsumer hconsumer.1
    obtain ⟨hoffered, hpairs⟩ := pairs_of_ringStep hinv hitem hring
    apply inv_of_ring hinv (LossyRing.inv_of_step (by decide) hinv.ring hring) hoffered
    · intro hchild
      rw [hconsumer.2] at hchild
      cases hchild
    · rintro p v - (hdead | hreplay | hgiven)
      · exact Or.inl hdead
      · exact Or.inr (Or.inl hreplay)
      · right
        right
        rcases hpairs with ⟨hpending, hpopped⟩ | ⟨pair, rfl, hpending, hpopped⟩ | ⟨pair, rfl, -⟩
        · rw [hpopped, List.drop_length, List.filterMap_nil, List.append_nil]
          rw [ParamBridge.pending, ← hpending] at hgiven
          exact hgiven
        · -- The pair goes from the head of `pending` to the end of the changes.
          have hhead : s.pending = pair :: ring.pending.filterMap ofCells := by
            rw [ParamBridge.pending, hpending]
            rfl
          have hmoved : (lastFor p (pair :: ring.pending.filterMap ofCells)).or (s.given p) =
              (lastFor p (ring.pending.filterMap ofCells)).or
                ((lastFor p (s.param_changes ++ [pair])).or (s.received p)) := by
            rw [ParamBridge.given, LastFor.lastFor, LastFor.lastFor_append,
              LastFor.lastFor_singleton, Option.or_assoc, Option.or_assoc]
          rw [hhead, hmoved] at hgiven
          rw [hpopped, List.drop_left]
          exact hgiven
        · cases hconsumer.1
  · cases hstep

theorem inv_process (hinv : ParamBridgeInv s) (hstep : s.step .process = some next) :
    ParamBridgeInv next := by
  simp only [ParamBridge.step] at hstep
  split at hstep
  · rename_i hchild
    obtain rfl := Option.some.inj hstep
    refine ⟨hinv.ring, hinv.pairs, hinv.table, hinv.last, hinv.restarting, ?_, hinv.replay, ?_⟩
    · intro hdead
      rw [hchild.1] at hdead
      cases hdead
    · intro p v hmem
      rcases hinv.covered p v hmem with hdead | hreplay | hgiven
      · exact Or.inl hdead
      · exact Or.inr (Or.inl hreplay)
      · right
        right
        simp only [ParamBridge.given, LastFor.foldl_update, LastFor.lastFor_nil, Option.none_or]
        exact hgiven
  · cases hstep

theorem inv_die (hinv : ParamBridgeInv s) (hstep : s.step .die = some next) :
    ParamBridgeInv next := by
  simp only [ParamBridge.step] at hstep
  split at hstep
  · rename_i hchild
    have hidle : s.restarting = false := by
      rw [← Bool.not_eq_true]
      intro hrestarting
      rw [hinv.restarting hrestarting] at hchild
      cases hchild
    obtain ⟨ring, hring, rfl⟩ := Option.map_eq_some_iff.mp hstep
    obtain ⟨hoffered, -⟩ := pairs_of_ringStep hinv rfl hring
    refine ⟨LossyRing.inv_of_step (by decide) hinv.ring hring, ?_, hinv.table, hinv.last,
      fun _ => rfl, fun _ => ⟨rfl, fun _ => rfl⟩, hinv.replay, ?_⟩
    · rw [hoffered]
      exact hinv.pairs
    · exact fun _ _ _ => Or.inl ⟨rfl, hidle⟩
  · cases hstep

theorem inv_restart (hinv : ParamBridgeInv s) (hstep : s.step .restart = some next) :
    ParamBridgeInv next := by
  simp only [ParamBridge.step] at hstep
  split at hstep
  · rename_i hdead
    obtain rfl := Option.some.inj hstep
    exact ⟨hinv.ring, hinv.pairs, hinv.table, hinv.last, fun _ => hdead.1, hinv.dead,
      fun pair hpair => ⟨rfl, hpair⟩, fun _ _ hmem => Or.inr (Or.inl hmem)⟩
  · cases hstep

theorem inv_spawn (hinv : ParamBridgeInv s) {ok : Bool} (hstep : s.step (.spawn ok) = some next) :
    ParamBridgeInv next := by
  simp only [ParamBridge.step] at hstep
  split at hstep
  · rename_i hready
    obtain ⟨hrestarting, hreplayed, -⟩ := hready
    obtain rfl := Option.some.inj hstep
    have hdead := hinv.dead (hinv.restarting hrestarting)
    refine ⟨hinv.ring, hinv.pairs, hinv.table, hinv.last, nofun, fun _ => hdead, ?_, ?_⟩
    · intro pair hpair
      rw [hreplayed] at hpair
      cases hpair
    · intro p v hmem
      rcases hinv.covered p v hmem with ⟨-, hidle⟩ | hreplay | hgiven
      · rw [hrestarting] at hidle
        cases hidle
      · rw [hreplayed] at hreplay
        cases hreplay
      · exact Or.inr (Or.inr hgiven)
  · cases hstep

theorem paramBridgeInv_of_step (hinv : ParamBridgeInv s) (hstep : CleanParamStep s next) :
    ParamBridgeInv next := by
  obtain ⟨e, hclean, hstep⟩ := hstep
  cases e with
  | setParam p v => exact inv_setParam hinv hstep
  | producer e => exact inv_producer hinv hclean hstep
  | consumer e => exact inv_consumer hinv hstep
  | process => exact inv_process hinv hstep
  | die => exact inv_die hinv hstep
  | restart => exact inv_restart hinv hstep
  | replayNext => exact inv_replayNext hinv hstep
  | spawn ok => exact inv_spawn hinv hstep

/-- A plugin that has been given every pair has the last value of every parameter. -/
theorem ParamBridgeInv.delivered (hinv : ParamBridgeInv s) (hsettled : s.Settled) :
    s.Delivered := by
  obtain ⟨halive, hidle, hread, hchanges⟩ := hsettled
  have hpending : s.pending = [] := by
    have hproducer := hinv.ring.producer
    rw [hidle] at hproducer
    have hlength : s.ring.offered.length = s.ring.write_idx := hproducer
    rw [ParamBridge.pending, LossyRing.Queue.pending, hread, ← hlength, List.drop_length]
    rfl
  intro p v hlast
  rcases hinv.covered p v ((hinv.last p v).mpr hlast) with ⟨hdead, -⟩ | hreplay | hgiven
  · rw [halive] at hdead
    cases hdead
  · have hdead := hinv.restarting (hinv.replay _ hreplay).1
    rw [halive] at hdead
    cases hdead
  · rw [hpending, ParamBridge.given, hchanges] at hgiven
    exact hgiven

/-- In a run whose drops are clean, a plugin that has drained its queue has been
given the last value set for every parameter. -/
theorem delivered_of_clean_run {cells : Nat → Nat → ParamCell P V}
    (hrun : Run.Reaches CleanParamStep (ParamBridge.start cells) s) (hsettled : s.Settled) :
    s.Delivered := by
  have hinv : ParamBridgeInv s := by
    apply Run.Reaches.invariant hrun (paramBridgeInv_start cells)
    exact fun a b hstep ha => paramBridgeInv_of_step ha hstep
  exact hinv.delivered hsettled

end Run

/-- 65 calls of `setParam` while the child runs no block, then a block of the
child. -/
def burst (id : Nat → Nat) : List (ParamStep Nat Nat) :=
  (List.range 65).flatMap (fun k => [.setParam (id k) k, .producer .loadRead,
    .producer .makeRoom, .producer .store, .producer .store, .producer .publish]) ++
  (List.range 64).flatMap (fun _ => [.consumer .load, .consumer .check, .consumer .read,
    .consumer .read, .consumer .claim]) ++
  [.consumer .load, .consumer .check, .process]

/-- The child dies and is restarted, with one parameter in the table. -/
def revive : List (ParamStep Nat Nat) :=
  [.die, .restart, .replayNext, .producer .loadRead, .producer .makeRoom, .producer .store,
    .producer .store, .producer .publish, .spawn true, .consumer .load, .consumer .check,
    .consumer .read, .consumer .read, .consumer .claim, .consumer .load, .consumer .check,
    .process]

/-- A bridge on a segment of zeros. -/
def zeroSegment : ParamBridge Nat Nat := ParamBridge.start fun _ _ => .id 0

theorem delivered_of_revived : ∃ s : ParamBridge Nat Nat, s.Settled ∧
    s.ring.fates.length = 66 ∧ lastFor 3 s.sets = some 64 ∧ s.Delivered := by
  have hlook : ((burst (fun _ => 3) ++ revive).foldlM
      (fun s e => if ParamStep.Clean s e then ParamBridge.step s e else none) zeroSegment).map
        (fun s => (decide s.Settled, s.ring.fates.length, lastFor 3 s.sets)) =
      some (true, 66, some 64) := by
    decide +kernel
  obtain ⟨s, hrun, hs⟩ := Option.map_eq_some_iff.mp hlook
  simp only [Prod.mk.injEq, decide_eq_true_eq] at hs
  have hreach : Run.Reaches CleanParamStep zeroSegment s := by
    apply Run.Reaches.of_foldlM _ hrun
    intro a e b hstep
    split at hstep
    · rename_i hclean
      exact ⟨e, hclean, hstep⟩
    · cases hstep
  exact ⟨s, hs.1, hs.2.1, hs.2.2, delivered_of_clean_run hreach hs.1⟩

/-- A burst on 65 parameters: the value of the first is dropped, and the plugin is
never given it. -/
theorem not_delivered_of_burst : ¬∀ s : ParamBridge Nat Nat,
    Run.Reaches ParamBridgeStep zeroSegment s → s.Settled → s.Delivered := by
  have hlook : ((burst id).foldlM ParamBridge.step zeroSegment).map
      (fun s => (decide s.Settled, s.received 0, lastFor 0 s.sets)) =
      some (true, none, some 0) := by
    decide +kernel
  obtain ⟨s, hrun, hs⟩ := Option.map_eq_some_iff.mp hlook
  simp only [Prod.mk.injEq, decide_eq_true_eq] at hs
  obtain ⟨hsettled, hreceived, hset⟩ := hs
  intro hdelivered
  have hreach : Run.Reaches ParamBridgeStep zeroSegment s :=
    Run.Reaches.of_foldlM (fun _ e _ hstep => ⟨e, hstep⟩) hrun
  have hgiven := hdelivered s hreach hsettled 0 0 hset
  rw [hreceived] at hgiven
  cases hgiven

end DawProject.Host
