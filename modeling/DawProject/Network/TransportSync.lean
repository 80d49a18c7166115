import DawProject.Lib.Latest
import DawProject.Lib.Run
import Mathlib.Algebra.Order.Group.Defs
import Mathlib.Algebra.Order.Group.Int
import Mathlib.Data.Prod.Lex
import Mathlib.Logic.Function.Basic
import Mathlib.Order.Fin.Basic
import Mathlib.Tactic.Abel

/-!
Transport anchors, `web/src/network/transport_sync.ts`: every peer keeps the
newest anchor in its own time base, ties by peer id. A received anchor is
compared with the one that is kept; an anchor published here replaces it.
Rejoin answers and diagnostics are not published anchors and are left out.
-/

namespace DawProject.Network

-- Peer ids, compared as the code compares strings, and times.
variable {P T : Type}

structure Anchor (P T : Type) where
  playing : Bool
  posSec : T
  localT : T
  peer : P
deriving DecidableEq, Repr

/-- The signal `ta: 1`, in the time base of its sender. -/
structure AnchorSignal (P T : Type) where
  from_ : P
  playing : Bool
  posSec : T
  t : T
deriving DecidableEq, Repr

structure TransportSync (P T : Type) where
  enabled : Bool := true
  last : Option (Anchor P T) := none
  pending : Option (AnchorSignal P T) := none
deriving DecidableEq, Repr

namespace TransportSync

/-- `publish`, at the time `now` of the peer's own clock. -/
def publish (id : P) (now : T) (playing : Bool) (posSec : T) (s : TransportSync P T) :
    TransportSync P T × Option (AnchorSignal P T) :=
  if s.enabled then
    ({ s with last := some ⟨playing, posSec, now, id⟩ }, some ⟨id, playing, posSec, now⟩)
  else (s, none)

variable [LinearOrder P] [AddCommGroup T] [LinearOrder T]

/-- `tryApply`: the pending anchor waits until the clock knows its sender. -/
def tryApply (peers : P → Option T) (s : TransportSync P T) : TransportSync P T :=
  match s.pending with
  | none => s
  | some p =>
      match peers p.from_ with
      | none => s
      | some offsetMs =>
          let localT := p.t - offsetMs
          let s := { s with pending := none }
          match s.last with
          | some last =>
              if localT < last.localT ∨ localT = last.localT ∧ p.from_ < last.peer then s
              else { s with last := some ⟨p.playing, p.posSec, localT, p.from_⟩ }
          | none => { s with last := some ⟨p.playing, p.posSec, localT, p.from_⟩ }

/-- `handleSignal` for an anchor. -/
def handleSignal (id : P) (peers : P → Option T) (m : AnchorSignal P T) (s : TransportSync P T) :
    TransportSync P T :=
  if m.from_ = id then s
  else if s.enabled then tryApply peers { s with pending := some m }
  else s

end TransportSync

/-- The peers, with the global time and the signals sent so far. `seen` is
history: what a peer has published or been delivered. -/
structure Peers (P T : Type) where
  now : T
  syncs : P → TransportSync P T
  sent : List (AnchorSignal P T)
  seen : P → List (AnchorSignal P T)

inductive PeerStep (P T : Type) where
  | tick (d : T)
  | publish (p : P) (playing : Bool) (posSec : T)
  | deliver (p : P) (m : AnchorSignal P T)

section System

variable [LinearOrder P] [AddCommGroup T] [LinearOrder T]

-- The clock of a peer runs ahead of the global time by its skew, and every
-- peer estimates the difference to another one.
variable (skew : P → T) (estimate : P → P → Option T)

/-- Signals reach any peer at any time and any number of times. -/
def Peers.step (s : Peers P T) : PeerStep P T → Option (Peers P T)
  | .tick d => if 0 ≤ d then some { s with now := s.now + d } else none
  | .publish p playing posSec =>
      match (s.syncs p).publish p (s.now + skew p) playing posSec with
      | (_, none) => none
      | (sync, some m) =>
          some { s with
            syncs := Function.update s.syncs p sync
            sent := m :: s.sent
            seen := Function.update s.seen p (m :: s.seen p) }
  | .deliver p m =>
      if m ∈ s.sent ∧ m.from_ ≠ p then
        some { s with
          syncs := Function.update s.syncs p ((s.syncs p).handleSignal p (estimate p) m)
          seen := Function.update s.seen p (m :: s.seen p) }
      else none

/-- Nothing is published at the very instant of the anchor that is kept, unless
that one has a lower peer id. -/
def PeerStep.Clean (s : Peers P T) : PeerStep P T → Prop
  | .publish p _ _ => ∀ a ∈ (s.syncs p).last, a.localT = s.now + skew p → a.peer < p
  | _ => True

instance (s : Peers P T) : DecidablePred (PeerStep.Clean skew s)
  | .publish p _ _ => inferInstanceAs (Decidable (∀ a ∈ (s.syncs p).last, _ → _))
  | .tick _ | .deliver _ _ => inferInstanceAs (Decidable True)

def PeersStep (s next : Peers P T) : Prop := ∃ l, s.step skew estimate l = some next

def CleanPeersStep (s next : Peers P T) : Prop :=
  ∃ l : PeerStep P T, l.Clean skew s ∧ s.step skew estimate l = some next

/-- The order of the anchors: time, then peer id. -/
def Anchor.key (a : Anchor P T) : T ×ₗ P := toLex (a.localT, a.peer)

/-- A signal in the time base of peer `p`. -/
def AnchorSignal.at_ (p : P) (m : AnchorSignal P T) : Anchor P T :=
  ⟨m.playing, m.posSec, m.t - (skew m.from_ - skew p), m.from_⟩

/-- Every estimate is the true difference of the clocks. -/
def Consistent : Prop := ∀ p q, estimate p q = some (skew q - skew p)

def AllDelivered (s : Peers P T) : Prop := ∀ p, ∀ m ∈ s.sent, m ∈ s.seen p

/-- Every peer keeps the same anchor, the greatest of all in its time base. -/
def Agreed (s : Peers P T) : Prop :=
  s.sent ≠ [] → ∃ m ∈ s.sent, ∀ p, (s.syncs p).last = some (m.at_ skew p) ∧
    ∀ m' ∈ s.sent, (m'.at_ skew p).key ≤ (m.at_ skew p).key

end System

section Keys

variable [AddCommGroup T] {skew : P → T}

/-- The order of the signals in global time. -/
def AnchorSignal.globalKey (skew : P → T) (m : AnchorSignal P T) : T ×ₗ P :=
  toLex (m.t - skew m.from_, m.from_)

theorem localT_at (p : P) (m : AnchorSignal P T) :
    (m.at_ skew p).localT = m.t - skew m.from_ + skew p := by
  show m.t - (skew m.from_ - skew p) = _
  abel

theorem at_own (p : P) (playing : Bool) (posSec now : T) :
    (⟨playing, posSec, now, p⟩ : Anchor P T) =
      AnchorSignal.at_ skew p ⟨p, playing, posSec, now⟩ := by
  simp [AnchorSignal.at_]

variable [LinearOrder P] [LinearOrder T] [IsOrderedAddMonoid T]

/-- All time bases order the signals alike. -/
theorem key_at_le_iff (p : P) (m m' : AnchorSignal P T) :
    (m'.at_ skew p).key ≤ (m.at_ skew p).key ↔ m'.globalKey skew ≤ m.globalKey skew := by
  rw [Anchor.key, Anchor.key, Prod.Lex.toLex_le_toLex, localT_at, localT_at,
    AnchorSignal.globalKey, AnchorSignal.globalKey, Prod.Lex.toLex_le_toLex]
  simp only [add_lt_add_iff_right, add_left_inj]
  rfl

end Keys

section Agreement

open Latest

variable [LinearOrder P] [AddCommGroup T] [LinearOrder T] {skew : P → T}
  {estimate : P → P → Option T} {s next : Peers P T}

/-- A peer that takes part, as each signal finds it. -/
def Armed (sync : TransportSync P T) : Prop := sync.enabled = true ∧ sync.pending = none

/-- The comparison of the code is that of the keys. -/
theorem handleSignal_last (hestimate : Consistent skew estimate) {p : P}
    {sync : TransportSync P T} (harmed : Armed sync) {m : AnchorSignal P T} (hother : m.from_ ≠ p) :
    Armed (sync.handleSignal p (estimate p) m) ∧
      (sync.handleSignal p (estimate p) m).last =
        Latest.offer Anchor.key sync.last (m.at_ skew p) := by
  obtain ⟨henabled, -⟩ := harmed
  simp only [TransportSync.handleSignal, if_neg hother, henabled, if_true,
    TransportSync.tryApply, hestimate p m.from_]
  cases hlast : sync.last with
  | none => exact ⟨⟨rfl, rfl⟩, rfl⟩
  | some kept =>
      simp only [Latest.offer]
      have horder : (m.at_ skew p).key < kept.key ↔
          m.t - (skew m.from_ - skew p) < kept.localT ∨
            m.t - (skew m.from_ - skew p) = kept.localT ∧ m.from_ < kept.peer :=
        Prod.Lex.toLex_lt_toLex
      by_cases hlower : (m.at_ skew p).key < kept.key
      · rw [if_pos (horder.mp hlower), if_pos hlower]
        exact ⟨⟨rfl, rfl⟩, rfl⟩
      · rw [if_neg fun h => hlower (horder.mpr h), if_neg hlower]
        exact ⟨⟨rfl, rfl⟩, rfl⟩

structure PeersInv (skew : P → T) (s : Peers P T) : Prop where
  armed : ∀ p, Armed (s.syncs p)
  past : ∀ m ∈ s.sent, m.t - skew m.from_ ≤ s.now
  seen_sent : ∀ p, ∀ m ∈ s.seen p, m ∈ s.sent
  own : ∀ m ∈ s.sent, m ∈ s.seen m.from_
  distinct : ∀ m ∈ s.sent, ∀ m' ∈ s.sent, m.globalKey skew = m'.globalKey skew → m = m'
  latest : ∀ p, IsLatest Anchor.key ((s.seen p).map (AnchorSignal.at_ skew p)) (s.syncs p).last

variable [IsOrderedAddMonoid T]

/-- What is kept is not from the future. -/
theorem localT_le_now (hinv : PeersInv skew s) {p : P} {a : Anchor P T}
    (ha : (s.syncs p).last = some a) : a.localT ≤ s.now + skew p := by
  have hlatest := hinv.latest p
  rw [ha] at hlatest
  obtain ⟨m, hm, rfl⟩ := List.mem_map.mp hlatest.1
  rw [localT_at]
  exact add_le_add_left (hinv.past m (hinv.seen_sent p m hm)) _

theorem inv_publish (hinv : PeersInv skew s) {p : P} {playing : Bool} {posSec : T}
    (hclean : ∀ a ∈ (s.syncs p).last, a.localT = s.now + skew p → a.peer < p) :
    PeersInv skew { s with
      syncs := Function.update s.syncs p
        { s.syncs p with last := some ⟨playing, posSec, s.now + skew p, p⟩ }
      sent := ⟨p, playing, posSec, s.now + skew p⟩ :: s.sent
      seen := Function.update s.seen p (⟨p, playing, posSec, s.now + skew p⟩ :: s.seen p) } := by
  have hbelow : ∀ b ∈ (s.syncs p).last,
      b.key < (⟨playing, posSec, s.now + skew p, p⟩ : Anchor P T).key := by
    intro b hb
    apply Prod.Lex.toLex_lt_toLex.mpr
    rcases (localT_le_now hinv hb).lt_or_eq with hearlier | hnow
    · exact Or.inl hearlier
    · exact Or.inr ⟨hnow, hclean b hb hnow⟩
  have hnew : ∀ m ∈ s.sent, m.globalKey skew ≠
      AnchorSignal.globalKey skew ⟨p, playing, posSec, s.now + skew p⟩ := by
    intro m hm hsame
    obtain ⟨htime, hpeer⟩ := Prod.mk.inj (toLex.injective hsame)
    have hseen : m.at_ skew p ∈ (s.seen p).map (AnchorSignal.at_ skew p) := by
      apply List.mem_map_of_mem
      have hown := hinv.own m hm
      rwa [show m.from_ = p from hpeer] at hown
    obtain ⟨kept, hkept, -, hle⟩ := (hinv.latest p).le hseen
    have hhere : (m.at_ skew p).key =
        (⟨playing, posSec, s.now + skew p, p⟩ : Anchor P T).key := by
      apply congrArg toLex
      apply Prod.ext
      · show (m.at_ skew p).localT = s.now + skew p
        rw [localT_at, htime]
        simp
      · exact hpeer
    exact absurd (hle.trans_lt (hbelow kept hkept)) (hhere ▸ lt_irrefl _)
  refine ⟨?_, ?_, ?_, ?_, ?_, ?_⟩
  · intro q
    dsimp only
    rcases eq_or_ne q p with rfl | hne
    · rw [Function.update_self]
      exact hinv.armed q
    · rw [Function.update_of_ne hne]
      exact hinv.armed q
  · intro m hm
    rcases List.mem_cons.mp hm with rfl | hm
    · simp
    · exact hinv.past m hm
  · intro q m hm
    dsimp only at hm ⊢
    rcases eq_or_ne q p with rfl | hne
    · rw [Function.update_self] at hm
      rcases List.mem_cons.mp hm with rfl | hm
      · exact List.mem_cons_self
      · exact List.mem_cons_of_mem _ (hinv.seen_sent q m hm)
    · rw [Function.update_of_ne hne] at hm
      exact List.mem_cons_of_mem _ (hinv.seen_sent q m hm)
  · intro m hm
    dsimp only
    rcases List.mem_cons.mp hm with rfl | hm
    · rw [Function.update_self]
      exact List.mem_cons_self
    · rcases eq_or_ne m.from_ p with hfrom | hne
      · rw [hfrom, Function.update_self]
        exact List.mem_cons_of_mem _ (hfrom ▸ hinv.own m hm)
      · rw [Function.update_of_ne hne]
        exact hinv.own m hm
  · intro m hm m' hm' hsame
    rcases List.mem_cons.mp hm with rfl | hm <;> rcases List.mem_cons.mp hm' with rfl | hm'
    · rfl
    · exact absurd hsame.symm (hnew m' hm')
    · exact absurd hsame (hnew m hm)
    · exact hinv.distinct m hm m' hm' hsame
  · intro q
    dsimp only
    rcases eq_or_ne q p with rfl | hne
    · rw [Function.update_self, Function.update_self, List.map_cons, @at_own P T _ skew]
      apply (hinv.latest q).put
      intro b hb
      rw [← at_own]
      exact (hbelow b hb).le
    · rw [Function.update_of_ne hne, Function.update_of_ne hne]
      exact hinv.latest q

theorem inv_of_step (hestimate : Consistent skew estimate) (hinv : PeersInv skew s)
    (hstep : CleanPeersStep skew estimate s next) : PeersInv skew next := by
  obtain ⟨l, hclean, hstep⟩ := hstep
  cases l with
  | tick d =>
      simp only [Peers.step] at hstep
      split at hstep
      · rename_i hd
        obtain rfl := Option.some.inj hstep
        refine ⟨hinv.armed, ?_, hinv.seen_sent, hinv.own, hinv.distinct, hinv.latest⟩
        exact fun m hm => (hinv.past m hm).trans (le_add_of_nonneg_right hd)
      · cases hstep
  | publish p playing posSec =>
      simp only [Peers.step, TransportSync.publish, if_pos (hinv.armed p).1] at hstep
      obtain rfl := Option.some.inj hstep
      exact inv_publish hinv hclean
  | deliver p m =>
      simp only [Peers.step] at hstep
      split at hstep
      · rename_i hsent
        obtain ⟨hm, hother⟩ := hsent
        obtain rfl := Option.some.inj hstep
        obtain ⟨harmed, hlast⟩ := handleSignal_last hestimate (hinv.armed p) hother
        refine ⟨?_, hinv.past, ?_, ?_, hinv.distinct, ?_⟩
        · intro q
          dsimp only
          rcases eq_or_ne q p with rfl | hne
          · rw [Function.update_self]
            exact harmed
          · rw [Function.update_of_ne hne]
            exact hinv.armed q
        · intro q m' hm'
          dsimp only at hm' ⊢
          rcases eq_or_ne q p with rfl | hne
          · rw [Function.update_self] at hm'
            rcases List.mem_cons.mp hm' with rfl | hm'
            · exact hm
            · exact hinv.seen_sent q m' hm'
          · rw [Function.update_of_ne hne] at hm'
            exact hinv.seen_sent q m' hm'
        · intro m' hm'
          dsimp only
          rcases eq_or_ne m'.from_ p with hfrom | hne
          · rw [hfrom, Function.update_self]
            exact List.mem_cons_of_mem _ (hfrom ▸ hinv.own m' hm')
          · rw [Function.update_of_ne hne]
            exact hinv.own m' hm'
        · intro q
          dsimp only
          rcases eq_or_ne q p with rfl | hne
          · rw [Function.update_self, Function.update_self, List.map_cons, hlast]
            exact (hinv.latest q).offer _
          · rw [Function.update_of_ne hne, Function.update_of_ne hne]
            exact hinv.latest q
      · cases hstep

/-- Without a publication at the instant of a kept anchor of a higher peer, the
peers agree on the greatest anchor once all are delivered. -/
theorem agreed_of_clean_run (hestimate : Consistent skew estimate) {now : T}
    (hrun : Run.Reaches (CleanPeersStep skew estimate) ⟨now, fun _ => {}, [], fun _ => []⟩ s)
    (hdelivered : AllDelivered s) : Agreed skew s := by
  have hinv : PeersInv skew s := by
    apply Run.Reaches.invariant hrun
    · refine ⟨fun _ => ⟨rfl, rfl⟩, nofun, fun _ => nofun, nofun, nofun, fun _ => rfl⟩
    · exact fun a b hstep hinv => inv_of_step hestimate hinv hstep
  have hmax : ∀ m ∈ s.sent, ∀ p, ∃ top ∈ s.sent, (s.syncs p).last = some (top.at_ skew p) ∧
      ∀ m' ∈ s.sent, m'.globalKey skew ≤ top.globalKey skew := by
    intro m hm p
    obtain ⟨kept, hkept, -, -⟩ :=
      (hinv.latest p).le (List.mem_map_of_mem (hdelivered p m hm))
    have hlatest := hinv.latest p
    rw [hkept] at hlatest
    obtain ⟨hmem, habove⟩ := hlatest
    obtain ⟨top, htop, rfl⟩ := List.mem_map.mp hmem
    refine ⟨top, hinv.seen_sent p top htop, hkept, ?_⟩
    intro m' hm'
    exact (key_at_le_iff p top m').mp
      (habove _ (List.mem_map_of_mem (hdelivered p m' hm')))
  intro hsome
  obtain ⟨m, hm⟩ := List.exists_mem_of_ne_nil _ hsome
  obtain ⟨top, htop, -, habove⟩ := hmax m hm m.from_
  refine ⟨top, htop, ?_⟩
  intro p
  obtain ⟨other, hother, hlast, hother_above⟩ := hmax m hm p
  obtain rfl : top = other :=
    hinv.distinct top htop other hother (le_antisymm (hother_above top htop) (habove other hother))
  exact ⟨hlast, fun m' hm' => (key_at_le_iff p top m').mpr (habove m' hm')⟩

end Agreement

/-- Two peers whose clocks are 500 apart, with true estimates. -/
def twoSkews (p : Fin 2) : Int := if p.val = 0 then 0 else 500

def trueEstimate (p q : Fin 2) : Option Int := some (twoSkews q - twoSkews p)

def twoPeers : Peers (Fin 2) Int := ⟨0, fun _ => {}, [], fun _ => []⟩

instance (s : Peers (Fin 2) Int) : Decidable (AllDelivered s) :=
  inferInstanceAs (Decidable (∀ p, ∀ m ∈ s.sent, m ∈ s.seen p))

def firstSignal : AnchorSignal (Fin 2) Int := ⟨⟨1, Nat.one_lt_two⟩, true, 0, 500⟩

/-- Peer 0 publishes five units after the anchor it has received. -/
theorem agreed_later : ∃ s, Run.Reaches (CleanPeersStep twoSkews trueEstimate) twoPeers s ∧
    s.sent.length = 2 ∧ Agreed twoSkews s := by
  have hfirst := Relation.ReflTransGen.single
    (r := CleanPeersStep twoSkews trueEstimate) (a := twoPeers)
    ⟨.publish 1 true 0, by decide, rfl⟩
  have hheard := hfirst.tail ⟨.deliver 0 firstSignal, trivial, rfl⟩
  have hlater := hheard.tail ⟨.tick 5, trivial, rfl⟩
  have hsecond := hlater.tail ⟨.publish 0 false 3, by decide, rfl⟩
  have hlast := hsecond.tail ⟨.deliver 1 ⟨0, false, 3, 5⟩, trivial, rfl⟩
  exact ⟨_, hlast, rfl, agreed_of_clean_run (fun _ _ => rfl) hlast (by decide)⟩

/-- Peer 0 publishes at the instant of the anchor of peer 1 that it has just
received: it keeps its own, the lower one. -/
theorem not_agreed_sameInstant :
    ¬∀ s, Run.Reaches (PeersStep twoSkews trueEstimate) twoPeers s → AllDelivered s →
      Agreed twoSkews s := by
  intro hall
  have hfirst := Relation.ReflTransGen.single
    (r := PeersStep twoSkews trueEstimate) (a := twoPeers) ⟨.publish 1 true 0, rfl⟩
  have hheard := hfirst.tail ⟨.deliver 0 firstSignal, rfl⟩
  have hsecond := hheard.tail ⟨.publish 0 false 3, rfl⟩
  have hlast := hsecond.tail ⟨.deliver 1 ⟨0, false, 3, 0⟩, rfl⟩
  obtain ⟨m, -, hm⟩ := hall _ hlast (by decide) (List.cons_ne_nil _ _)
  have hkept : some (m.at_ twoSkews 0) = some ⟨false, 3, 0, 0⟩ := (hm 0).1.symm
  have habove := (hm 0).2 firstSignal (by decide)
  rw [Option.some.inj hkept] at habove
  exact absurd habove (by decide)

end DawProject.Network
