import DawProject.Network.TransportSync

/-!
Anchors that arrive before the clock of their sender is known,
`web/src/network/transport_sync.ts`. One slot holds the anchor that waits, and
every arrival overwrites it.
-/

namespace DawProject.Network

variable {P T : Type}

/-- What happens while the anchors wait: one arrives, or the retry timer fires. -/
inductive WaitStep (P T : Type) where
  | receive (m : AnchorSignal P T)
  | retry
deriving DecidableEq, Repr

def WaitStep.received? : WaitStep P T → Option (AnchorSignal P T)
  | .receive m => some m
  | .retry => none

/-- The anchors received, in the order of their arrival. -/
def received (steps : List (WaitStep P T)) : List (AnchorSignal P T) :=
  steps.filterMap WaitStep.received?

/-- An anchor in local time, when the offset of its sender is known. -/
def AnchorSignal.local? [Sub T] (peers : P → Option T) (m : AnchorSignal P T) :
    Option (Anchor P T) :=
  (peers m.from_).map fun offsetMs => ⟨m.playing, m.posSec, m.t - offsetMs, m.from_⟩

variable [LinearOrder P] [AddCommGroup T] [LinearOrder T]

namespace TransportSync

def waitStep (id : P) (peers : P → Option T) (s : TransportSync P T) :
    WaitStep P T → TransportSync P T
  | .receive m => s.handleSignal id peers m
  | .retry => s.tryApply peers

/-- A run of arrivals and retries on one state of the clock. -/
def wait (id : P) (peers : P → Option T) (steps : List (WaitStep P T)) (s : TransportSync P T) :
    TransportSync P T :=
  steps.foldl (waitStep id peers) s

/-- The kept anchor after the clock has told its estimates is the newest of the
one kept before and of those received from a peer that is now known. -/
def TakesNewest (later : P → Option T) (ms : List (AnchorSignal P T))
    (before after : TransportSync P T) : Prop :=
  Latest.IsLatest Anchor.key (before.last.toList ++ ms.filterMap (AnchorSignal.local? later))
    (after.tryApply later).last

/-- The anchor that arrived last, or the one kept before, is not older than any
of those received. -/
def LastIsNewest (later : P → Option T) (ms : List (AnchorSignal P T))
    (last : Option (Anchor P T)) : Prop :=
  ∀ a ∈ ms.filterMap (AnchorSignal.local? later),
    (∃ b ∈ ms.getLast?.bind (AnchorSignal.local? later), a.key ≤ b.key) ∨
      ∃ b ∈ last, a.key ≤ b.key

theorem tryApply_unknown {peers : P → Option T} {s : TransportSync P T}
    (hunknown : ∀ p ∈ s.pending, peers p.from_ = none) : s.tryApply peers = s := by
  unfold tryApply
  cases hpending : s.pending with
  | none => rfl
  | some p => simp only [hunknown p hpending]

/-- The comparison of the code is that of the keys. -/
theorem tryApply_last {peers : P → Option T} (s : TransportSync P T) :
    (s.tryApply peers).last =
      (s.pending.bind (AnchorSignal.local? peers)).elim s.last
        (Latest.offer Anchor.key s.last) := by
  unfold tryApply
  cases hpending : s.pending with
  | none => rfl
  | some p =>
      cases hpeers : peers p.from_ with
      | none => simp [AnchorSignal.local?, hpeers]
      | some offsetMs =>
          simp only [Option.bind_some, AnchorSignal.local?, hpeers, Option.map_some,
            Option.elim_some]
          cases hlast : s.last with
          | none => rfl
          | some kept =>
              have horder : (⟨p.playing, p.posSec, p.t - offsetMs, p.from_⟩ : Anchor P T).key <
                    kept.key ↔
                  p.t - offsetMs < kept.localT ∨
                    p.t - offsetMs = kept.localT ∧ p.from_ < kept.peer :=
                Prod.Lex.toLex_lt_toLex
              simp only [Latest.offer, horder]
              split <;> rfl

/-- While its sender is unknown, the anchor that arrived last waits. -/
theorem wait_unknown {id : P} {peers : P → Option T} {steps : List (WaitStep P T)}
    {s : TransportSync P T} (henabled : s.enabled = true)
    (hpending : ∀ p ∈ s.pending, peers p.from_ = none)
    (hunknown : ∀ m ∈ received steps, m.from_ ≠ id ∧ peers m.from_ = none) :
    s.wait id peers steps =
      { s with pending := (received steps).getLast?.or s.pending } := by
  induction steps generalizing s with
  | nil => rfl
  | cons first steps ih =>
      cases first with
      | receive m =>
          obtain ⟨hother, hsender⟩ := hunknown m List.mem_cons_self
          have hwaits : s.handleSignal id peers m = { s with pending := some m } := by
            rw [handleSignal, if_neg hother, if_pos henabled]
            apply tryApply_unknown
            intro p hp
            rw [← Option.some.inj hp, hsender]
          show TransportSync.wait id peers steps (s.handleSignal id peers m) = _
          have hrest : TransportSync.wait id peers steps { s with pending := some m } =
              { s with pending := (received steps).getLast?.or (some m) } := by
            apply @ih { s with pending := some m } henabled
            · intro p hp
              rw [← Option.some.inj hp, hsender]
            · exact fun m' hm' => hunknown m' (List.mem_cons_of_mem m hm')
          rw [hwaits, hrest]
          show _ = { s with pending := (m :: received steps).getLast?.or s.pending }
          rw [List.getLast?_cons]
          cases (received steps).getLast? <;> rfl
      | retry =>
          show TransportSync.wait id peers steps (s.tryApply peers) = _
          rw [tryApply_unknown hpending]
          exact ih henabled hpending hunknown

/-- The anchors that arrive while their senders are unknown compete as if all
were kept exactly when the last to arrive is the newest. -/
theorem takesNewest_iff {id : P} {peers later : P → Option T} {steps : List (WaitStep P T)}
    {s : TransportSync P T} (henabled : s.enabled = true) (hpending : s.pending = none)
    (hunknown : ∀ m ∈ received steps, m.from_ ≠ id ∧ peers m.from_ = none) :
    TakesNewest later (received steps) s (s.wait id peers steps) ↔
      LastIsNewest later (received steps) s.last := by
  have hwait := wait_unknown henabled (by rw [hpending]; exact nofun) hunknown
  unfold TakesNewest LastIsNewest
  rw [hwait, tryApply_last, hpending, Option.or_none]
  apply Latest.isLatest_elim_iff
  intro a ha
  obtain ⟨m, hm, hlocal⟩ := Option.bind_eq_some_iff.mp ha
  exact List.mem_filterMap.mpr ⟨m, List.mem_of_getLast? hm, hlocal⟩

end TransportSync

-- Two peers whose clocks agree with that of peer 0, once they are known.
private def unknown (_ : Fin 3) : Option Int := none

private def known (_ : Fin 3) : Option Int := some 0

def newerThenOlder : List (WaitStep (Fin 3) Int) :=
  [.receive ⟨1, true, 0, 10⟩, .retry, .receive ⟨2, true, 0, 5⟩]

theorem takesNewest_of_olderThenNewer :
    TransportSync.TakesNewest known (received newerThenOlder.reverse) {}
      (TransportSync.wait 0 unknown newerThenOlder.reverse {}) := by
  apply (TransportSync.takesNewest_iff rfl rfl (by decide)).mpr
  intro a ha
  left
  refine ⟨⟨true, 0, 10, 1⟩, rfl, ?_⟩
  revert a
  decide

/-- The anchor of peer 1 is newer and is lost to that of peer 2, which arrives
after it. -/
theorem not_takesNewest_newerThenOlder :
    ¬∀ (later : Fin 3 → Option Int) (steps : List (WaitStep (Fin 3) Int)),
      (∀ m ∈ received steps, m.from_ ≠ 0 ∧ unknown m.from_ = none) →
        TransportSync.TakesNewest later (received steps) {}
          (TransportSync.wait 0 unknown steps {}) := by
  intro hall
  obtain ⟨-, hmax⟩ := hall known newerThenOlder (by decide)
  exact absurd (hmax ⟨true, 0, 10, 1⟩ (by decide)) (by decide)

end DawProject.Network
