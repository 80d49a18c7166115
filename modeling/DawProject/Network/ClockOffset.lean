import DawProject.Lib.Run
import Mathlib.Algebra.Order.Ring.Rat
import Mathlib.Data.List.Sort
import Mathlib.Logic.Function.Basic
import Mathlib.Tactic.Linarith
import Mathlib.Tactic.NormNum

/-!
The session clock, `web/src/network/session_clock.ts`: every tab pings the
others and estimates, from the answers, how far each peer's clock runs ahead of
its own. Times are rational milliseconds.
-/

namespace DawProject.Network

variable {P : Type}

structure Sample where
  offset : ℚ
  rtt : ℚ
deriving DecidableEq, Repr

/-- The estimate of a peer. `offsetMs` is absent where the code reads past the
end of an array. -/
structure PeerClock where
  offsetMs : Option ℚ
  rttMs : ℚ
  samples : ℕ
deriving DecidableEq, Repr

/-- `WINDOW`, `STALE_MS` and `MAX_RTT_MS`. -/
def windowSize : ℕ := 16

def staleMs : ℚ := 30000

def maxRttMs : ℚ := 5000

/-- A signal as it is received: any field may be missing. -/
structure ClockSignal (P : Type) where
  clk : Option ℤ
  from_ : Option P
  to_ : Option P
  t1 : Option ℚ
  t2 : Option ℚ
deriving DecidableEq, Repr

structure SessionClock (P : Type) where
  perPeer : P → Option (List Sample) := fun _ => none
  lastHeard : P → Option ℚ := fun _ => none
  timer : Bool := true

namespace SessionClock

/-- `tick`: the ping, and the peers that are forgotten. -/
def tick (id : P) (now : ℚ) (s : SessionClock P) : SessionClock P × ClockSignal P :=
  let expired := fun p => (s.lastHeard p).any fun heard => now - heard > staleMs
  ({ s with
      perPeer := fun p => if expired p then none else s.perPeer p
      lastHeard := fun p => if expired p then none else s.lastHeard p },
    ⟨some 1, some id, none, some now, none⟩)

def stop (_ : SessionClock P) : SessionClock P :=
  ⟨fun _ => none, fun _ => none, false⟩

variable [DecidableEq P]

/-- The sample of an answer joins the window of its peer. -/
def addSample (from_ : P) (t1 t2 t3 : ℚ) (s : SessionClock P) : SessionClock P :=
  let rtt := t3 - t1
  if rtt < 0 ∨ rtt > maxRttMs then s
  else
    let offset := t2 - (t1 + rtt / 2)
    let win := (s.perPeer from_).getD [] ++ [⟨offset, rtt⟩]
    let win := if win.length > windowSize then win.tail else win
    { s with
      perPeer := Function.update s.perPeer from_ (some win)
      lastHeard := Function.update s.lastHeard from_ (some t3) }

/-- `handleSignal`, with the answer it sends. -/
def handleSignal (id : P) (now : ℚ) (m : ClockSignal P) (s : SessionClock P) :
    SessionClock P × Option (ClockSignal P) :=
  match m.clk, m.from_, m.t1 with
  | some clk, some from_, some t1 =>
      if from_ = id then (s, none)
      else if clk = 1 then (s, some ⟨some 2, some id, some from_, some t1, some now⟩)
      else if clk = 2 ∧ m.to_ = some id then
        match m.t2 with
        | some t2 => (s.addSample from_ t1 t2 now, none)
        | none => (s, none)
      else (s, none)
  | _, _, _ => (s, none)

/-- The offsets that `peers` takes the median of. -/
def goodOffsets (minRtt : ℚ) (win : List Sample) : List ℚ :=
  ((win.filter fun s => s.rtt ≤ minRtt * (3 / 2) + 1).map Sample.offset).mergeSort

/-- `peers`, at one peer. -/
def peers (s : SessionClock P) (p : P) : Option PeerClock := do
  let win ← s.perPeer p
  let minRtt ← (win.map Sample.rtt).min?
  let offs := goodOffsets minRtt win
  return ⟨offs[(offs.length - 1) >>> 1]?, minRtt, win.length⟩

end SessionClock

/-- The tabs of a session, with the global time and the signals sent so far. -/
structure Tabs (P : Type) where
  now : ℚ
  clocks : P → SessionClock P
  sent : List (ClockSignal P)

inductive TabStep (P : Type) where
  | elapse (d : ℚ)
  | tick (p : P)
  | deliver (p : P) (m : ClockSignal P)
  | stop (p : P)

section System

variable [DecidableEq P] (skew : P → ℚ)

/-- Time does not run backward, and a signal reaches any tab any number of
times after it is sent. The clock of tab `p` is `skew p` ahead of the global
time. -/
def Tabs.step (s : Tabs P) : TabStep P → Option (Tabs P)
  | .elapse d => if 0 ≤ d then some { s with now := s.now + d } else none
  | .tick p =>
      if (s.clocks p).timer then
        let (clock, ping) := (s.clocks p).tick p (s.now + skew p)
        some { s with clocks := Function.update s.clocks p clock, sent := ping :: s.sent }
      else none
  | .deliver p m =>
      if m ∈ s.sent then
        let (clock, answer) := (s.clocks p).handleSignal p (s.now + skew p) m
        some { s with
          clocks := Function.update s.clocks p clock
          sent := answer.toList ++ s.sent }
      else none
  | .stop p => some { s with clocks := Function.update s.clocks p (s.clocks p).stop }

def TabsStep (s next : Tabs P) : Prop := ∃ l, s.step skew l = some next

def freshTabs (now : ℚ) : Tabs P := ⟨now, fun _ => {}, []⟩

end System

/-- A sample is off by half its round trip at most. -/
def Sample.Near (θ : ℚ) (x : Sample) : Prop := |x.offset - θ| ≤ x.rtt / 2

def WindowOk (θ : ℚ) (win : List Sample) : Prop :=
  win ≠ [] ∧ win.length ≤ windowSize ∧ ∀ x ∈ win, x.Near θ

/-- A signal carries times that are past: those of a ping, and of the answer
to a ping of the tab it is directed to. -/
def ClockSignal.Past (skew : P → ℚ) (now : ℚ) (m : ClockSignal P) : Prop :=
  ∀ from_ ∈ m.from_, ∀ t1 ∈ m.t1,
    (m.clk = some 1 → t1 - skew from_ ≤ now) ∧
    (m.clk = some 2 → ∀ to_ ∈ m.to_, ∀ t2 ∈ m.t2,
      t1 - skew to_ ≤ t2 - skew from_ ∧ t2 - skew from_ ≤ now)

structure TabsInv (skew : P → ℚ) (s : Tabs P) : Prop where
  past : ∀ m ∈ s.sent, m.Past skew s.now
  windows : ∀ p q, ∀ win ∈ (s.clocks p).perPeer q, WindowOk (skew q - skew p) win

theorem ClockSignal.Past.mono {skew : P → ℚ} {m : ClockSignal P} {now later : ℚ}
    (hpast : m.Past skew now) (hle : now ≤ later) : m.Past skew later := by
  intro from_ hfrom t1 ht1
  obtain ⟨hping, hpong⟩ := hpast from_ hfrom t1 ht1
  refine ⟨fun hclk => (hping hclk).trans hle, ?_⟩
  intro hclk to_ hto t2 ht2
  obtain ⟨hsent, hanswered⟩ := hpong hclk to_ hto t2 ht2
  exact ⟨hsent, hanswered.trans hle⟩

/-- The answer left between the ping and its reading, in either time base. -/
theorem near_of_order {θ t1 t2 t3 : ℚ} (hsent : t1 ≤ t2 - θ) (hread : t2 - θ ≤ t3) :
    Sample.Near θ ⟨t2 - (t1 + (t3 - t1) / 2), t3 - t1⟩ := by
  show |t2 - (t1 + (t3 - t1) / 2) - θ| ≤ (t3 - t1) / 2
  rw [abs_le]
  constructor <;> linarith

theorem WindowOk.slide {θ : ℚ} {win : List Sample} (hle : win.length ≤ windowSize)
    (hnear : ∀ x ∈ win, x.Near θ) {x : Sample} (hx : x.Near θ) :
    WindowOk θ (if (win ++ [x]).length > windowSize then (win ++ [x]).tail else win ++ [x]) := by
  have hall : ∀ y ∈ win ++ [x], y.Near θ := by
    intro y hy
    rcases List.mem_append.mp hy with hy | hy
    · exact hnear y hy
    · rw [List.mem_singleton.mp hy]
      exact hx
  split
  · rename_i hlong
    refine ⟨?_, ?_, fun y hy => hall y (List.mem_of_mem_tail hy)⟩
    · apply List.ne_nil_of_length_pos
      simp [windowSize] at hlong ⊢
      omega
    · simp at hle ⊢
      exact hle
  · rename_i hshort
    exact ⟨by simp, not_lt.mp hshort, hall⟩

namespace SessionClock

variable [DecidableEq P]

theorem addSample_windows {s : SessionClock P} {θ : P → ℚ} {from_ : P} {t1 t2 t3 : ℚ}
    (hwindows : ∀ q, ∀ win ∈ s.perPeer q, WindowOk (θ q) win)
    (hsent : t1 ≤ t2 - θ from_) (hread : t2 - θ from_ ≤ t3) :
    ∀ q, ∀ win ∈ (s.addSample from_ t1 t2 t3).perPeer q, WindowOk (θ q) win := by
  unfold addSample
  dsimp only
  split
  · exact hwindows
  · intro q win hwin
    rcases eq_or_ne q from_ with rfl | hne
    · simp only [Function.update_self] at hwin
      obtain rfl := Option.some.inj hwin
      cases hold : s.perPeer q with
      | none => exact WindowOk.slide (Nat.zero_le _) (by simp) (near_of_order hsent hread)
      | some old =>
          obtain ⟨-, hle, hnear⟩ := hwindows q old hold
          exact WindowOk.slide hle hnear (near_of_order hsent hread)
    · simp only [Function.update_of_ne hne] at hwin
      exact hwindows q win hwin

/-- What a signal can do: nothing, be answered, or bring a sample. -/
theorem handleSignal_cases (id : P) (now : ℚ) (m : ClockSignal P) (s : SessionClock P) :
    s.handleSignal id now m = (s, none) ∨
    (∃ from_ t1, m.clk = some 1 ∧ m.from_ = some from_ ∧ m.t1 = some t1 ∧
      s.handleSignal id now m =
        (s, some ⟨some 2, some id, some from_, some t1, some now⟩)) ∨
    (∃ from_ t1 t2, m.clk = some 2 ∧ m.from_ = some from_ ∧ m.to_ = some id ∧
      m.t1 = some t1 ∧ m.t2 = some t2 ∧
      s.handleSignal id now m = (s.addSample from_ t1 t2 now, none)) := by
  obtain ⟨clk, from_, to_, t1, t2⟩ := m
  unfold handleSignal
  split
  · rename_i clk from_ t1 hclk hfrom ht1
    split
    · exact Or.inl rfl
    · split
      · rename_i hone
        exact Or.inr (Or.inl ⟨from_, t1, by rw [hclk, hone], hfrom, ht1, rfl⟩)
      · split
        · rename_i htwo
          cases ht2 : t2 with
          | none => exact Or.inl rfl
          | some t2 =>
              exact Or.inr (Or.inr
                ⟨from_, t1, t2, by rw [hclk, htwo.1], hfrom, htwo.2, ht1, rfl, rfl⟩)
        · exact Or.inl rfl
  · exact Or.inl rfl

omit [DecidableEq P] in
/-- The median is one of the offsets of small round trip. -/
theorem peers_of_window {s : SessionClock P} {p : P} {θ : ℚ} {win : List Sample}
    (hwin : s.perPeer p = some win) (hok : WindowOk θ win) :
    ∃ offset minRtt, s.peers p = some ⟨some offset, minRtt, win.length⟩ ∧
      (∃ x ∈ win, x.rtt = minRtt) ∧ (∀ x ∈ win, minRtt ≤ x.rtt) ∧
      |offset - θ| ≤ (3 / 2 * minRtt + 1) / 2 := by
  obtain ⟨hne, -, hnear⟩ := hok
  obtain ⟨minRtt, hmin⟩ : ∃ minRtt, (win.map Sample.rtt).min? = some minRtt := by
    apply Option.ne_none_iff_exists'.mp
    simpa [List.min?_eq_none_iff] using hne
  obtain ⟨hmem, hleast⟩ := List.min?_eq_some_iff.mp hmin
  obtain ⟨best, hbest, hrtt⟩ := List.mem_map.mp hmem
  have hleast : ∀ x ∈ win, minRtt ≤ x.rtt :=
    fun x hx => hleast _ (List.mem_map_of_mem hx)
  have hpos : 0 ≤ minRtt := by
    have hhalf : 0 ≤ best.rtt / 2 := (abs_nonneg _).trans (hnear best hbest)
    linarith
  have hgood : best.offset ∈ goodOffsets minRtt win := by
    apply List.mem_mergeSort.mpr
    apply List.mem_map_of_mem
    rw [List.mem_filter]
    refine ⟨hbest, ?_⟩
    rw [decide_eq_true_eq]
    linarith
  have hindex : ((goodOffsets minRtt win).length - 1) >>> 1 < (goodOffsets minRtt win).length := by
    have hlength := List.length_pos_of_mem hgood
    rw [Nat.shiftRight_eq_div_pow]
    omega
  refine ⟨(goodOffsets minRtt win)[((goodOffsets minRtt win).length - 1) >>> 1], minRtt,
    ?_, ⟨best, hbest, hrtt⟩, hleast, ?_⟩
  · simp [peers, hwin, hmin, List.getElem?_eq_getElem hindex]
  · have hmedian := List.mem_mergeSort.mp (List.getElem_mem hindex)
    obtain ⟨x, hx, hoffset⟩ := List.mem_map.mp hmedian
    obtain ⟨hx, hclose⟩ := List.mem_filter.mp hx
    rw [decide_eq_true_eq] at hclose
    rw [← hoffset]
    have hxnear := hnear x hx
    unfold Sample.Near at hxnear
    linarith

end SessionClock

section Accuracy

variable [DecidableEq P] {skew : P → ℚ} {s next : Tabs P}

theorem TabsInv.update_clock (hinv : TabsInv skew s) {p : P} {clock : SessionClock P}
    (hclock : ∀ q, ∀ win ∈ clock.perPeer q, WindowOk (skew q - skew p) win) :
    ∀ p' q, ∀ win ∈ (Function.update s.clocks p clock p').perPeer q,
      WindowOk (skew q - skew p') win := by
  intro p' q win hwin
  rcases eq_or_ne p' p with rfl | hne
  · rw [Function.update_self] at hwin
    exact hclock q win hwin
  · rw [Function.update_of_ne hne] at hwin
    exact hinv.windows p' q win hwin

theorem tabsInv_of_step (hinv : TabsInv skew s) (hstep : TabsStep skew s next) :
    TabsInv skew next := by
  obtain ⟨l, hstep⟩ := hstep
  cases l with
  | elapse d =>
      simp only [Tabs.step] at hstep
      split at hstep
      · rename_i hd
        obtain rfl := Option.some.inj hstep
        refine ⟨fun m hm => (hinv.past m hm).mono ?_, hinv.windows⟩
        exact le_add_of_nonneg_right hd
      · cases hstep
  | tick p =>
      simp only [Tabs.step] at hstep
      split at hstep
      · obtain rfl := Option.some.inj hstep
        refine ⟨?_, hinv.update_clock ?_⟩
        · intro m hm
          rcases List.mem_cons.mp hm with rfl | hm
          · intro from_ hfrom t1 ht1
            obtain rfl := Option.some.inj hfrom
            obtain rfl := Option.some.inj ht1
            exact ⟨fun _ => by simp, nofun⟩
          · exact hinv.past m hm
        · intro q win hwin
          simp only [SessionClock.tick] at hwin
          split at hwin
          · cases hwin
          · exact hinv.windows p q win hwin
      · cases hstep
  | deliver p m =>
      simp only [Tabs.step] at hstep
      split at hstep
      · rename_i hm
        obtain rfl := Option.some.inj hstep
        have hpast := hinv.past m hm
        rcases SessionClock.handleSignal_cases p (s.now + skew p) m (s.clocks p) with
          hignored | ⟨from_, t1, hclk, hfrom, ht1, hanswered⟩ |
            ⟨from_, t1, t2, hclk, hfrom, hto, ht1, ht2, hsampled⟩
        · rw [hignored]
          exact ⟨hinv.past, hinv.update_clock (hinv.windows p)⟩
        · rw [hanswered]
          refine ⟨?_, hinv.update_clock (hinv.windows p)⟩
          intro answer hanswer
          rcases List.mem_cons.mp hanswer with rfl | hanswer
          · intro id hid echoed hechoed
            obtain rfl := Option.some.inj hid
            obtain rfl := Option.some.inj hechoed
            refine ⟨nofun, ?_⟩
            intro _ to_ hto t2 ht2
            obtain rfl := Option.some.inj hto
            obtain rfl := Option.some.inj ht2
            have hping := (hpast from_ hfrom t1 ht1).1 hclk
            constructor <;> linarith
          · exact hinv.past answer hanswer
        · rw [hsampled]
          refine ⟨hinv.past, hinv.update_clock ?_⟩
          obtain ⟨hsent, hread⟩ := (hpast from_ hfrom t1 ht1).2 hclk p hto t2 ht2
          apply SessionClock.addSample_windows (hinv.windows p) <;> linarith
      · cases hstep
  | stop p =>
      obtain rfl := Option.some.inj hstep
      exact ⟨hinv.past, hinv.update_clock fun q => nofun⟩

/-- In every run, the window of a peer holds between one and sixteen samples,
the median is found, and the estimate is off by half of the longest round trip
that passes the filter at most. -/
theorem offset_near_of_run {now : ℚ} (hrun : Run.Reaches (TabsStep skew) (freshTabs now) s)
    (p q : P) (win : List Sample) (hwin : (s.clocks p).perPeer q = some win) :
    win.length ≤ 16 ∧
    ∃ offset minRtt, (s.clocks p).peers q = some ⟨some offset, minRtt, win.length⟩ ∧
      (∃ x ∈ win, x.rtt = minRtt) ∧ (∀ x ∈ win, minRtt ≤ x.rtt) ∧
      |offset - (skew q - skew p)| ≤ (3 / 2 * minRtt + 1) / 2 := by
  have hinv : TabsInv skew s := by
    apply Run.Reaches.invariant hrun
    · exact ⟨nofun, fun _ _ => nofun⟩
    · exact fun a b hstep hinv => tabsInv_of_step hinv hstep
  have hok := hinv.windows p q win hwin
  exact ⟨hok.2.1, SessionClock.peers_of_window hwin hok⟩

end Accuracy

/-- Two clocks that are 500 ms apart. -/
def twoTabSkews (p : Fin 2) : ℚ := if p = 0 then 0 else 500

def oneExchange : List (TabStep (Fin 2)) :=
  [.tick 0, .elapse 3, .deliver 1 ⟨some 1, some 0, none, some 0, none⟩, .elapse 4,
    .deliver 0 ⟨some 2, some 1, some 0, some 0, some 503⟩]

/-- The second tab answers a ping 3 ms after it is sent, and the answer comes
back after another 4 ms. -/
theorem offset_near_of_oneExchange : ∃ s : Tabs (Fin 2),
    (s.clocks 0).perPeer 1 = some [⟨999 / 2, 7⟩] ∧
    ∃ offset minRtt, (s.clocks 0).peers 1 = some ⟨some offset, minRtt, 1⟩ ∧
      |offset - (twoTabSkews 1 - twoTabSkews 0)| ≤ (3 / 2 * minRtt + 1) / 2 := by
  have hwindow : ((oneExchange.foldlM (Tabs.step twoTabSkews) (freshTabs 0)).map
      fun s => (s.clocks 0).perPeer 1) = some (some [⟨999 / 2, 7⟩]) := by
    decide +kernel
  obtain ⟨s, hrun, hwin⟩ := Option.map_eq_some_iff.mp hwindow
  have hreach : Run.Reaches (TabsStep twoTabSkews) (freshTabs 0) s :=
    Run.Reaches.of_foldlM (fun _ l _ hstep => ⟨l, hstep⟩) hrun
  obtain ⟨-, offset, minRtt, hpeers, -, -, hnear⟩ := offset_near_of_run hreach 0 1 _ hwin
  exact ⟨s, hwin, offset, minRtt, hpeers, hnear⟩

end DawProject.Network
