import DawProject.Tempo.Twins
import Mathlib.Algebra.BigOperators.Intervals
import Mathlib.Algebra.Order.BigOperators.Group.Finset
import Mathlib.Data.Int.Interval
import Mathlib.Tactic.FieldSimp

/-!
Positions against the exact integral of the tempo map. The integral is taken
over the rationals, tick by tick, with no rounding. The kernels round once at
each breakpoint and once at the end, so a position is half a sample off for
each segment it has crossed or entered.
-/

namespace DawProject.Tempo

open HalfUp LeadingRun
open Tempo.Engine (kInt64Max kMaxSampleRate kMaxTick)

/-- The exact length of a tick: 960 ticks a beat, `milliBpm` beats in a
thousand minutes. -/
def samplesPerTick (sr milliBpm : Int) : ℚ := (sr * 60000) / (960 * milliBpm)

/-- The length of the tick that starts at `u`. -/
def rateAt (map : List TempoPoint) (sr u : Int) : ℚ :=
  match map[runIndex (fun p => decide (p.tick ≤ u)) map]? with
  | some p => samplesPerTick sr p.milliBpm
  | none => 0

/-- The ticks from `lo` up to `hi`. -/
def ticks (lo hi : Int) : Finset Int :=
  @Finset.Ico Int Int.instLinearOrder.toPartialOrder.toPreorder Int.instLocallyFiniteOrder lo hi

/-- The exact integral of the tempo map up to tick `t`. -/
def exactSamples (map : List TempoPoint) (sr t : Int) : ℚ :=
  ∑ u ∈ ticks 0 t, rateAt map sr u

/-- Positions that follow the integral: `position` is read on the table `S`. -/
structure Refines (map : List TempoPoint) (sr : Int) (S : List Int)
    (position : Int → Option Int) : Prop where
  clamped : ∀ t, position t = position (min (max 0 t) MAX_TICK)
  monotone : ∀ t t', t ≤ t' →
    ∃ s s', position t = some s ∧ position t' = some s' ∧ s ≤ s'
  breakpoint : ∀ (j : Nat) (p : TempoPoint), map[j]? = some p → p.tick ≤ MAX_TICK →
    position p.tick = S[j]?
  near : ∀ t, 0 ≤ t → t ≤ MAX_TICK → ∃ s, position t = some s ∧
    |(s : ℚ) - exactSamples map sr t| ≤
      ((runIndex (fun p => decide (p.tick ≤ t)) map : ℚ) + 1) / 2

section Span

/-- A stretch at one tempo is rounded once. -/
theorem abs_span_sub_le (sr dt : Int) {m : Int} (hm : 0 < 2 * m) :
    |(span sr dt m : ℚ) - dt * samplesPerTick sr m| ≤ 1 / 2 := by
  have hround := abs_halfUp_sub_div_le (dt * sr * 125) hm
  have hne : (m : ℚ) ≠ 0 := by
    have hpos : 0 < m := by omega
    exact_mod_cast hpos.ne'
  have hexact : (((dt * sr * 125 : Int) : ℚ) / ((2 * m : Int) : ℚ)) =
      dt * samplesPerTick sr m := by
    unfold samplesPerTick
    push_cast
    field_simp
    ring
  rw [hexact] at hround
  exact hround

end Span

section Table

variable {diff : Int → Int} {sr : Int}

theorem span_zero {m : Int} (hm : 0 < 2 * m) : span sr 0 m = 0 := by
  unfold span
  rw [zero_mul, zero_mul, halfUp_zero hm]

/-- The first boundary sits on its own start, whatever breakpoints share its
tick. -/
theorem sampleOf_locateTick_self (hdiff : SafeDiff diff) (b : Boundary) (rest : List TempoPoint)
    (hsorted : (b.point :: rest).IsChain (fun p q => p.tick ≤ q.tick))
    (hpos : ∀ p ∈ b.point :: rest, 0 < 2 * p.milliBpm) :
    (locateTick diff sr b rest b.point.tick).sampleOf sr b.point.tick = b.start := by
  induction rest generalizing b with
  | nil =>
      simp only [locateTick, tableFrom, lastOfRun_nil, Boundary.sampleOf, sub_self]
      rw [span_zero (hpos b.point (by simp)), add_zero]
  | cons q rest ih =>
      rw [List.isChain_cons_cons] at hsorted
      have hm := hpos b.point (by simp)
      rw [locateTick_cons]
      split
      · rename_i hreach
        have hsame : q.tick = b.point.tick := le_antisymm hreach hsorted.1
        have hstart : (b.next diff sr q).start = b.start := by
          simp only [Boundary.next, hsame, sub_self]
          rw [hdiff.exact 0 (le_refl 0) (by norm_num), span_zero hm, add_zero]
        have hnext := ih (b.next diff sr q) hsorted.2
          (fun p hp => hpos p (List.mem_cons_of_mem _ hp))
        rw [hstart] at hnext
        rw [← hsame]
        exact hnext
      · rw [Boundary.sampleOf, sub_self, span_zero hm, add_zero]

/-- A breakpoint sits on its entry of the table. -/
theorem sampleOf_locateTick_boundary (hdiff : SafeDiff diff) (b : Boundary)
    (rest : List TempoPoint) {c : Boundary} (hc : c ∈ b :: tableFrom diff sr b rest)
    (hsorted : (b.point :: rest).IsChain (fun p q => p.tick ≤ q.tick))
    (hpos : ∀ p ∈ b.point :: rest, 0 < 2 * p.milliBpm) :
    (locateTick diff sr b rest c.point.tick).sampleOf sr c.point.tick = c.start := by
  induction rest generalizing b with
  | nil =>
      obtain rfl := List.mem_singleton.mp hc
      exact sampleOf_locateTick_self hdiff c [] hsorted hpos
  | cons q rest ih =>
      rcases List.mem_cons.mp hc with rfl | hlater
      · exact sampleOf_locateTick_self hdiff c (q :: rest) hsorted hpos
      · rw [List.isChain_cons_cons] at hsorted
        have hmem : c.point ∈ q :: rest := by
          have hpoints := tableFrom_points diff sr (b.next diff sr q) rest
          rw [tableFrom] at hlater
          rcases List.mem_cons.mp hlater with rfl | htail
          · exact List.mem_cons_self
          · rw [← hpoints]
            exact List.mem_cons_of_mem _ (List.mem_map_of_mem htail)
        have hreach : q.tick ≤ c.point.tick := by
          rcases List.mem_cons.mp hmem with heq | htail
          · rw [heq]
          · exact hsorted.2.rel_cons htail
        rw [locateTick_cons, if_pos hreach]
        exact ih (b.next diff sr q) hlater hsorted.2
          (fun p hp => hpos p (List.mem_cons_of_mem _ hp))

theorem mem_ticks {lo hi u : Int} : u ∈ ticks lo hi ↔ lo ≤ u ∧ u < hi := Finset.mem_Ico

/-- Ticks of one length. -/
theorem sum_ticks {f : Int → ℚ} {r : ℚ} {lo hi : Int} (hle : lo ≤ hi)
    (hf : ∀ u, lo ≤ u → u < hi → f u = r) :
    ∑ u ∈ ticks lo hi, f u = ((hi - lo : Int) : ℚ) * r := by
  have hconst : ∑ u ∈ ticks lo hi, f u = ∑ _u ∈ ticks lo hi, r := by
    apply Finset.sum_congr rfl
    intro u hu
    rw [mem_ticks] at hu
    exact hf u hu.1 hu.2
  have hcount : (ticks lo hi).card = (hi - lo).toNat := Int.card_Ico lo hi
  have hcard : (((hi - lo).toNat : Int) : ℚ) = ((hi - lo : Int) : ℚ) := by
    rw [Int.toNat_of_nonneg (by omega)]
  rw [hconst, Finset.sum_const, hcount, nsmul_eq_mul, ← hcard]
  push_cast
  rfl

theorem sum_ticks_split (f : Int → ℚ) {lo mid hi : Int} (hlo : lo ≤ mid) (hhi : mid ≤ hi) :
    ∑ u ∈ ticks lo hi, f u =
      ∑ u ∈ ticks lo mid, f u + ∑ u ∈ ticks mid hi, f u := by
  have hunion : ticks lo hi = ticks lo mid ∪ ticks mid hi :=
    (Finset.Ico_union_Ico_eq_Ico hlo hhi).symm
  have hdisjoint : Disjoint (ticks lo mid) (ticks mid hi) :=
    Finset.Ico_disjoint_Ico_consecutive lo mid hi
  rw [hunion, Finset.sum_union hdisjoint]

theorem runIndex_cons_cons (p : TempoPoint → Bool) (a q : TempoPoint) (rest : List TempoPoint) :
    runIndex p (a :: q :: rest) = if p q then runIndex p (q :: rest) + 1 else 0 := by
  simp only [runIndex, List.tail_cons, List.takeWhile_cons]
  split <;> rfl

/-- One rounding for each segment entered. -/
theorem near_integral (sr : Int) (hdiff : SafeDiff diff) (b : Boundary) (rest : List TempoPoint)
    (t : Int) (hfloor : 0 ≤ b.point.tick) (hb : b.point.tick ≤ t) (ht : t ≤ MAX_TICK)
    (hsorted : (b.point :: rest).IsChain (fun p q => p.tick ≤ q.tick))
    (hpos : ∀ p ∈ b.point :: rest, 0 < 2 * p.milliBpm) :
    |(((locateTick diff sr b rest t).sampleOf sr t - b.start : Int) : ℚ) -
        ∑ u ∈ ticks b.point.tick t,
          samplesPerTick sr (locateTick diff sr b rest u).point.milliBpm| ≤
      ((runIndex (fun p => decide (p.tick ≤ t)) (b.point :: rest) : ℚ) + 1) / 2 := by
  induction rest generalizing b with
  | nil =>
      have hround := abs_span_sub_le sr (t - b.point.tick) (hpos b.point (by simp))
      have hsum := sum_ticks (r := samplesPerTick sr b.point.milliBpm)
        (f := fun u => samplesPerTick sr (locateTick diff sr b [] u).point.milliBpm) hb
        (fun _ _ _ => rfl)
      rw [hsum]
      simpa [locateTick, tableFrom, Boundary.sampleOf, runIndex] using hround
  | cons q rest ih =>
      rw [List.isChain_cons_cons] at hsorted
      have hm := hpos b.point (by simp)
      have hhere : ∀ u, u < q.tick → locateTick diff sr b (q :: rest) u = b := by
        intro u hu
        rw [locateTick_cons, if_neg (by omega)]
      rw [runIndex_cons_cons]
      by_cases hreach : q.tick ≤ t
      · have hthere : ∀ u, q.tick ≤ u →
            locateTick diff sr b (q :: rest) u = locateTick diff sr (b.next diff sr q) rest u := by
          intro u hu
          rw [locateTick_cons, if_pos hu]
        have hfirst := sum_ticks (r := samplesPerTick sr b.point.milliBpm)
          (f := fun u => samplesPerTick sr (locateTick diff sr b (q :: rest) u).point.milliBpm)
          hsorted.1 (fun u _ hu => by rw [hhere u hu])
        have hsecond : ∑ u ∈ ticks q.tick t,
            samplesPerTick sr (locateTick diff sr b (q :: rest) u).point.milliBpm =
            ∑ u ∈ ticks q.tick t,
              samplesPerTick sr (locateTick diff sr (b.next diff sr q) rest u).point.milliBpm := by
          apply Finset.sum_congr rfl
          intro u hu
          rw [hthere u (mem_ticks.mp hu).1]
        have hrest := ih (b.next diff sr q) (hfloor.trans hsorted.1) hreach hsorted.2
          (fun p hp => hpos p (List.mem_cons_of_mem _ hp))
        have hround := abs_span_sub_le sr (q.tick - b.point.tick) hm
        have hstart : (b.next diff sr q).start =
            b.start + span sr (q.tick - b.point.tick) b.point.milliBpm := by
          simp only [Boundary.next]
          rw [hdiff.exact _ (by omega) (by unfold MAX_TICK at ht; omega)]
        rw [sum_ticks_split _ hsorted.1 hreach, hfirst, hsecond, hthere t hreach,
          if_pos (by simpa using hreach)]
        have hpoint : (b.next diff sr q).point = q := rfl
        rw [hstart, hpoint] at hrest
        push_cast at hrest hround ⊢
        rw [abs_le] at hrest hround ⊢
        constructor <;> linarith [hrest.1, hrest.2, hround.1, hround.2]
      · have hsum := sum_ticks (r := samplesPerTick sr b.point.milliBpm)
          (f := fun u => samplesPerTick sr (locateTick diff sr b (q :: rest) u).point.milliBpm) hb
          (fun u _ hu => by rw [hhere u (by omega)])
        have hround := abs_span_sub_le sr (t - b.point.tick) hm
        rw [hsum, hhere t (by omega), if_neg (by simpa using hreach)]
        simpa [Boundary.sampleOf] using hround

/-- Reading the map at a tick reads the segment that holds it. -/
theorem rateAt_eq (b : Boundary) (rest : List TempoPoint) (u : Int) :
    rateAt (b.point :: rest) sr u =
      samplesPerTick sr (locateTick diff sr b rest u).point.milliBpm := by
  rw [rateAt, (columns_at_tick diff sr b rest u).2]

/-- A kernel that reads its positions off the table refines the integral. -/
theorem refines_of_table (hdiff : SafeDiff diff) (hsr : 0 ≤ sr) (p : TempoPoint)
    (rest : List TempoPoint) (hzero : p.tick = 0)
    (hsorted : (p :: rest).IsChain (fun p q => p.tick ≤ q.tick))
    (hrange : ∀ q ∈ p :: rest, q.InRange) {position : Int → Option Int}
    (hposition : ∀ tick t, min (max 0 tick) MAX_TICK = t →
      position tick = some ((locateTick diff sr ⟨0, p⟩ rest t).sampleOf sr t)) :
    Refines (p :: rest) sr (0 :: (tableFrom diff sr ⟨0, p⟩ rest).map Boundary.start)
      position := by
  have hpos : ∀ q ∈ p :: rest, 0 < 2 * q.milliBpm := fun q hq => (hrange q hq).pos
  have hbelow : ∀ tick, min (max 0 tick) MAX_TICK ≤ MAX_TICK := fun tick => min_le_right _ _
  have habove : ∀ tick, 0 ≤ min (max 0 tick) MAX_TICK := by
    intro tick
    unfold MAX_TICK
    omega
  have hin : ∀ t, 0 ≤ t → t ≤ MAX_TICK → min (max 0 t) MAX_TICK = t := by
    intro t hlow hhigh
    omega
  refine ⟨?_, ?_, ?_, ?_⟩
  · intro t
    rw [hposition t _ rfl, hposition _ _ (hin _ (habove t) (hbelow t))]
  · intro t t' hle
    refine ⟨_, _, hposition t _ rfl, hposition t' _ rfl, ?_⟩
    apply sampleOf_locateTick_mono hdiff hsr ⟨0, p⟩ rest hzero.ge _ _ (hbelow t) hsorted hpos
    · exact hzero.le.trans (habove t)
    · omega
  · intro j q hq htick
    have hnonneg := tick_nonneg_of_sorted hzero.ge hsorted q (List.mem_of_getElem? hq)
    have hpoints : p :: rest = (⟨0, p⟩ :: tableFrom diff sr ⟨0, p⟩ rest).map Boundary.point := by
      rw [List.map_cons, tableFrom_points]
    rw [hpoints, List.getElem?_map, Option.map_eq_some_iff] at hq
    obtain ⟨c, hc, rfl⟩ := hq
    have hstarts : 0 :: (tableFrom diff sr ⟨0, p⟩ rest).map Boundary.start =
        (⟨0, p⟩ :: tableFrom diff sr ⟨0, p⟩ rest).map Boundary.start := rfl
    rw [hstarts, List.getElem?_map, hc, hposition _ _ (hin _ hnonneg htick),
      sampleOf_locateTick_boundary hdiff ⟨0, p⟩ rest (List.mem_of_getElem? hc) hsorted hpos]
    rfl
  · intro t hlow hhigh
    refine ⟨_, hposition t _ (hin t hlow hhigh), ?_⟩
    have hnear := near_integral sr hdiff ⟨0, p⟩ rest t hzero.ge (hzero.le.trans hlow) hhigh hsorted
      hpos
    have hsum : exactSamples (p :: rest) sr t = ∑ u ∈ ticks p.tick t,
        samplesPerTick sr (locateTick diff sr ⟨0, p⟩ rest u).point.milliBpm := by
      rw [exactSamples, hzero]
      exact Finset.sum_congr rfl fun u _ => rateAt_eq ⟨0, p⟩ rest u
    rw [hsum]
    simpa only [sub_zero] using hnear

end Table

/-- Both kernels follow the exact integral of every sorted map up to the tick
they clamp to: positions never go back, each breakpoint in range is on its
entry of the table, and the error grows by half a sample at each segment. The
engine does so for the tables it can hold in 64 bits. -/
theorem samplesAtTick_refines (reg : Int) (map : List TempoPoint) (sr : Int)
    (hint : ∀ p ∈ map, p.tick ≤ kInt64Max) (hsorted : SortedFromZero map) (hsr : 0 < sr)
    (hmax : sr ≤ kMaxSampleRate) :
    (∃ S, Web.buildBoundaryTable (Web.effectiveMap reg map) sr = .ok S ∧
      Refines (Web.effectiveMap reg map) sr S
        fun t => (Web.samplesAtTick (Web.effectiveMap reg map) S sr t).toOption) ∧
    (∀ S, Engine.buildBoundaryTable (Engine.effectiveMap reg map) sr = some S →
      Refines (Engine.effectiveMap reg map) sr S
        (Engine.samplesAtTick (Engine.effectiveMap reg map) S sr)) := by
  obtain ⟨p, rest, hmap, hzero, hchain, _⟩ := effectiveMap_starts reg map sr
  have horder := hchain.mpr hsorted
  have hrange := Web.effectiveMap_inRange reg map
  rw [hmap] at hrange
  have hclamp : ∀ tick t : Int, min (max 0 tick) MAX_TICK = t → max 0 (min kMaxTick tick) = t := by
    intro tick t ht
    unfold kMaxTick
    unfold MAX_TICK at *
    omega
  constructor
  · rw [hmap]
    refine ⟨_, Web.buildBoundaryTable_of_sorted hsr.le p rest horder
      (fun q hq => (hrange q hq).pos), ?_⟩
    apply refines_of_table safeDiff_binary64 hsr.le p rest hzero horder hrange
    intro tick t ht
    have hrate : sr ≤ 2 ^ 20 := hmax.trans (by norm_num [kMaxSampleRate])
    rw [Web.samplesAtTick_exact hsr.le hrate ⟨0, p⟩ rest tick t ht hzero rfl horder hrange]
    rfl
  · intro S hbuilt
    have hfit := fits_of_buildBoundaryTable hsr hsorted hbuilt
    obtain ⟨p', rest', hmap', hzero', horder', _, hengine⟩ :=
      buildBoundaryTable_agree hsr hint hsorted hfit
    rw [hmap] at hmap'
    obtain ⟨rfl, rfl⟩ := List.cons.inj hmap'
    rw [← effectiveMap_agree, hmap] at hbuilt ⊢
    obtain rfl := Option.some.inj (hbuilt.symm.trans hengine)
    apply refines_of_table safeDiff_id hsr.le p rest hzero horder hrange
    intro tick t ht
    exact Engine.samplesAtTick_of_sorted hsr hmax ⟨0, p⟩ rest tick t (hclamp tick t ht) hzero rfl
      horder hrange

/-- A tempo change one bar in, read in its second segment: one sample off at
most. -/
theorem samplesAtTick_refines_oneBar :
    ∃ S, Web.buildBoundaryTable (Web.effectiveMap 120000 [⟨0, 120000⟩, ⟨3840, 90001⟩]) 48000 =
        .ok S ∧
      Refines (Web.effectiveMap 120000 [⟨0, 120000⟩, ⟨3840, 90001⟩]) 48000 S
        fun t => (Web.samplesAtTick (Web.effectiveMap 120000 [⟨0, 120000⟩, ⟨3840, 90001⟩]) S 48000
          t).toOption :=
  (samplesAtTick_refines 120000 [⟨0, 120000⟩, ⟨3840, 90001⟩] 48000 (by decide) (by decide)
    (by decide) (by decide)).1

/-- A breakpoint past the last admitted tick is read at that tick, before its
entry of the table. -/
theorem not_breakpoint_on_table_farBreakpoint :
    ¬ ∀ (reg : Int) (map : List TempoPoint) (sr : Int) (S : List Int), SortedFromZero map →
      0 < sr → sr ≤ 192000 →
      Web.buildBoundaryTable (Web.effectiveMap reg map) sr = .ok S →
      ∀ (j : Nat) (p : TempoPoint), (Web.effectiveMap reg map)[j]? = some p →
        (Web.samplesAtTick (Web.effectiveMap reg map) S sr p.tick).toOption = S[j]? := by
  intro hall
  have hfar := hall 120000 [⟨0, 120000⟩, ⟨68719477696, 120000⟩] 48000 [0, 1717986942400]
    (by decide) (by decide) (by decide) (by decide) 1 ⟨68719477696, 120000⟩ (by decide)
  revert hfar
  decide

end DawProject.Tempo
