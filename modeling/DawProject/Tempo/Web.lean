import DawProject.Tempo.Table

/-!
The TypeScript tempo kernel, `web/src/document/tempo.ts`. BigInt arithmetic is
exact and never overflows; what can go wrong is the `throw` of `roundDiv` on a
negative numerator. Ticks are JS numbers, so the difference of two ticks is
taken in double precision before it becomes a BigInt, and a result goes back
through `Number`.
-/

namespace DawProject.Tempo.Web

open HalfUp LeadingRun

def roundDiv (num den : Int) : Except String Int :=
  if num < 0 ∨ den ≤ 0 then
    .error "roundDiv: domaine positif"
  else
    .ok ((2 * num + den).tdiv (2 * den))

def segSamples (dtTicks sampleRate milliBpm : Int) : Except String Int :=
  roundDiv (dtTicks * sampleRate * 125) (2 * milliBpm)

def effectiveMap (tempoMilliBpm : Int) (tempoMap : List TempoPoint) : List TempoPoint :=
  let reg := clampMilliBpm tempoMilliBpm
  match tempoMap with
  | [] => [⟨0, reg⟩]
  | p :: _ =>
      let map := tempoMap.map TempoPoint.clamp
      if p.tick ≠ 0 then ⟨0, reg⟩ :: map else map

/-- The `for` loop of `buildBoundaryTable` from the breakpoint `p`, whose
accumulated start is `acc`. -/
def boundaryLoop (sampleRate : Int) : Int → TempoPoint → List TempoPoint →
    Except String (List Int)
  | _, _, [] => .ok []
  | acc, p, q :: rest => do
      let dt := Binary64.ofInt (q.tick - p.tick)
      let seg ← segSamples dt sampleRate p.milliBpm
      let later ← boundaryLoop sampleRate (acc + seg) q rest
      return (acc + seg) :: later

def buildBoundaryTable (map : List TempoPoint) (sampleRate : Int) :
    Except String (List Int) :=
  match map with
  | [] => .ok [0]
  | p :: rest => do
      let later ← boundaryLoop sampleRate 0 p rest
      return 0 :: later

def samplesAtTick (map : List TempoPoint) (S : List Int) (sampleRate tick : Int) :
    Except String Int :=
  let t := min (max 0 tick) MAX_TICK
  let j := runIndex (fun p => decide (p.tick ≤ t)) map
  match S[j]?, map[j]? with
  | some start, some p => do
      let seg ← segSamples (t - p.tick) sampleRate p.milliBpm
      return Binary64.ofInt (start + seg)
  | _, _ => .error "undefined"

def tickAtSample (map : List TempoPoint) (S : List Int) (sampleRate sample : Int) :
    Except String Int :=
  let s := max 0 sample
  let j := runIndex (fun start => decide (start ≤ s)) S
  match S[j]?, map[j]? with
  | some start, some p => do
      let dt ← roundDiv ((s - start) * 2 * p.milliBpm) (sampleRate * 125)
      return Binary64.ofInt (min (p.tick + dt) MAX_TICK)
  | _, _ => .error "undefined"

theorem roundDiv_of_nonneg {num den : Int} (hnum : 0 ≤ num) (hden : 0 < den) :
    roundDiv num den = .ok (halfUp num den) := by
  unfold roundDiv halfUp
  rw [if_neg (by omega), Int.tdiv_eq_ediv_of_nonneg (by omega)]

/-- `roundDiv` throws on every negative numerator. -/
theorem roundDiv_of_neg {num den : Int} (hnum : num < 0) :
    roundDiv num den = .error "roundDiv: domaine positif" := by
  unfold roundDiv
  rw [if_pos (Or.inl hnum)]

theorem segSamples_of_nonneg {dt sr m : Int} (hdt : 0 ≤ dt) (hsr : 0 ≤ sr)
    (hm : 0 < 2 * m) : segSamples dt sr m = .ok (span sr dt m) :=
  roundDiv_of_nonneg (by positivity) hm

theorem effectiveMap_eq_cons (reg : Int) (map : List TempoPoint) :
    ∃ p rest, effectiveMap reg map = p :: rest ∧ p.tick = 0 := by
  unfold effectiveMap
  cases map with
  | nil => exact ⟨_, _, rfl, rfl⟩
  | cons p rest =>
      by_cases hzero : p.tick = 0
      · exact ⟨p.clamp, rest.map TempoPoint.clamp, by simp [hzero], hzero⟩
      · refine ⟨⟨0, clampMilliBpm reg⟩, (p :: rest).map TempoPoint.clamp, ?_, rfl⟩
        simp only [ne_eq, hzero, not_false_eq_true, if_true]

theorem effectiveMap_inRange (reg : Int) (map : List TempoPoint) :
    ∀ p ∈ effectiveMap reg map, p.InRange := by
  intro p hp
  have hclamped : ∀ q ∈ map.map TempoPoint.clamp, q.InRange := by
    intro q hq
    obtain ⟨q', _, rfl⟩ := List.mem_map.mp hq
    exact q'.clamp_inRange
  unfold effectiveMap at hp
  cases map with
  | nil =>
      obtain rfl := List.mem_singleton.mp hp
      exact clampMilliBpm_bounds reg
  | cons q rest =>
      simp only at hp
      split at hp
      · rcases List.mem_cons.mp hp with rfl | hmem
        · exact clampMilliBpm_bounds reg
        · exact hclamped p hmem
      · exact hclamped p hp

/-- Where no breakpoint goes back in time, the table is the exact one. -/
theorem boundaryLoop_of_sorted {sr : Int} (hsr : 0 ≤ sr) (b : Boundary)
    (rest : List TempoPoint)
    (hsorted : (b.point :: rest).IsChain (fun p q => p.tick ≤ q.tick))
    (hpos : ∀ p ∈ b.point :: rest, 0 < 2 * p.milliBpm) :
    boundaryLoop sr b.start b.point rest =
      .ok ((tableFrom Binary64.ofInt sr b rest).map Boundary.start) := by
  induction rest generalizing b with
  | nil => rfl
  | cons q rest ih =>
      rw [List.isChain_cons_cons] at hsorted
      have hdt : 0 ≤ Binary64.ofInt (q.tick - b.point.tick) :=
        Binary64.min_le_ofInt (by omega) (by norm_num) (by omega)
      have hm : 0 < 2 * b.point.milliBpm := hpos _ (by simp)
      have hnext := ih (b.next Binary64.ofInt sr q) hsorted.2
        (fun p hp => hpos p (List.mem_cons_of_mem _ hp))
      simp only [Boundary.next] at hnext
      simp only [boundaryLoop, segSamples_of_nonneg hdt hsr hm, bind, Except.bind, hnext]
      rfl

theorem buildBoundaryTable_of_sorted {sr : Int} (hsr : 0 ≤ sr) (p : TempoPoint)
    (rest : List TempoPoint)
    (hsorted : (p :: rest).IsChain (fun p q => p.tick ≤ q.tick))
    (hpos : ∀ q ∈ p :: rest, 0 < 2 * q.milliBpm) :
    buildBoundaryTable (p :: rest) sr =
      .ok (0 :: (tableFrom Binary64.ofInt sr ⟨0, p⟩ rest).map Boundary.start) := by
  have hloop := boundaryLoop_of_sorted hsr ⟨0, p⟩ rest hsorted hpos
  simp only at hloop
  simp only [buildBoundaryTable, bind, Except.bind, hloop]
  rfl

/-- A table that is built shows that no breakpoint goes back in time. -/
theorem sorted_of_boundaryLoop {sr : Int} (hsr : 0 < sr) (acc : Int) (p : TempoPoint)
    (rest : List TempoPoint) {S : List Int}
    (hbuilt : boundaryLoop sr acc p rest = .ok S) :
    (p :: rest).IsChain (fun p q => p.tick ≤ q.tick) := by
  induction rest generalizing acc p S with
  | nil => exact List.isChain_singleton p
  | cons q rest ih =>
      rw [List.isChain_cons_cons]
      by_cases hback : q.tick < p.tick
      · have hneg : Binary64.ofInt (q.tick - p.tick) < 0 :=
          Binary64.ofInt_neg (by omega)
        have hthrow : segSamples (Binary64.ofInt (q.tick - p.tick)) sr p.milliBpm =
            .error "roundDiv: domaine positif" :=
          roundDiv_of_neg (by nlinarith)
        simp [boundaryLoop, hthrow, bind, Except.bind] at hbuilt
      · refine ⟨by omega, ?_⟩
        simp only [boundaryLoop, bind, Except.bind] at hbuilt
        split at hbuilt
        · cases hbuilt
        · split at hbuilt
          · cases hbuilt
          · rename_i hlater
            exact ih _ _ hlater

/-- The position of a tick, read off the exact table. -/
theorem samplesAtTick_of_sorted {sr : Int} (hsr : 0 ≤ sr) (b : Boundary)
    (rest : List TempoPoint) (tick : Int) (hzero : b.point.tick = 0)
    (hpos : ∀ p ∈ b.point :: rest, 0 < 2 * p.milliBpm) :
    let t := min (max 0 tick) MAX_TICK
    samplesAtTick (b.point :: rest)
        (b.start :: (tableFrom Binary64.ofInt sr b rest).map Boundary.start) sr tick =
      .ok (Binary64.ofInt ((locateTick Binary64.ofInt sr b rest t).sampleOf sr t)) := by
  intro t
  obtain ⟨hstart, hpoint⟩ := columns_at_tick Binary64.ofInt sr b rest t
  have hreach := locateTick_tick_le Binary64.ofInt sr b rest t
    (by rw [hzero]; simp only [t, MAX_TICK]; omega)
  have hm : 0 < 2 * (locateTick Binary64.ofInt sr b rest t).point.milliBpm :=
    locateTick_point Binary64.ofInt sr b rest t hpos
  simp only [samplesAtTick, t] at hstart hpoint hreach hm ⊢
  rw [hstart, hpoint]
  simp only
  rw [segSamples_of_nonneg (by omega) hsr hm]
  rfl

/-- The tick of a position, read off the exact table. -/
theorem tickAtSample_of_sorted {sr : Int} (hsr : 0 < sr) (b : Boundary)
    (rest : List TempoPoint) (sample : Int) (hzero : b.start = 0)
    (hpos : ∀ p ∈ b.point :: rest, 0 < 2 * p.milliBpm) :
    let s := max 0 sample
    tickAtSample (b.point :: rest)
        (b.start :: (tableFrom Binary64.ofInt sr b rest).map Boundary.start) sr sample =
      .ok (Binary64.ofInt
        (min ((locateSample Binary64.ofInt sr b rest s).tickOf sr s) MAX_TICK)) := by
  intro s
  obtain ⟨hstart, hpoint⟩ := columns_at_sample Binary64.ofInt sr b rest s
  have hreach := locateSample_start_le Binary64.ofInt sr b rest s
    (by rw [hzero]; simp only [s]; omega)
  have hm : 0 < 2 * (locateSample Binary64.ofInt sr b rest s).point.milliBpm :=
    locateSample_point Binary64.ofInt sr b rest s hpos
  have hnum : 0 ≤ (s - (locateSample Binary64.ofInt sr b rest s).start) * 2 *
      (locateSample Binary64.ofInt sr b rest s).point.milliBpm := by
    have hdelta : 0 ≤ s - (locateSample Binary64.ofInt sr b rest s).start := by omega
    nlinarith
  simp only [tickAtSample, s] at hstart hpoint hnum ⊢
  rw [hstart, hpoint]
  simp only
  rw [roundDiv_of_nonneg hnum (by omega)]
  rfl

/-- Positions of admitted ticks are below `2 ^ 53`: going through `Number`
changes nothing. -/
theorem samplesAtTick_exact {sr : Int} (hsr : 0 ≤ sr) (hmax : sr ≤ 2 ^ 20) (b : Boundary)
    (rest : List TempoPoint) (tick t : Int) (ht : min (max 0 tick) MAX_TICK = t)
    (hzero : b.point.tick = 0) (hstart : b.start = 0)
    (hsorted : (b.point :: rest).IsChain (fun p q => p.tick ≤ q.tick))
    (hrange : ∀ p ∈ b.point :: rest, p.InRange) :
    samplesAtTick (b.point :: rest)
        (b.start :: (tableFrom Binary64.ofInt sr b rest).map Boundary.start) sr tick =
      .ok ((locateTick Binary64.ofInt sr b rest t).sampleOf sr t) := by
  have hpos : ∀ p ∈ b.point :: rest, 0 < 2 * p.milliBpm := fun p hp => (hrange p hp).pos
  have hread := samplesAtTick_of_sorted hsr b rest tick hzero hpos
  have htlow : 0 ≤ t := by
    rw [← ht]
    norm_num [MAX_TICK]
  have hthigh : t ≤ MAX_TICK := ht ▸ min_le_right _ _
  have hlow := start_le_sampleOf_locateTick safeDiff_binary64 hsr b rest t (by omega) hsorted
    hpos
  have hhigh := sampleOf_locateTick_le safeDiff_binary64 hsr b rest t (by omega) (by omega)
    hthigh hsorted hrange
  have hproduct : (t - b.point.tick) * sr ≤ MAX_TICK * 2 ^ 20 :=
    mul_le_mul (by omega) hmax hsr (by norm_num [MAX_TICK])
  simp only [ht] at hread
  rw [hread, Binary64.ofInt_of_natAbs_lt]
  norm_num [MAX_TICK] at hproduct
  omega

/-- The way back ends on an admitted tick, which a double holds. -/
theorem tickAtSample_exact {sr : Int} (hsr : 0 < sr) (b : Boundary) (rest : List TempoPoint)
    (sample s : Int) (hs : max 0 sample = s) (hzero : b.point.tick = 0) (hstart : b.start = 0)
    (hsorted : (b.point :: rest).IsChain (fun p q => p.tick ≤ q.tick))
    (hrange : ∀ p ∈ b.point :: rest, p.InRange) :
    tickAtSample (b.point :: rest)
        (b.start :: (tableFrom Binary64.ofInt sr b rest).map Boundary.start) sr sample =
      .ok (min ((locateSample Binary64.ofInt sr b rest s).tickOf sr s) MAX_TICK) := by
  have hread := tickAtSample_of_sorted hsr b rest sample hstart
    (fun p hp => (hrange p hp).pos)
  have hbegin := locateSample_start_le Binary64.ofInt sr b rest s (by omega)
  have hm := (locateSample_point Binary64.ofInt sr b rest s hrange).pos
  have hfloor := locateSample_point Binary64.ofInt sr b rest s
    (tick_nonneg_of_sorted hzero.ge hsorted)
  have hquot : 0 ≤ halfUp ((s - (locateSample Binary64.ofInt sr b rest s).start) * 2 *
      (locateSample Binary64.ofInt sr b rest s).point.milliBpm) (sr * 125) := by
    apply halfUp_nonneg (by omega)
    rw [mul_assoc]
    exact mul_nonneg (by omega) hm.le
  simp only [hs] at hread
  rw [hread, Binary64.ofInt_of_natAbs_lt]
  unfold Boundary.tickOf MAX_TICK
  omega

end DawProject.Tempo.Web
