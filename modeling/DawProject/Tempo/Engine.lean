import DawProject.Tempo.Table

/-!
The C++ tempo kernel, `engine/src/graph/tempo.h`. Every operation is an
`int64_t` operation: a result outside the type is a signed overflow and leaves
the program without a defined value (`none`). Integer division truncates.
-/

namespace DawProject.Tempo.Engine

open HalfUp LeadingRun Machine

def kMaxTick : Int := MAX_TICK

def roundDiv (num den : Int) : Option Int := do
  let twice ← int64.fit (2 * num)
  let sum ← int64.fit (twice + den)
  let den2 ← int64.fit (2 * den)
  int64.div sum den2

def segSamples (dt_ticks sample_rate milli_bpm : Int) : Option Int := do
  let a ← int64.fit (dt_ticks * sample_rate)
  let num ← int64.fit (a * 125)
  let den ← int64.fit (2 * milli_bpm)
  roundDiv num den

def effectiveMap (tempo_milli_bpm : Int) (tempo_map : List TempoPoint) : List TempoPoint :=
  let reg := clampMilliBpm tempo_milli_bpm
  match tempo_map with
  | [] => [⟨0, reg⟩]
  | front :: _ =>
      (if front.tick ≠ 0 then [⟨0, reg⟩] else []) ++ tempo_map.map TempoPoint.clamp

/-- The `for` loop of `buildBoundaryTable` from the breakpoint `p`, whose
accumulated start is `acc`. -/
def boundaryLoop (sample_rate : Int) : Int → TempoPoint → List TempoPoint →
    Option (List Int)
  | _, _, [] => some []
  | acc, p, q :: rest => do
      let dt ← int64.fit (q.tick - p.tick)
      let seg ← segSamples dt sample_rate p.milliBpm
      let start ← int64.fit (acc + seg)
      let later ← boundaryLoop sample_rate start q rest
      return start :: later

def buildBoundaryTable (map : List TempoPoint) (sample_rate : Int) : Option (List Int) :=
  match map with
  | [] => some [0]
  | p :: rest => do
      let later ← boundaryLoop sample_rate 0 p rest
      return 0 :: later

def samplesAtTick (map : List TempoPoint) (S : List Int) (sample_rate tick : Int) :
    Option Int := do
  let tick := max 0 (min kMaxTick tick)
  let j := runIndex (fun p => decide (p.tick ≤ tick)) map
  let start ← S[j]?
  let p ← map[j]?
  let dt ← int64.fit (tick - p.tick)
  let seg ← segSamples dt sample_rate p.milliBpm
  int64.fit (start + seg)

def tickAtSample (map : List TempoPoint) (S : List Int) (sample_rate sample : Int) :
    Option Int := do
  let sample := max 0 sample
  let j := runIndex (fun start => decide (start ≤ sample)) S
  let start ← S[j]?
  let p ← map[j]?
  let delta ← int64.fit (sample - start)
  let twice ← int64.fit (delta * 2)
  let num ← int64.fit (twice * p.milliBpm)
  let den ← int64.fit (sample_rate * 125)
  let dt ← roundDiv num den
  let out ← int64.fit (p.tick + dt)
  return min kMaxTick out

/-- Largest value of the type. -/
def kInt64Max : Int := 9223372036854775807

/-- The division is defined exactly when the doubled numerator plus the
denominator and the doubled denominator fit. -/
theorem roundDiv_of_fits {num den : Int} (hnum : 0 ≤ num) (hden : 0 < den)
    (hsum : 2 * num + den ≤ kInt64Max) (hden2 : 2 * den ≤ kInt64Max) :
    roundDiv num den = some (halfUp num den) := by
  unfold kInt64Max at hsum hden2
  have hquot : (2 * num + den).tdiv (2 * den) = halfUp num den :=
    Int.tdiv_eq_ediv_of_nonneg (by omega)
  have hnonneg := halfUp_nonneg hden hnum
  have hle : halfUp num den ≤ 2 * num + den := by
    unfold halfUp
    exact Int.ediv_le_self _ (by omega)
  unfold roundDiv
  rw [Range.fit_of_mem (by simp; omega) (by simp; omega)]
  simp only [Option.bind_eq_bind, Option.bind_some]
  rw [Range.fit_of_mem (by simp; omega) (by simp; omega)]
  simp only [Option.bind_some]
  rw [Range.fit_of_mem (by simp; omega) (by simp; omega)]
  simp only [Option.bind_some, Range.div]
  rw [if_neg (by omega), hquot, Range.fit_of_mem (by simp; omega) (by simp; omega)]

theorem roundDiv_fits {num den v : Int} (h : roundDiv num den = some v) :
    2 * num + den ≤ kInt64Max := by
  unfold roundDiv at h
  simp only [Option.bind_eq_bind, Option.bind_eq_some_iff] at h
  obtain ⟨twice, htwice, sum, hsum, _⟩ := h
  obtain ⟨rfl, _, _⟩ := Range.fit_eq_some_iff.mp htwice
  obtain ⟨rfl, _, hhi⟩ := Range.fit_eq_some_iff.mp hsum
  exact hhi

theorem segSamples_of_fits {dt sr m : Int} (hdt : 0 ≤ dt) (hsr : 0 < sr)
    (hm : MIN_MILLI_BPM ≤ m ∧ m ≤ MAX_MILLI_BPM)
    (hsum : 2 * (dt * sr * 125) + 2 * m ≤ kInt64Max) :
    segSamples dt sr m = some (span sr dt m) := by
  obtain ⟨hmin, hmax⟩ := hm
  unfold MIN_MILLI_BPM at hmin
  unfold MAX_MILLI_BPM at hmax
  have hprod : 0 ≤ dt * sr := by positivity
  have hcap := hsum
  unfold kInt64Max at hcap
  unfold segSamples
  rw [Range.fit_of_mem (by simp; omega) (by simp; omega)]
  simp only [Option.bind_eq_bind, Option.bind_some]
  rw [Range.fit_of_mem (by simp; omega) (by simp; omega)]
  simp only [Option.bind_some]
  rw [Range.fit_of_mem (by simp; omega) (by simp; omega)]
  simp only [Option.bind_some]
  exact roundDiv_of_fits (by omega) (by omega) hsum (by unfold kInt64Max; omega)

theorem segSamples_fits {dt sr m v : Int} (h : segSamples dt sr m = some v) :
    2 * (dt * sr * 125) + 2 * m ≤ kInt64Max := by
  unfold segSamples at h
  simp only [Option.bind_eq_bind, Option.bind_eq_some_iff] at h
  obtain ⟨a, ha, num, hnum, den, hden, hdiv⟩ := h
  obtain ⟨rfl, _, _⟩ := Range.fit_eq_some_iff.mp ha
  obtain ⟨rfl, _, _⟩ := Range.fit_eq_some_iff.mp hnum
  obtain ⟨rfl, _, _⟩ := Range.fit_eq_some_iff.mp hden
  exact roundDiv_fits hdiv

/-- Both languages build the same effective map. -/
theorem effectiveMap_eq_cons (reg : Int) (map : List TempoPoint) :
    effectiveMap reg map = match map with
      | [] => [⟨0, clampMilliBpm reg⟩]
      | p :: _ => if p.tick ≠ 0 then ⟨0, clampMilliBpm reg⟩ :: map.map TempoPoint.clamp
          else map.map TempoPoint.clamp := by
  cases map with
  | nil => rfl
  | cons p rest =>
      by_cases hzero : p.tick = 0 <;> simp [effectiveMap, hzero]

/-- Every segment of the table can be computed in 64 bits: the doubled product
of each step and the running sum stay inside the type. -/
def SegmentsFit (sr : Int) : Boundary → List TempoPoint → Prop
  | _, [] => True
  | b, q :: rest =>
      2 * ((q.tick - b.point.tick) * sr * 125) + 2 * b.point.milliBpm ≤ kInt64Max ∧
        (b.next id sr q).start ≤ kInt64Max ∧ SegmentsFit sr (b.next id sr q) rest

instance SegmentsFit.decidable (sr : Int) : ∀ (b : Boundary) (rest : List TempoPoint),
    Decidable (SegmentsFit sr b rest)
  | _, [] => isTrue trivial
  | b, q :: rest =>
      have := SegmentsFit.decidable sr (b.next id sr q) rest
      inferInstanceAs (Decidable (_ ∧ _ ∧ _))

section Spec

variable {sr : Int}

/-- Where the segments fit, the engine's table is the exact one. -/
theorem boundaryLoop_of_fits (hsr : 0 < sr) (b : Boundary) (rest : List TempoPoint)
    (hfloor : 0 ≤ b.point.tick) (hstart : 0 ≤ b.start)
    (hsorted : (b.point :: rest).IsChain (fun p q => p.tick ≤ q.tick))
    (hrange : ∀ p ∈ b.point :: rest, p.InRange)
    (hint : ∀ p ∈ b.point :: rest, p.tick ≤ kInt64Max) (hfit : SegmentsFit sr b rest) :
    boundaryLoop sr b.start b.point rest =
      some ((tableFrom id sr b rest).map Boundary.start) := by
  induction rest generalizing b with
  | nil => rfl
  | cons q rest ih =>
      rw [List.isChain_cons_cons] at hsorted
      obtain ⟨hseg, hsum, htail⟩ := hfit
      have hq := hint q (by simp)
      have hm := hrange b.point (by simp)
      have hdt0 : 0 ≤ q.tick - b.point.tick := by omega
      have hspan := span_nonneg hsr.le hm.pos hdt0
      have hnext := ih (b.next id sr q) (by simp only [Boundary.next]; omega)
        (by simp only [Boundary.next, id]; omega) hsorted.2
        (fun p hp => hrange p (List.mem_cons_of_mem _ hp))
        (fun p hp => hint p (List.mem_cons_of_mem _ hp)) htail
      have hdt : int64.fit (q.tick - b.point.tick) = some (q.tick - b.point.tick) := by
        unfold kInt64Max at hq
        exact Range.fit_of_mem (by simp; omega) (by simp; omega)
      have hstep : int64.fit (b.start + span sr (q.tick - b.point.tick) b.point.milliBpm) =
          some (b.next id sr q).start := by
        simp only [Boundary.next, id] at hsum ⊢
        unfold kInt64Max at hsum
        exact Range.fit_of_mem (by simp; omega) (by simp; omega)
      have hsegment := segSamples_of_fits hdt0 hsr hm hseg
      simp only [boundaryLoop, hdt, hsegment, hstep, Option.bind_eq_bind, Option.bind_some]
      simp only [Boundary.next] at hnext ⊢
      rw [hnext]
      rfl

theorem buildBoundaryTable_of_fits (hsr : 0 < sr) (p : TempoPoint) (rest : List TempoPoint)
    (hfloor : 0 ≤ p.tick)
    (hsorted : (p :: rest).IsChain (fun p q => p.tick ≤ q.tick))
    (hrange : ∀ q ∈ p :: rest, q.InRange) (hint : ∀ q ∈ p :: rest, q.tick ≤ kInt64Max)
    (hfit : SegmentsFit sr ⟨0, p⟩ rest) :
    buildBoundaryTable (p :: rest) sr =
      some (0 :: (tableFrom id sr ⟨0, p⟩ rest).map Boundary.start) := by
  have hloop := boundaryLoop_of_fits hsr ⟨0, p⟩ rest hfloor (le_refl 0) hsorted hrange hint hfit
  simp only at hloop
  simp only [buildBoundaryTable, hloop]
  rfl

/-- A table the engine completes without overflow shows that the segments fit. -/
theorem fits_of_boundaryLoop (hsr : 0 < sr) (b : Boundary) (rest : List TempoPoint)
    {S : List Int} (hsorted : (b.point :: rest).IsChain (fun p q => p.tick ≤ q.tick))
    (hrange : ∀ p ∈ b.point :: rest, p.InRange)
    (hbuilt : boundaryLoop sr b.start b.point rest = some S) : SegmentsFit sr b rest := by
  induction rest generalizing b S with
  | nil => trivial
  | cons q rest ih =>
      rw [List.isChain_cons_cons] at hsorted
      have hm := hrange b.point (by simp)
      simp only [boundaryLoop, Option.bind_eq_bind, Option.bind_eq_some_iff] at hbuilt
      obtain ⟨dt, hdt, seg, hseg, start, hstart, later, hlater, _⟩ := hbuilt
      obtain ⟨rfl, _, _⟩ := Range.fit_eq_some_iff.mp hdt
      have hfits := segSamples_fits hseg
      have hexact := segSamples_of_fits (by omega) hsr hm hfits
      obtain rfl : span sr (q.tick - b.point.tick) b.point.milliBpm = seg :=
        Option.some.inj (hexact.symm.trans hseg)
      obtain ⟨rfl, _, hhi⟩ := Range.fit_eq_some_iff.mp hstart
      refine ⟨hfits, hhi, ?_⟩
      exact ih (b.next id sr q) hsorted.2 (fun p hp => hrange p (List.mem_cons_of_mem _ hp))
        hlater

/-- The sample rates at which a query over the whole admitted tick range stays
inside 64 bits. -/
def kMaxSampleRate : Int := 536870

/-- A stretch of admitted ticks at an admitted rate fits in 64 bits. -/
theorem segSamples_of_admitted {dt m : Int} (hsr : 0 < sr) (hmax : sr ≤ kMaxSampleRate)
    (hdt : 0 ≤ dt) (hdt' : dt ≤ MAX_TICK) (hm : MIN_MILLI_BPM ≤ m ∧ m ≤ MAX_MILLI_BPM) :
    segSamples dt sr m = some (span sr dt m) := by
  have hproduct : dt * sr ≤ MAX_TICK * kMaxSampleRate :=
    mul_le_mul hdt' hmax (by omega) (by unfold MAX_TICK; omega)
  apply segSamples_of_fits hdt hsr hm
  obtain ⟨_, hmm⟩ := hm
  unfold MAX_TICK kMaxSampleRate kInt64Max MAX_MILLI_BPM at *
  omega

/-- A position inside the range the kernel admits never overflows. -/
theorem samplesAtTick_of_sorted (hsr : 0 < sr) (hmax : sr ≤ kMaxSampleRate) (b : Boundary)
    (rest : List TempoPoint) (tick t : Int) (ht : max 0 (min kMaxTick tick) = t)
    (htick : b.point.tick = 0) (hstart : b.start = 0)
    (hsorted : (b.point :: rest).IsChain (fun p q => p.tick ≤ q.tick))
    (hrange : ∀ p ∈ b.point :: rest, p.InRange) :
    samplesAtTick (b.point :: rest)
        (b.start :: (tableFrom id sr b rest).map Boundary.start) sr tick =
      some ((locateTick id sr b rest t).sampleOf sr t) := by
  have htlow : 0 ≤ t := by omega
  have hthigh : t ≤ MAX_TICK := by
    unfold kMaxTick MAX_TICK at *
    omega
  obtain ⟨hs, hp⟩ := columns_at_tick id sr b rest t
  have hreach := locateTick_tick_le id sr b rest t (by omega)
  have hm := locateTick_point id sr b rest t hrange
  have hfloor := locateTick_point id sr b rest t (tick_nonneg_of_sorted (by omega) hsorted)
  have hlow := start_le_sampleOf_locateTick safeDiff_id (by omega : 0 ≤ sr) b rest t
    (by omega) hsorted (fun p hp => (hrange p hp).pos)
  have hhigh := sampleOf_locateTick_le safeDiff_id (by omega : 0 ≤ sr) b rest t (by omega)
    (by omega) hthigh hsorted hrange
  have htsr : (t - b.point.tick) * sr ≤ MAX_TICK * kMaxSampleRate :=
    mul_le_mul (by omega) hmax (by omega) (by unfold MAX_TICK; omega)
  have hseg := segSamples_of_admitted hsr hmax
    (show 0 ≤ t - (locateTick id sr b rest t).point.tick by omega) (by omega) hm
  have hdt : int64.fit (t - (locateTick id sr b rest t).point.tick) =
      some (t - (locateTick id sr b rest t).point.tick) := by
    unfold MAX_TICK at hthigh
    exact Range.fit_of_mem (by simp; omega) (by simp; omega)
  have hout : int64.fit ((locateTick id sr b rest t).sampleOf sr t) =
      some ((locateTick id sr b rest t).sampleOf sr t) := by
    unfold MAX_TICK kMaxSampleRate at htsr
    exact Range.fit_of_mem (by simp; omega) (by simp; omega)
  simp only [samplesAtTick, ht, hs, hp, hdt, hseg, Option.bind_eq_bind, Option.bind_some]
  exact hout

/-- The length of a stretch, measured back in the units of its tempo. -/
theorem delta_le_of_le_sampleOf {b : Boundary} {s : Int} (hsr : 0 < sr)
    (hfloor : 0 ≤ b.point.tick)
    (hs : s ≤ b.sampleOf sr MAX_TICK) (hm : b.point.InRange) :
    (s - b.start) * (2 * b.point.milliBpm) ≤ MAX_TICK * sr * 125 + b.point.milliBpm := by
  have hpos := hm.pos
  obtain ⟨hlow, _⟩ := halfUp_bounds ((MAX_TICK - b.point.tick) * sr * 125) hpos
  unfold Boundary.sampleOf span at hs
  have hscale : (s - b.start) * (2 * b.point.milliBpm) ≤
      halfUp ((MAX_TICK - b.point.tick) * sr * 125) (2 * b.point.milliBpm) *
        (2 * b.point.milliBpm) :=
    Int.mul_le_mul_of_nonneg_right (by omega) (by omega)
  have hticks : (MAX_TICK - b.point.tick) * sr * 125 ≤ MAX_TICK * sr * 125 := by nlinarith
  omega

/-- Once the search stands on the sample it looks for, it only crosses
segments without samples. -/
theorem start_of_locateSample_at_start (hsr : 0 < sr) (b : Boundary)
    (rest : List TempoPoint) (s : Int) (hedge : s = b.start)
    (hsorted : (b.point :: rest).IsChain (fun p q => p.tick ≤ q.tick))
    (hrange : ∀ p ∈ b.point :: rest, p.InRange) :
    s = (locateSample id sr b rest s).start := by
  induction rest generalizing b with
  | nil => exact hedge
  | cons q rest ih =>
      rw [List.isChain_cons_cons] at hsorted
      have hdt : 0 ≤ q.tick - b.point.tick := by omega
      have hspan := span_nonneg hsr.le (hrange b.point (by simp)).pos hdt
      rw [locateSample_cons]
      split
      · rename_i hnext
        refine ih (b.next id sr q) ?_ hsorted.2
          (fun p hp => hrange p (List.mem_cons_of_mem _ hp))
        simp only [Boundary.next, id] at hnext ⊢
        omega
      · exact hedge

/-- A sample that some admitted tick reaches lies at most the admitted range
past the start of its segment, or exactly on a start beyond the range. -/
theorem locateSample_delta (hsr : 0 < sr) (b : Boundary) (rest : List TempoPoint) (s : Int)
    (hb : b.start ≤ s) (hfloor : 0 ≤ b.point.tick) (hrest : b.point.tick ≤ MAX_TICK)
    (hs : s ≤ (locateTick id sr b rest MAX_TICK).sampleOf sr MAX_TICK)
    (hsorted : (b.point :: rest).IsChain (fun p q => p.tick ≤ q.tick))
    (hrange : ∀ p ∈ b.point :: rest, p.InRange) :
    (s - (locateSample id sr b rest s).start) *
        (2 * (locateSample id sr b rest s).point.milliBpm) ≤
      MAX_TICK * sr * 125 + (locateSample id sr b rest s).point.milliBpm ∧
    ((locateSample id sr b rest s).point.tick ≤ MAX_TICK ∨
      s = (locateSample id sr b rest s).start) := by
  induction rest generalizing b with
  | nil =>
      simp only [locateTick, locateSample, tableFrom, lastOfRun_nil] at hs ⊢
      exact ⟨delta_le_of_le_sampleOf hsr hfloor hs (hrange b.point (by simp)),
        Or.inl hrest⟩
  | cons q rest ih =>
      rw [List.isChain_cons_cons] at hsorted
      have hm := hrange b.point (by simp)
      have htail : ∀ p ∈ q :: rest, p.InRange :=
        fun p hp => hrange p (List.mem_cons_of_mem _ hp)
      rw [locateTick_cons] at hs
      rw [locateSample_cons]
      by_cases hreach : q.tick ≤ MAX_TICK
      · rw [if_pos hreach] at hs
        split
        · rename_i hnext
          exact ih (b.next id sr q) hnext (by simp only [Boundary.next]; omega) hreach hs
            hsorted.2 htail
        · rename_i hbefore
          have hmono := span_mono (by omega : 0 ≤ sr) hm.pos
            (show q.tick - b.point.tick ≤ MAX_TICK - b.point.tick by omega)
          refine ⟨delta_le_of_le_sampleOf hsr hfloor ?_ hm, Or.inl hrest⟩
          simp only [Boundary.next, id] at hbefore
          unfold Boundary.sampleOf
          omega
      · rw [if_neg hreach] at hs
        have hmono := span_mono (by omega : 0 ≤ sr) hm.pos
          (show MAX_TICK - b.point.tick ≤ q.tick - b.point.tick by omega)
        split
        · rename_i hnext
          have hedge : s = (b.next id sr q).start := by
            simp only [Boundary.next, id] at hnext ⊢
            unfold Boundary.sampleOf at hs
            omega
          have hstays := start_of_locateSample_at_start hsr (b.next id sr q) rest s hedge
            hsorted.2 htail
          have hmlast := locateSample_point id sr (b.next id sr q) rest s htail
          rw [← hstays]
          have hsrt : 0 ≤ MAX_TICK * sr * 125 := by unfold MAX_TICK; omega
          refine ⟨?_, Or.inr rfl⟩
          have hmpos := hmlast.pos
          have hzero : (s - s) * (2 * (locateSample id sr (b.next id sr q) rest
              s).point.milliBpm) = 0 := by rw [sub_self, zero_mul]
          omega
        · exact ⟨delta_le_of_le_sampleOf hsr hfloor hs hm, Or.inl hrest⟩

/-- The arithmetic of the way back, from the segment it starts in. -/
theorem tickAtBoundary_of_admitted {c : Boundary} {s : Int} (hsr : 0 < sr)
    (hmax : sr ≤ kMaxSampleRate) (hbegin : c.start ≤ s) (hm : c.point.InRange)
    (hfloor : 0 ≤ c.point.tick) (hlast : c.point.tick ≤ kInt64Max)
    (hdelta : (s - c.start) * (2 * c.point.milliBpm) ≤ MAX_TICK * sr * 125 + c.point.milliBpm)
    (hedge : c.point.tick ≤ MAX_TICK ∨ s = c.start) :
    (do
      let delta ← int64.fit (s - c.start)
      let twice ← int64.fit (delta * 2)
      let num ← int64.fit (twice * c.point.milliBpm)
      let den ← int64.fit (sr * 125)
      let dt ← roundDiv num den
      let out ← int64.fit (c.point.tick + dt)
      return min kMaxTick out) = some (min kMaxTick (c.tickOf sr s)) := by
  obtain ⟨hmin, hmm⟩ := hm
  have hden : 0 < sr * 125 := by omega
  have hd0 : 0 ≤ s - c.start := by omega
  have hnum0 : 0 ≤ (s - c.start) * 2 * c.point.milliBpm := by
    unfold MIN_MILLI_BPM at hmin
    positivity
  have hnum : (s - c.start) * 2 * c.point.milliBpm ≤
      MAX_TICK * sr * 125 + c.point.milliBpm := by
    rw [mul_assoc]
    exact hdelta
  have hsmall : (s - c.start) * 2 ≤ (s - c.start) * 2 * c.point.milliBpm := by
    unfold MIN_MILLI_BPM at hmin
    exact le_mul_of_one_le_right (by omega) (by omega)
  have hdiv : roundDiv ((s - c.start) * 2 * c.point.milliBpm) (sr * 125) =
      some (halfUp ((s - c.start) * 2 * c.point.milliBpm) (sr * 125)) := by
    apply roundDiv_of_fits hnum0 hden
    · unfold kMaxSampleRate MAX_TICK MAX_MILLI_BPM kInt64Max at *
      omega
    · unfold kMaxSampleRate kInt64Max at *
      omega
  obtain ⟨hlow, _⟩ := halfUp_bounds ((s - c.start) * 2 * c.point.milliBpm) hden
  have hquot0 := halfUp_nonneg hden hnum0
  have hout : c.point.tick + halfUp ((s - c.start) * 2 * c.point.milliBpm) (sr * 125) ≤
      kInt64Max := by
    rcases hedge with hin | rfl
    · have hquot : halfUp ((s - c.start) * 2 * c.point.milliBpm) (sr * 125) ≤
          halfUp ((s - c.start) * 2 * c.point.milliBpm) (sr * 125) * (sr * 125) :=
        le_mul_of_one_le_right hquot0 (by omega)
      unfold kMaxSampleRate MAX_TICK MAX_MILLI_BPM kInt64Max at *
      omega
    · rw [sub_self, zero_mul, zero_mul, halfUp_zero hden]
      omega
  unfold MAX_MILLI_BPM MAX_TICK kMaxSampleRate kInt64Max at *
  rw [Range.fit_of_mem (by simp; omega) (by simp; omega)]
  simp only [Option.bind_eq_bind, Option.bind_some]
  rw [Range.fit_of_mem (by simp; omega) (by simp; omega)]
  simp only [Option.bind_some]
  rw [Range.fit_of_mem (by simp; omega) (by simp; omega)]
  simp only [Option.bind_some]
  rw [Range.fit_of_mem (by simp; omega) (by simp; omega), Option.bind_some, hdiv]
  simp only [Option.bind_some]
  rw [Range.fit_of_mem (by simp; omega) (by simp; omega)]
  rfl

/-- The way back from a sample that an admitted tick can have stays inside 64
bits. -/
theorem tickAtSample_of_sorted (hsr : 0 < sr) (hmax : sr ≤ kMaxSampleRate) (b : Boundary)
    (rest : List TempoPoint) (sample s : Int) (hs : max 0 sample = s)
    (htick : b.point.tick = 0) (hstart : b.start = 0)
    (hreach : s ≤ (locateTick id sr b rest MAX_TICK).sampleOf sr MAX_TICK)
    (hsorted : (b.point :: rest).IsChain (fun p q => p.tick ≤ q.tick))
    (hrange : ∀ p ∈ b.point :: rest, p.InRange)
    (hint : ∀ p ∈ b.point :: rest, p.tick ≤ kInt64Max) :
    tickAtSample (b.point :: rest)
        (b.start :: (tableFrom id sr b rest).map Boundary.start) sr sample =
      some (min kMaxTick ((locateSample id sr b rest s).tickOf sr s)) := by
  obtain ⟨hfirst, hpoint⟩ := columns_at_sample id sr b rest s
  have hbegin := locateSample_start_le id sr b rest s (by omega)
  have hm := locateSample_point id sr b rest s hrange
  have hlast := locateSample_point id sr b rest s hint
  have hfloor := locateSample_point id sr b rest s (tick_nonneg_of_sorted htick.ge hsorted)
  have hzero : b.point.tick ≤ MAX_TICK := by
    rw [htick]
    norm_num [MAX_TICK]
  obtain ⟨hdelta, hedge⟩ := locateSample_delta hsr b rest s (by omega) htick.ge hzero hreach
    hsorted hrange
  simp only [tickAtSample, hs, hfirst, hpoint, Option.bind_eq_bind, Option.bind_some]
  exact tickAtBoundary_of_admitted hsr hmax hbegin hm hfloor hlast hdelta hedge

end Spec

end DawProject.Tempo.Engine
