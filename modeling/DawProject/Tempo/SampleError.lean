import DawProject.Tempo.Integral

/-!
The way from a sample to a tick and back to a sample. The tick is rounded in
the segment that holds the sample; it may round onto the next breakpoint, and
never past it, so both ways use the tempo of one segment.
-/

namespace DawProject.Tempo

open HalfUp LeadingRun
open Tempo.Engine (kInt64Max kMaxSampleRate kMaxTick)

/-- The trip from any sample of the admitted range to a tick and back: half a
tick and half a sample off, in the segment of the sample, and in order. -/
def Returns (map : List TempoPoint) (sr : Int) (S : List Int)
    (position tickAt : Int → Option Int) : Prop :=
  ∃ last, position MAX_TICK = some last ∧
    (∀ s, 0 ≤ s → s ≤ last → ∃ t s' p, tickAt s = some t ∧ position t = some s' ∧
      map[runIndex (fun start => decide (start ≤ s)) S]? = some p ∧
      |((s' - s : Int) : ℚ)| ≤ (samplesPerTick sr p.milliBpm + 1) / 2) ∧
    ∀ s s', 0 ≤ s → s ≤ s' → s' ≤ last →
      ∃ t t', tickAt s = some t ∧ tickAt s' = some t' ∧ t ≤ t'

/-- Both kernels build their table, and bring every sample back near itself. -/
def SamplesReturn (reg : Int) (map : List TempoPoint) (sr : Int) : Prop :=
  (∃ S, Web.buildBoundaryTable (Web.effectiveMap reg map) sr = .ok S ∧
    Returns (Web.effectiveMap reg map) sr S
      (fun t => (Web.samplesAtTick (Web.effectiveMap reg map) S sr t).toOption)
      (fun s => (Web.tickAtSample (Web.effectiveMap reg map) S sr s).toOption)) ∧
  ∃ S, Engine.buildBoundaryTable (Engine.effectiveMap reg map) sr = some S ∧
    Returns (Engine.effectiveMap reg map) sr S
      (Engine.samplesAtTick (Engine.effectiveMap reg map) S sr)
      (Engine.tickAtSample (Engine.effectiveMap reg map) S sr)

section Segment

variable {sr : Int} {b : Boundary}

theorem Boundary.tickOf_mono {s s' : Int} (hm : 0 < 2 * b.point.milliBpm)
    (hrate : 2 * b.point.milliBpm ≤ sr * 125) (hle : s ≤ s') : b.tickOf sr s ≤ b.tickOf sr s' := by
  have hscale : (s - b.start) * 2 * b.point.milliBpm ≤ (s' - b.start) * 2 * b.point.milliBpm := by
    rw [mul_assoc, mul_assoc]
    exact Int.mul_le_mul_of_nonneg_right (by omega) hm.le
  have hden : 0 < sr * 125 := by omega
  have hround := halfUp_mono hden hscale
  unfold Boundary.tickOf
  omega

theorem Boundary.tick_le_tickOf {s : Int} (hm : 0 < 2 * b.point.milliBpm)
    (hrate : 2 * b.point.milliBpm ≤ sr * 125) (hs : b.start ≤ s) :
    b.point.tick ≤ b.tickOf sr s := by
  have hnonneg : 0 ≤ (s - b.start) * 2 * b.point.milliBpm := by
    rw [mul_assoc]
    exact mul_nonneg (by omega) hm.le
  have hden : 0 < sr * 125 := by omega
  have hround := halfUp_nonneg hden hnonneg
  unfold Boundary.tickOf
  omega

/-- A sample at or before that of a tick is rounded to that tick at most. -/
theorem Boundary.tickOf_le {s t : Int} (hm : 0 < 2 * b.point.milliBpm)
    (hrate : 2 * b.point.milliBpm ≤ sr * 125) (hs : s ≤ b.sampleOf sr t) :
    b.tickOf sr s ≤ t := by
  calc
    b.tickOf sr s ≤ b.tickOf sr (b.sampleOf sr t) := Boundary.tickOf_mono hm hrate hs
    _ = t := Boundary.tickOf_sampleOf t hm hrate

theorem samplesPerTick_pos {m : Int} (hm : 0 < 2 * m) (hrate : 2 * m ≤ sr * 125) :
    0 < samplesPerTick sr m := by
  have hsr : (0 : ℚ) < sr := by
    have hpos : 0 < sr := by omega
    exact_mod_cast hpos
  have htempo : (0 : ℚ) < m := by
    have hpos : 0 < m := by omega
    exact_mod_cast hpos
  unfold samplesPerTick
  positivity

/-- Half a tick and half a sample, inside one segment. -/
theorem Boundary.sampleOf_tickOf_near (s : Int) (hm : 0 < 2 * b.point.milliBpm)
    (hrate : 2 * b.point.milliBpm ≤ sr * 125) :
    |((b.sampleOf sr (b.tickOf sr s) - s : Int) : ℚ)| ≤
      (samplesPerTick sr b.point.milliBpm + 1) / 2 := by
  have hsr : (sr : ℚ) ≠ 0 := by
    have hne : sr ≠ 0 := by omega
    exact_mod_cast hne
  have htempo : (b.point.milliBpm : ℚ) ≠ 0 := by
    have hne : b.point.milliBpm ≠ 0 := by omega
    exact_mod_cast hne
  have hpos := samplesPerTick_pos hm hrate
  have htick := abs_halfUp_sub_div_le ((s - b.start) * 2 * b.point.milliBpm)
    (show 0 < sr * 125 by omega)
  set q := halfUp ((s - b.start) * 2 * b.point.milliBpm) (sr * 125) with hq
  have hsample := abs_span_sub_le sr q hm
  have hcount : (((s - b.start) * 2 * b.point.milliBpm : Int) : ℚ) / ((sr * 125 : Int) : ℚ) *
      samplesPerTick sr b.point.milliBpm = (s : ℚ) - b.start := by
    unfold samplesPerTick
    push_cast
    field_simp
    ring
  have hscaled : |(q : ℚ) * samplesPerTick sr b.point.milliBpm - ((s : ℚ) - b.start)| ≤
      samplesPerTick sr b.point.milliBpm / 2 := by
    rw [← hcount, ← sub_mul, abs_mul, abs_of_pos hpos]
    calc
      _ ≤ 1 / 2 * samplesPerTick sr b.point.milliBpm := mul_le_mul_of_nonneg_right htick hpos.le
      _ = samplesPerTick sr b.point.milliBpm / 2 := by ring
  have hback : b.sampleOf sr (b.tickOf sr s) = b.start + span sr q b.point.milliBpm := by
    unfold Boundary.sampleOf Boundary.tickOf
    rw [← hq, add_sub_cancel_left]
  rw [hback]
  push_cast
  rw [abs_le] at hscaled hsample ⊢
  constructor <;> linarith [hscaled.1, hscaled.2, hsample.1, hsample.2]

end Segment

section Trip

variable {diff : Int → Int} {sr : Int}

/-- Only the breakpoints in the admitted range are reached. -/
theorem next_tick_le_of_start_le (hdiff : SafeDiff diff) {b : Boundary} {q : TempoPoint}
    {rest : List TempoPoint} {s : Int} (hb : b.point.tick ≤ MAX_TICK)
    (hm : 0 < 2 * b.point.milliBpm) (hrate : 2 * b.point.milliBpm ≤ sr * 125)
    (hs : s ≤ (locateTick diff sr b (q :: rest) MAX_TICK).sampleOf sr MAX_TICK)
    (hfloor : 0 ≤ b.point.tick) (hnext : (b.next diff sr q).start ≤ s) : q.tick ≤ MAX_TICK := by
  by_contra hfar
  rw [locateTick_cons, if_neg hfar] at hs
  have hgap : MAX_TICK - b.point.tick + 1 ≤ diff (q.tick - b.point.tick) :=
    hdiff.bound_le (by omega) (by unfold MAX_TICK; omega) (by omega)
  have hstrict := span_add_one_le hm hrate hgap
  simp only [Boundary.next, Boundary.sampleOf] at hs hnext
  omega

/-- The tick of a sample reads back in the segment of the sample. -/
theorem locateTick_tickOf (hdiff : SafeDiff diff) (b : Boundary) (rest : List TempoPoint)
    (s : Int) (hfloor : 0 ≤ b.point.tick) (hb : b.point.tick ≤ MAX_TICK) (hstart : b.start ≤ s)
    (hs : s ≤ (locateTick diff sr b rest MAX_TICK).sampleOf sr MAX_TICK)
    (hsorted : (b.point :: rest).IsChain (fun p q => p.tick ≤ q.tick))
    (hpos : ∀ p ∈ b.point :: rest, 0 < 2 * p.milliBpm)
    (hrate : ∀ p ∈ b.point :: rest, 2 * p.milliBpm ≤ sr * 125) :
    b.point.tick ≤ (locateSample diff sr b rest s).tickOf sr s ∧
      (locateSample diff sr b rest s).tickOf sr s ≤ MAX_TICK ∧
      (locateTick diff sr b rest ((locateSample diff sr b rest s).tickOf sr s)).sampleOf sr
          ((locateSample diff sr b rest s).tickOf sr s) =
        (locateSample diff sr b rest s).sampleOf sr
          ((locateSample diff sr b rest s).tickOf sr s) := by
  induction rest generalizing b with
  | nil =>
      have hm := hpos b.point (by simp)
      have hr := hrate b.point (by simp)
      simp only [locateTick, locateSample, tableFrom, lastOfRun_nil] at hs ⊢
      exact ⟨Boundary.tick_le_tickOf hm hr hstart, Boundary.tickOf_le hm hr hs, trivial⟩
  | cons q rest ih =>
      have hm := hpos b.point (by simp)
      have hr := hrate b.point (by simp)
      have hall := hsorted
      rw [List.isChain_cons_cons] at hsorted
      rw [locateSample_cons]
      split
      · rename_i hnext
        have hq := next_tick_le_of_start_le hdiff hb hm hr hs hfloor hnext
        rw [locateTick_cons, if_pos hq] at hs
        obtain ⟨hlow, hhigh, hback⟩ := ih (b.next diff sr q) (hfloor.trans hsorted.1) hq hnext hs
          hsorted.2 (fun p hp => hpos p (List.mem_cons_of_mem _ hp))
          (fun p hp => hrate p (List.mem_cons_of_mem _ hp))
        have hreach : q.tick ≤ (locateSample diff sr (b.next diff sr q) rest s).tickOf sr s := hlow
        refine ⟨hsorted.1.trans hreach, hhigh, ?_⟩
        rw [locateTick_cons, if_pos hreach]
        exact hback
      · rename_i hbefore
        have hlow := Boundary.tick_le_tickOf hm hr hstart
        rcases le_or_gt q.tick MAX_TICK with hq | hfar
        · have hedge : (b.next diff sr q).start = b.sampleOf sr q.tick := by
            simp only [Boundary.next, Boundary.sampleOf]
            rw [hdiff.exact _ (by omega) (by unfold MAX_TICK at hq; omega)]
          have hround : b.tickOf sr s ≤ q.tick :=
            Boundary.tickOf_le hm hr (by omega)
          refine ⟨hlow, hround.trans hq, ?_⟩
          rcases lt_or_eq_of_le hround with hinside | honto
          · rw [locateTick_cons, if_neg (not_le.mpr hinside)]
          · -- The tick has rounded onto the next breakpoint.
            rw [honto, locateTick_cons, if_pos (le_refl q.tick), ← hedge]
            exact sampleOf_locateTick_self hdiff (b.next diff sr q) rest hsorted.2
              fun p hp => hpos p (List.mem_cons_of_mem _ hp)
        · rw [locateTick_cons, if_neg (not_le.mpr hfar)] at hs
          have hround := Boundary.tickOf_le hm hr hs
          refine ⟨hlow, hround, ?_⟩
          rw [locateTick_cons, if_neg (by omega)]

/-- A later sample never has an earlier tick. -/
theorem tickOf_locateSample_mono (hdiff : SafeDiff diff) (b : Boundary)
    (rest : List TempoPoint) {s s' : Int} (hfloor : 0 ≤ b.point.tick)
    (hb : b.point.tick ≤ MAX_TICK) (hstart : b.start ≤ s) (hle : s ≤ s')
    (hs : s' ≤ (locateTick diff sr b rest MAX_TICK).sampleOf sr MAX_TICK)
    (hsorted : (b.point :: rest).IsChain (fun p q => p.tick ≤ q.tick))
    (hpos : ∀ p ∈ b.point :: rest, 0 < 2 * p.milliBpm)
    (hrate : ∀ p ∈ b.point :: rest, 2 * p.milliBpm ≤ sr * 125) :
    (locateSample diff sr b rest s).tickOf sr s ≤
      (locateSample diff sr b rest s').tickOf sr s' := by
  induction rest generalizing b with
  | nil => exact Boundary.tickOf_mono (hpos b.point (by simp)) (hrate b.point (by simp)) hle
  | cons q rest ih =>
      have hm := hpos b.point (by simp)
      have hr := hrate b.point (by simp)
      rw [List.isChain_cons_cons] at hsorted
      have hpos' : ∀ p ∈ q :: rest, 0 < 2 * p.milliBpm :=
        fun p hp => hpos p (List.mem_cons_of_mem _ hp)
      have hrate' : ∀ p ∈ q :: rest, 2 * p.milliBpm ≤ sr * 125 :=
        fun p hp => hrate p (List.mem_cons_of_mem _ hp)
      rw [locateSample_cons, locateSample_cons]
      by_cases hlater : (b.next diff sr q).start ≤ s'
      · have hq := next_tick_le_of_start_le hdiff hb hm hr hs hfloor hlater
        rw [locateTick_cons, if_pos hq] at hs
        rw [if_pos hlater]
        by_cases hboth : (b.next diff sr q).start ≤ s
        · rw [if_pos hboth]
          exact ih (b.next diff sr q) (hfloor.trans hsorted.1) hq hboth hs hsorted.2 hpos' hrate'
        · rw [if_neg hboth]
          have hedge : (b.next diff sr q).start = b.sampleOf sr q.tick := by
            simp only [Boundary.next, Boundary.sampleOf]
            rw [hdiff.exact _ (by omega) (by unfold MAX_TICK at hq; omega)]
          have hround : b.tickOf sr s ≤ q.tick := Boundary.tickOf_le hm hr (by omega)
          have hreach := (locateTick_tickOf hdiff (b.next diff sr q) rest s'
            (hfloor.trans hsorted.1) hq hlater hs hsorted.2 hpos' hrate').1
          exact hround.trans hreach
      · rw [if_neg hlater, if_neg (fun hhere => hlater (hhere.trans hle))]
        exact Boundary.tickOf_mono hm hr hle

/-- A kernel that reads ticks and positions off the table brings each sample
back near itself. -/
theorem returns_of_table (hdiff : SafeDiff diff) (p : TempoPoint) (rest : List TempoPoint)
    (hzero : p.tick = 0) (hsorted : (p :: rest).IsChain (fun p q => p.tick ≤ q.tick))
    (hrange : ∀ q ∈ p :: rest, q.InRange) (hrate : 2 * MAX_MILLI_BPM ≤ 125 * sr)
    {position tickAt : Int → Option Int}
    (hposition : ∀ t, 0 ≤ t → t ≤ MAX_TICK →
      position t = some ((locateTick diff sr ⟨0, p⟩ rest t).sampleOf sr t))
    (htickAt : ∀ s, 0 ≤ s →
      s ≤ (locateTick diff sr ⟨0, p⟩ rest MAX_TICK).sampleOf sr MAX_TICK →
      tickAt s = some (min MAX_TICK ((locateSample diff sr ⟨0, p⟩ rest s).tickOf sr s))) :
    Returns (p :: rest) sr (0 :: (tableFrom diff sr ⟨0, p⟩ rest).map Boundary.start)
      position tickAt := by
  have hpos : ∀ q ∈ p :: rest, 0 < 2 * q.milliBpm := fun q hq => (hrange q hq).pos
  have hrates : ∀ q ∈ p :: rest, 2 * q.milliBpm ≤ sr * 125 := by
    intro q hq
    have hmax := (hrange q hq).2
    omega
  have hfirst : p.tick ≤ MAX_TICK := by
    rw [hzero]
    norm_num [MAX_TICK]
  refine ⟨_, hposition MAX_TICK (by norm_num [MAX_TICK]) (le_refl _), ?_, ?_⟩
  · intro s hlow hhigh
    obtain ⟨hfloor, hcap, hback⟩ := locateTick_tickOf hdiff ⟨0, p⟩ rest s hzero.ge hfirst hlow
      hhigh hsorted hpos hrates
    have hreach : 0 ≤ (locateSample diff sr ⟨0, p⟩ rest s).tickOf sr s := hzero.ge.trans hfloor
    have htick := htickAt s hlow hhigh
    rw [min_eq_right hcap] at htick
    refine ⟨_, _, _, htick, hposition _ hreach hcap,
      (columns_at_sample diff sr ⟨0, p⟩ rest s).2, ?_⟩
    rw [hback]
    exact Boundary.sampleOf_tickOf_near s (locateSample_point diff sr ⟨0, p⟩ rest s hpos)
      (locateSample_point diff sr ⟨0, p⟩ rest s hrates)
  · intro s s' hlow hle hhigh
    refine ⟨_, _, htickAt s hlow (hle.trans hhigh), htickAt s' (hlow.trans hle) hhigh, ?_⟩
    have hmono := tickOf_locateSample_mono hdiff ⟨0, p⟩ rest hzero.ge hfirst hlow hle hhigh
      hsorted hpos hrates
    omega

end Trip

/-- On a sorted map both kernels bring every sample of the admitted range back
within half a tick and half a sample, in order, exactly when the boundary table
of the whole map fits in 64 bits. -/
theorem samplesReturn_iff_tableFits (reg : Int) (map : List TempoPoint) (sr : Int)
    (hint : ∀ p ∈ map, p.tick ≤ kInt64Max) (hsorted : SortedFromZero map)
    (hrate : 2 * MAX_MILLI_BPM ≤ 125 * sr) (hmax : sr ≤ 192000) :
    SamplesReturn reg map sr ↔ TableFits reg map sr := by
  have hsr : 0 < sr := by
    unfold MAX_MILLI_BPM at hrate
    omega
  have hcap : sr ≤ kMaxSampleRate := hmax.trans (by norm_num [kMaxSampleRate])
  constructor
  · rintro ⟨_, E, hengine, _⟩
    exact fits_of_buildBoundaryTable hsr hsorted hengine
  · intro hfit
    obtain ⟨p, rest, hmap, hzero, horder, hweb, hengine⟩ :=
      buildBoundaryTable_agree hsr hint hsorted hfit
    have hrange := Web.effectiveMap_inRange reg map
    have hticks := effectiveMap_int64 reg hint
    rw [hmap] at hrange hticks
    unfold SamplesReturn
    rw [← effectiveMap_agree, hmap]
    have hclamp : ∀ t, 0 ≤ t → t ≤ MAX_TICK → max 0 (min kMaxTick t) = t := by
      intro t hlow hhigh
      unfold kMaxTick
      omega
    refine ⟨⟨_, hweb, ?_⟩, ⟨_, hengine, ?_⟩⟩
    · apply returns_of_table safeDiff_binary64 p rest hzero horder hrange hrate
      · intro t hlow hhigh
        have hto := Web.samplesAtTick_exact hsr.le (hmax.trans (by norm_num)) ⟨0, p⟩ rest t t
          (by omega) hzero rfl horder hrange
        simp only at hto
        rw [hto]
        rfl
      · intro s hlow _
        have hto := Web.tickAtSample_exact hsr ⟨0, p⟩ rest s s (max_eq_right hlow) hzero rfl
          horder hrange
        simp only at hto
        rw [hto, min_comm]
        rfl
    · apply returns_of_table safeDiff_id p rest hzero horder hrange hrate
      · intro t hlow hhigh
        exact Engine.samplesAtTick_of_sorted hsr hcap ⟨0, p⟩ rest t t (hclamp t hlow hhigh) hzero
          rfl horder hrange
      · intro s hlow hhigh
        exact Engine.tickAtSample_of_sorted hsr hcap ⟨0, p⟩ rest s s (max_eq_right hlow) hzero rfl
          hhigh horder hrange hticks

/-- A tempo change one bar in. -/
theorem samplesReturn_oneBar : SamplesReturn 120000 [⟨0, 120000⟩, ⟨3840, 90001⟩] 48000 :=
  (samplesReturn_iff_tableFits 120000 [⟨0, 120000⟩, ⟨3840, 90001⟩] 48000 (by decide) (by decide)
    (by decide) (by decide)).mpr (by decide)

/-- A tempo change at tick `2 ^ 41` overflows the engine's table: no sample
has a tick there. -/
theorem not_samplesReturn_farBreakpoint :
    ¬ ∀ (reg : Int) (map : List TempoPoint) (sr : Int), (∀ p ∈ map, p.tick ≤ kInt64Max) →
      SortedFromZero map → 2 * MAX_MILLI_BPM ≤ 125 * sr → sr ≤ 192000 →
      SamplesReturn reg map sr := by
  intro hall
  obtain ⟨_, S, hbuilt, _⟩ := hall 120000 [⟨0, 120000⟩, ⟨2199023255552, 120000⟩] 48000
    (by decide) (by decide) (by decide) (by decide)
  have hnone : Engine.buildBoundaryTable
      (Engine.effectiveMap 120000 [⟨0, 120000⟩, ⟨2199023255552, 120000⟩]) 48000 = none := by
    decide
  rw [hnone] at hbuilt
  cases hbuilt

end DawProject.Tempo
