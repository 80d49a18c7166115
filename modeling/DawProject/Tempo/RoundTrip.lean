import DawProject.Tempo.Engine
import DawProject.Tempo.Web
import Mathlib

/-!
The round trip from ticks to samples and back, in both kernels. An
`EffectiveMap` is a map in the form `effectiveMap` gives to a map whose
breakpoints strictly increase. The web kernel returns every admitted tick; the
engine does so exactly when the boundary table of the whole map fits in 64
bits, the breakpoints beyond the admitted range included.
-/

namespace DawProject.Tempo

open Tempo.Engine (SegmentsFit kInt64Max kMaxSampleRate kMaxTick)

/-- A tempo map that starts at tick zero, strictly increases and holds only
admitted tempos. -/
structure EffectiveMap where
  first : TempoPoint
  rest : List TempoPoint
  first_tick : first.tick = 0
  increasing : (first :: rest).IsChain (fun p q => p.tick < q.tick)
  inRange : ∀ p ∈ first :: rest, p.InRange
  int64 : ∀ p ∈ first :: rest, p.tick ≤ kInt64Max

namespace EffectiveMap

def points (map : EffectiveMap) : List TempoPoint := map.first :: map.rest

theorem sorted (map : EffectiveMap) :
    (map.first :: map.rest).IsChain (fun p q => p.tick ≤ q.tick) :=
  map.increasing.imp (fun _ _ h => le_of_lt h)

/-- Clamping leaves an admitted breakpoint as it is. -/
theorem clamp_of_inRange {p : TempoPoint} (h : p.InRange) : p.clamp = p := by
  obtain ⟨hmin, hmax⟩ := h
  have hsame : clampMilliBpm p.milliBpm = p.milliBpm := by
    unfold clampMilliBpm
    omega
  unfold TempoPoint.clamp
  rw [hsame]

/-- Both kernels give an effective map back unchanged, so these are the maps
they produce. -/
theorem effectiveMap_points (map : EffectiveMap) (reg : Int) :
    Web.effectiveMap reg map.points = map.points ∧
      Engine.effectiveMap reg map.points = map.points := by
  have hclamped : map.points.map TempoPoint.clamp = map.points := by
    conv_rhs => rw [← List.map_id map.points]
    apply List.map_congr_left
    intro p hp
    exact clamp_of_inRange (map.inRange p hp)
  have hzero : ¬ map.first.tick ≠ 0 := not_not.mpr map.first_tick
  constructor
  · simp only [Web.effectiveMap, points, if_neg hzero]
    exact hclamped
  · simp only [Engine.effectiveMap, points, if_neg hzero, List.nil_append]
    exact hclamped

end EffectiveMap

/-- The trip to samples and back in the TypeScript kernel. -/
def Web.RoundTrips (map : List TempoPoint) (sr : Int) : Prop :=
  ∃ S, Web.buildBoundaryTable map sr = .ok S ∧
    ∀ t, 0 ≤ t → t ≤ MAX_TICK →
      ∃ s, Web.samplesAtTick map S sr t = .ok s ∧ Web.tickAtSample map S sr s = .ok t

/-- The trip to samples and back in the C++ kernel, without overflow. -/
def Engine.RoundTrips (map : List TempoPoint) (sr : Int) : Prop :=
  ∃ S, Engine.buildBoundaryTable map sr = some S ∧
    ∀ t, 0 ≤ t → t ≤ MAX_TICK →
      ∃ s, Engine.samplesAtTick map S sr t = some s ∧ Engine.tickAtSample map S sr s = some t

def RoundTrips (map : List TempoPoint) (sr : Int) : Prop :=
  Web.RoundTrips map sr ∧ Engine.RoundTrips map sr

section

variable (map : EffectiveMap) {sr : Int}

/-- At an admitted rate every segment has at least one sample per tick. -/
theorem EffectiveMap.rate_of_le (hrate : 2 * MAX_MILLI_BPM ≤ 125 * sr) :
    ∀ p ∈ map.first :: map.rest, 2 * p.milliBpm ≤ sr * 125 := by
  intro p hp
  have hmax := (map.inRange p hp).2
  omega

theorem Web.roundTrips (hrate : 2 * MAX_MILLI_BPM ≤ 125 * sr) (hmax : sr ≤ 192000) :
    Web.RoundTrips map.points sr := by
  have hsr : 0 < sr := by
    unfold MAX_MILLI_BPM at hrate
    omega
  have hpos : ∀ p ∈ map.first :: map.rest, 0 < 2 * p.milliBpm :=
    fun p hp => (map.inRange p hp).pos
  refine ⟨_, Web.buildBoundaryTable_of_sorted hsr.le map.first map.rest map.sorted hpos, ?_⟩
  intro t hlow hhigh
  have hin : min (max 0 t) MAX_TICK = t := by omega
  have hfirst : map.first.tick ≤ t := map.first_tick ▸ hlow
  have hto := Web.samplesAtTick_exact hsr.le (hmax.trans (by norm_num)) ⟨0, map.first⟩ map.rest
    t t hin map.first_tick rfl map.sorted map.inRange
  have hstart := start_le_sampleOf_locateTick safeDiff_binary64 hsr.le ⟨0, map.first⟩ map.rest
    t hfirst map.sorted hpos
  have hback := Web.tickAtSample_exact hsr ⟨0, map.first⟩ map.rest _ _ (max_eq_right hstart)
    map.first_tick rfl map.sorted map.inRange
  have hsegment := locateSample_sampleOf safeDiff_binary64 ⟨0, map.first⟩ map.rest t hfirst
    map.first_tick.ge hhigh map.increasing hpos (map.rate_of_le hrate)
  refine ⟨_, hto, ?_⟩
  rw [EffectiveMap.points, hback, hsegment, Boundary.tickOf_sampleOf, min_eq_left hhigh]
  · exact locateTick_point Binary64.ofInt sr ⟨0, map.first⟩ map.rest t hpos
  · exact locateTick_point Binary64.ofInt sr ⟨0, map.first⟩ map.rest t (map.rate_of_le hrate)

theorem Engine.roundTrips_of_fits (hrate : 2 * MAX_MILLI_BPM ≤ 125 * sr) (hmax : sr ≤ 192000)
    (hfit : SegmentsFit sr ⟨0, map.first⟩ map.rest) : Engine.RoundTrips map.points sr := by
  have hsr : 0 < sr := by
    unfold MAX_MILLI_BPM at hrate
    omega
  have hcap : sr ≤ kMaxSampleRate := hmax.trans (by norm_num [kMaxSampleRate])
  have hpos : ∀ p ∈ map.first :: map.rest, 0 < 2 * p.milliBpm :=
    fun p hp => (map.inRange p hp).pos
  refine ⟨_, Engine.buildBoundaryTable_of_fits hsr map.first map.rest map.first_tick.ge
    map.sorted map.inRange map.int64 hfit, ?_⟩
  intro t hlow hhigh
  have hin : max 0 (min kMaxTick t) = t := by
    rw [kMaxTick, min_eq_right hhigh, max_eq_right hlow]
  have hfirst : map.first.tick ≤ t := map.first_tick ▸ hlow
  have hto := Engine.samplesAtTick_of_sorted hsr hcap ⟨0, map.first⟩ map.rest t t hin
    map.first_tick rfl map.sorted map.inRange
  have hstart := start_le_sampleOf_locateTick safeDiff_id hsr.le ⟨0, map.first⟩ map.rest
    t hfirst map.sorted hpos
  have hreach := sampleOf_locateTick_mono safeDiff_id hsr.le ⟨0, map.first⟩ map.rest
    map.first_tick.ge hfirst hhigh hhigh map.sorted hpos
  have hback := Engine.tickAtSample_of_sorted hsr hcap ⟨0, map.first⟩ map.rest _ _
    (max_eq_right hstart) map.first_tick rfl hreach map.sorted map.inRange map.int64
  have hsegment := locateSample_sampleOf safeDiff_id ⟨0, map.first⟩ map.rest t hfirst
    map.first_tick.ge hhigh map.increasing hpos (map.rate_of_le hrate)
  refine ⟨_, hto, ?_⟩
  rw [EffectiveMap.points, hback, hsegment, Boundary.tickOf_sampleOf, kMaxTick,
    min_eq_right hhigh]
  · exact locateTick_point id sr ⟨0, map.first⟩ map.rest t hpos
  · exact locateTick_point id sr ⟨0, map.first⟩ map.rest t (map.rate_of_le hrate)

/-- Both kernels give every admitted tick back, without overflow, exactly for
the maps whose whole boundary table fits in 64 bits. -/
theorem roundTrips_iff_segmentsFit (hrate : 2 * MAX_MILLI_BPM ≤ 125 * sr)
    (hmax : sr ≤ 192000) :
    RoundTrips map.points sr ↔ SegmentsFit sr ⟨0, map.first⟩ map.rest := by
  constructor
  · intro hround
    obtain ⟨_, S, hbuilt, _⟩ := hround
    have hsr : 0 < sr := by
      unfold MAX_MILLI_BPM at hrate
      omega
    simp only [EffectiveMap.points, Engine.buildBoundaryTable, Option.bind_eq_bind,
      Option.bind_eq_some_iff] at hbuilt
    obtain ⟨later, hloop, _⟩ := hbuilt
    exact Engine.fits_of_boundaryLoop hsr ⟨0, map.first⟩ map.rest map.sorted map.inRange hloop
  · intro hfit
    exact ⟨Web.roundTrips map hrate hmax, Engine.roundTrips_of_fits map hrate hmax hfit⟩

end

/-- A map whose second breakpoint lies at tick `far`. -/
def twoTempos (far : Int) (hlow : 0 < far) (hhigh : far ≤ kInt64Max) : EffectiveMap where
  first := ⟨0, 120000⟩
  rest := [⟨far, 120000⟩]
  first_tick := rfl
  increasing := List.isChain_pair.mpr hlow
  inRange := by
    intro p hp
    simp only [List.mem_cons, List.not_mem_nil, or_false] at hp
    rcases hp with rfl | rfl <;> exact ⟨by norm_num [MIN_MILLI_BPM], by norm_num [MAX_MILLI_BPM]⟩
  int64 := by
    intro p hp
    simp only [List.mem_cons, List.not_mem_nil, or_false] at hp
    rcases hp with rfl | rfl
    · norm_num [kInt64Max]
    · exact hhigh

/-- A tempo change one bar in: every tick comes back. -/
theorem roundTrips_oneBar :
    2 * MAX_MILLI_BPM ≤ 125 * 48000 ∧ (48000 : Int) ≤ 192000 ∧
      RoundTrips (twoTempos 3840 (by norm_num) (by norm_num [kInt64Max])).points 48000 :=
  ⟨by decide, by decide, (roundTrips_iff_segmentsFit _ (by decide) (by decide)).mpr (by decide)⟩

/-- A tempo change at tick `2 ^ 41` overflows the engine's table, and with it
the positions of every admitted tick. -/
theorem not_roundTrips_farBreakpoint :
    ¬ ∀ (map : EffectiveMap) (sr : Int), 2 * MAX_MILLI_BPM ≤ 125 * sr → sr ≤ 192000 →
      RoundTrips map.points sr := by
  intro hall
  have hround := hall (twoTempos 2199023255552 (by norm_num) (by norm_num [kInt64Max])) 48000
    (by decide) (by decide)
  obtain ⟨_, S, hbuilt, _⟩ := hround
  have hnone : Engine.buildBoundaryTable
      (twoTempos 2199023255552 (by norm_num) (by norm_num [kInt64Max])).points 48000 = none := by
    decide
  rw [hnone] at hbuilt
  cases hbuilt

end DawProject.Tempo
