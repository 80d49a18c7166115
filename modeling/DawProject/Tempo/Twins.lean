import DawProject.Tempo.Engine
import DawProject.Tempo.Web

/-!
The two tempo kernels side by side, on the raw map of a document. Neither
kernel sorts its map: on a breakpoint that goes back in time the TypeScript
division throws where the C++ one computes. Where ticks never decrease and
the table fits in 64 bits, both kernels are total and agree.
-/

namespace DawProject.Tempo

open Tempo.Engine (SegmentsFit kInt64Max kMaxSampleRate kMaxTick)

/-- Both kernels compute, and they compute the same integers: the effective
map, the positions of the admitted ticks and the ticks of the positions these
reach. -/
def KernelsAgree (reg : Int) (map : List TempoPoint) (sr : Int) : Prop :=
  Web.effectiveMap reg map = Engine.effectiveMap reg map ∧
    ∃ W E, Web.buildBoundaryTable (Web.effectiveMap reg map) sr = .ok W ∧
      Engine.buildBoundaryTable (Engine.effectiveMap reg map) sr = some E ∧
      (∀ t, -MAX_TICK ≤ t → t ≤ MAX_TICK →
        ∃ s, Web.samplesAtTick (Web.effectiveMap reg map) W sr t = .ok s ∧
          Engine.samplesAtTick (Engine.effectiveMap reg map) E sr t = some s) ∧
      ∃ last, Engine.samplesAtTick (Engine.effectiveMap reg map) E sr MAX_TICK = some last ∧
        ∀ s, s ≤ last →
          ∃ t, Web.tickAtSample (Web.effectiveMap reg map) W sr s = .ok t ∧
            Engine.tickAtSample (Engine.effectiveMap reg map) E sr s = some t

/-- The breakpoints of a document, in the order it stores them, never go back
in time from tick zero. -/
def SortedFromZero (map : List TempoPoint) : Prop :=
  (0 :: map.map TempoPoint.tick).IsChain (fun a b => a ≤ b)

/-- Every product and every sum of the boundary table fits in 64 bits. -/
def TableFits (reg : Int) (map : List TempoPoint) (sr : Int) : Prop :=
  SegmentsFit sr ⟨0, ⟨0, clampMilliBpm reg⟩⟩ (map.map TempoPoint.clamp)

instance (map : List TempoPoint) : Decidable (SortedFromZero map) :=
  inferInstanceAs (Decidable (List.IsChain _ _))

instance (reg : Int) (map : List TempoPoint) (sr : Int) : Decidable (TableFits reg map sr) :=
  inferInstanceAs (Decidable (SegmentsFit _ _ _))

theorem effectiveMap_agree (reg : Int) (map : List TempoPoint) :
    Web.effectiveMap reg map = Engine.effectiveMap reg map := by
  cases map with
  | nil => rfl
  | cons p rest =>
      rw [Engine.effectiveMap_eq_cons]
      rfl

/-- A map whose ticks are sorted is sorted as a list of breakpoints. -/
theorem isChain_clamp_iff (p : TempoPoint) (map : List TempoPoint) :
    (p :: map.map TempoPoint.clamp).IsChain (fun p q => p.tick ≤ q.tick) ↔
      (p.tick :: map.map TempoPoint.tick).IsChain (fun a b => a ≤ b) := by
  induction map generalizing p with
  | nil => simp
  | cons q rest ih =>
      rw [List.map_cons, List.map_cons, List.isChain_cons_cons, List.isChain_cons_cons]
      rw [ih q.clamp]
      rfl

/-- The effective map starts at tick zero, and asking for order and room over
it is asking for them over the raw map. -/
theorem effectiveMap_starts (reg : Int) (map : List TempoPoint) (sr : Int) :
    ∃ p rest, Web.effectiveMap reg map = p :: rest ∧ p.tick = 0 ∧
      ((p :: rest).IsChain (fun p q => p.tick ≤ q.tick) ↔ SortedFromZero map) ∧
      (SegmentsFit sr ⟨0, p⟩ rest ↔ TableFits reg map sr) := by
  cases map with
  | nil =>
      refine ⟨⟨0, clampMilliBpm reg⟩, [], rfl, rfl, ?_, Iff.rfl⟩
      simp [SortedFromZero]
  | cons q rest =>
      by_cases hzero : q.tick = 0
      · refine ⟨q.clamp, rest.map TempoPoint.clamp, ?_, hzero, ?_, ?_⟩
        · have hskip : ¬ q.tick ≠ 0 := not_not.mpr hzero
          simp only [Web.effectiveMap, if_neg hskip, List.map_cons]
        · rw [isChain_clamp_iff, SortedFromZero, List.map_cons, List.isChain_cons_cons]
          simp [hzero]
        · have hm := (clampMilliBpm_bounds reg).2
          have hnext : Boundary.next id sr ⟨0, ⟨0, clampMilliBpm reg⟩⟩ q.clamp = ⟨0, q.clamp⟩ := by
            have hpos : 0 < 2 * clampMilliBpm reg :=
              (TempoPoint.clamp_inRange ⟨0, reg⟩).pos
            simp [Boundary.next, span, hzero, HalfUp.halfUp_zero hpos]
          simp only [TableFits, List.map_cons, SegmentsFit, hnext, TempoPoint.clamp_tick, hzero]
          unfold MAX_MILLI_BPM at hm
          unfold kInt64Max
          constructor
          · intro hfit
            exact ⟨by omega, by norm_num, hfit⟩
          · intro hfit
            exact hfit.2.2
      · refine ⟨⟨0, clampMilliBpm reg⟩, (q :: rest).map TempoPoint.clamp, ?_, rfl, ?_, Iff.rfl⟩
        · simp only [Web.effectiveMap, if_pos hzero]
        · exact isChain_clamp_iff _ _

theorem effectiveMap_int64 (reg : Int) {map : List TempoPoint}
    (hint : ∀ p ∈ map, p.tick ≤ kInt64Max) :
    ∀ p ∈ Web.effectiveMap reg map, p.tick ≤ kInt64Max := by
  intro p hp
  have hclamped : ∀ q ∈ map.map TempoPoint.clamp, q.tick ≤ kInt64Max := by
    intro q hq
    obtain ⟨q', hq', rfl⟩ := List.mem_map.mp hq
    exact hint q' hq'
  cases map with
  | nil =>
      obtain rfl := List.mem_singleton.mp hp
      norm_num [kInt64Max]
  | cons q rest =>
      simp only [Web.effectiveMap] at hp
      split at hp
      · rcases List.mem_cons.mp hp with rfl | hmem
        · norm_num [kInt64Max]
        · exact hclamped p hmem
      · exact hclamped p hp

section

variable {sr : Int}

/-- On a sorted map both kernels place every tick on the same sample, that of
the exact table. -/
theorem samplesAtTick_agree (hsr : 0 < sr) (hmax : sr ≤ kMaxSampleRate) (p : TempoPoint)
    (rest : List TempoPoint) (tick t : Int) (ht : max 0 (min kMaxTick tick) = t)
    (hzero : p.tick = 0) (hsorted : (p :: rest).IsChain (fun p q => p.tick ≤ q.tick))
    (hrange : ∀ q ∈ p :: rest, q.InRange) :
    Web.samplesAtTick (p :: rest)
        (0 :: (tableFrom Binary64.ofInt sr ⟨0, p⟩ rest).map Boundary.start) sr tick =
          .ok ((locateTick id sr ⟨0, p⟩ rest t).sampleOf sr t) ∧
      Engine.samplesAtTick (p :: rest)
        (0 :: (tableFrom id sr ⟨0, p⟩ rest).map Boundary.start) sr tick =
          some ((locateTick id sr ⟨0, p⟩ rest t).sampleOf sr t) := by
  have hrate : sr ≤ 2 ^ 20 := hmax.trans (by norm_num [kMaxSampleRate])
  have hclamp : min (max 0 tick) MAX_TICK = t := by
    unfold kMaxTick at ht
    unfold MAX_TICK at *
    omega
  have hle : t ≤ MAX_TICK := by
    rw [← hclamp]
    exact min_le_right _ _
  have hweb := Web.samplesAtTick_exact hsr.le hrate ⟨0, p⟩ rest tick t hclamp hzero rfl hsorted
    hrange
  rw [locateTick_congr safeDiff_binary64 safeDiff_id ⟨0, p⟩ rest _ hzero.ge hle hsorted] at hweb
  exact ⟨hweb, Engine.samplesAtTick_of_sorted hsr hmax ⟨0, p⟩ rest tick t ht hzero rfl hsorted
    hrange⟩

/-- On a sorted map both kernels give back the same tick for every sample an
admitted tick reaches. -/
theorem tickAtSample_agree (hsr : 0 < sr) (hmax : sr ≤ kMaxSampleRate) (p : TempoPoint)
    (rest : List TempoPoint) (sample : Int) (hzero : p.tick = 0)
    (hsorted : (p :: rest).IsChain (fun p q => p.tick ≤ q.tick))
    (hrange : ∀ q ∈ p :: rest, q.InRange) (hint : ∀ q ∈ p :: rest, q.tick ≤ kInt64Max)
    (hreach : sample ≤ (locateTick id sr ⟨0, p⟩ rest MAX_TICK).sampleOf sr MAX_TICK) :
    ∃ t, Web.tickAtSample (p :: rest)
        (0 :: (tableFrom Binary64.ofInt sr ⟨0, p⟩ rest).map Boundary.start) sr sample = .ok t ∧
      Engine.tickAtSample (p :: rest)
        (0 :: (tableFrom id sr ⟨0, p⟩ rest).map Boundary.start) sr sample = some t := by
  have hfirst : p.tick ≤ MAX_TICK := by
    rw [hzero]
    norm_num [MAX_TICK]
  have hlow := start_le_sampleOf_locateTick safeDiff_id hsr.le ⟨0, p⟩ rest MAX_TICK hfirst
    hsorted (fun q hq => (hrange q hq).pos)
  have hhigh := sampleOf_locateTick_le safeDiff_id hsr.le ⟨0, p⟩ rest MAX_TICK hzero.ge hfirst
    (le_refl _) hsorted hrange
  have hclamped : max 0 sample ≤ (locateTick id sr ⟨0, p⟩ rest MAX_TICK).sampleOf sr MAX_TICK :=
    max_le hlow hreach
  have hbound : 160 * max 0 sample ≤ MAX_TICK * sr := by
    simp only [hzero, sub_zero, mul_zero, zero_add] at hhigh
    omega
  have hweb := Web.tickAtSample_exact hsr ⟨0, p⟩ rest sample _ rfl hzero rfl hsorted hrange
  have hengine := Engine.tickAtSample_of_sorted hsr hmax ⟨0, p⟩ rest sample _ rfl hzero rfl
    hclamped hsorted hrange hint
  rw [locateSample_congr safeDiff_binary64 safeDiff_id hsr ⟨0, p⟩ rest _ (le_refl 0) hbound
    hsorted hrange, min_comm] at hweb
  exact ⟨_, hweb, hengine⟩

/-- Both kernels build their table, and on the same sorted map. -/
theorem buildBoundaryTable_agree (hsr : 0 < sr) {reg : Int} {map : List TempoPoint}
    (hint : ∀ p ∈ map, p.tick ≤ kInt64Max) (hsorted : SortedFromZero map)
    (hfit : TableFits reg map sr) :
    ∃ p rest, Web.effectiveMap reg map = p :: rest ∧ p.tick = 0 ∧
      (p :: rest).IsChain (fun p q => p.tick ≤ q.tick) ∧
      Web.buildBoundaryTable (p :: rest) sr =
        .ok (0 :: (tableFrom Binary64.ofInt sr ⟨0, p⟩ rest).map Boundary.start) ∧
      Engine.buildBoundaryTable (p :: rest) sr =
        some (0 :: (tableFrom id sr ⟨0, p⟩ rest).map Boundary.start) := by
  obtain ⟨p, rest, hmap, hzero, hchain, hroom⟩ := effectiveMap_starts reg map sr
  have hrange := Web.effectiveMap_inRange reg map
  have hticks := effectiveMap_int64 reg hint
  rw [hmap] at hrange hticks
  have horder := hchain.mpr hsorted
  refine ⟨p, rest, hmap, hzero, horder, ?_, ?_⟩
  · exact Web.buildBoundaryTable_of_sorted hsr.le p rest horder (fun q hq => (hrange q hq).pos)
  · exact Engine.buildBoundaryTable_of_fits hsr p rest hzero.ge horder hrange hticks
      (hroom.mpr hfit)

/-- A table the web completes without a throw is sorted. -/
theorem sorted_of_buildBoundaryTable (hsr : 0 < sr) {reg : Int} {map : List TempoPoint}
    {W : List Int} (hweb : Web.buildBoundaryTable (Web.effectiveMap reg map) sr = .ok W) :
    SortedFromZero map := by
  obtain ⟨p, rest, hmap, _, hchain, _⟩ := effectiveMap_starts reg map sr
  rw [hmap] at hweb
  apply hchain.mp
  cases hloop : Web.boundaryLoop sr 0 p rest with
  | ok later => exact Web.sorted_of_boundaryLoop hsr 0 p rest hloop
  | error e => simp [Web.buildBoundaryTable, hloop, bind, Except.bind] at hweb

/-- A sorted table the engine completes without overflow fits. -/
theorem fits_of_buildBoundaryTable (hsr : 0 < sr) {reg : Int} {map : List TempoPoint}
    {E : List Int} (hsorted : SortedFromZero map)
    (hengine : Engine.buildBoundaryTable (Engine.effectiveMap reg map) sr = some E) :
    TableFits reg map sr := by
  obtain ⟨p, rest, hmap, _, hchain, hroom⟩ := effectiveMap_starts reg map sr
  have hrange := Web.effectiveMap_inRange reg map
  rw [← effectiveMap_agree] at hengine
  rw [hmap] at hengine hrange
  apply hroom.mp
  simp only [Engine.buildBoundaryTable, Option.bind_eq_bind, Option.bind_eq_some_iff] at hengine
  obtain ⟨later, hloop, _⟩ := hengine
  exact Engine.fits_of_boundaryLoop hsr ⟨0, p⟩ rest (hchain.mpr hsorted) hrange hloop

end

/-- At every rate, two kernels that agree have a sorted map whose table fits in
64 bits. Up to `kMaxSampleRate` these two conditions are also enough. -/
theorem kernelsAgree_iff (reg : Int) (map : List TempoPoint) (sr : Int)
    (hint : ∀ p ∈ map, p.tick ≤ kInt64Max) (hsr : 0 < sr) :
    (KernelsAgree reg map sr → SortedFromZero map ∧ TableFits reg map sr) ∧
      (sr ≤ kMaxSampleRate → SortedFromZero map ∧ TableFits reg map sr →
        KernelsAgree reg map sr) := by
  constructor
  · intro hagree
    obtain ⟨_, W, E, hweb, hengine, _⟩ := hagree
    have hsorted := sorted_of_buildBoundaryTable hsr hweb
    exact ⟨hsorted, fits_of_buildBoundaryTable hsr hsorted hengine⟩
  · intro hmax hcond
    obtain ⟨hsorted, hfit⟩ := hcond
    obtain ⟨p, rest, hmap, hzero, horder, hweb, hengine⟩ :=
      buildBoundaryTable_agree hsr hint hsorted hfit
    have hrange := Web.effectiveMap_inRange reg map
    have hticks := effectiveMap_int64 reg hint
    rw [hmap] at hrange hticks
    have hlast := Engine.samplesAtTick_of_sorted hsr hmax ⟨0, p⟩ rest MAX_TICK MAX_TICK
      (by norm_num [kMaxTick, MAX_TICK]) hzero rfl horder hrange
    refine ⟨effectiveMap_agree reg map, ?_⟩
    rw [← effectiveMap_agree, hmap]
    refine ⟨_, _, hweb, hengine, ?_, _, hlast, ?_⟩
    · intro t _ _
      exact ⟨_, samplesAtTick_agree hsr hmax p rest t _ rfl hzero horder hrange⟩
    · intro s hs
      exact tickAtSample_agree hsr hmax p rest s hzero horder hrange hticks hs

/-- Two breakpoints in order: the kernels agree. -/
theorem kernelsAgree_oneBar :
    (∀ p ∈ [(⟨0, 120000⟩ : TempoPoint), ⟨3840, 90000⟩], p.tick ≤ kInt64Max) ∧ (0 : Int) < 48000 ∧
      KernelsAgree 120000 [⟨0, 120000⟩, ⟨3840, 90000⟩] 48000 :=
  ⟨by decide, by decide,
    (kernelsAgree_iff 120000 [⟨0, 120000⟩, ⟨3840, 90000⟩] 48000 (by decide) (by decide)).2
      (by decide) (by decide)⟩

/-- Two breakpoints stored out of order: the web kernel throws where the
engine computes. -/
theorem not_kernelsAgree_unsorted :
    ¬ ∀ (reg : Int) (map : List TempoPoint) (sr : Int), (∀ p ∈ map, p.tick ≤ kInt64Max) →
      0 < sr → sr ≤ 192000 → KernelsAgree reg map sr := by
  intro hall
  have hagree := hall 120000 [⟨960, 120000⟩, ⟨480, 120000⟩] 48000 (by decide) (by decide)
    (by decide)
  obtain ⟨_, W, E, hweb, _⟩ := hagree
  have hthrow : Web.buildBoundaryTable
      (Web.effectiveMap 120000 [⟨960, 120000⟩, ⟨480, 120000⟩]) 48000 =
        .error "roundDiv: domaine positif" := by
    decide
  rw [hthrow] at hweb
  cases hweb

end DawProject.Tempo
