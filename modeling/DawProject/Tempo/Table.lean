import DawProject.Lib.HalfUp
import DawProject.Lib.LeadingRun
import DawProject.Lib.Machine

/-!
The tempo kernel over exact integers: a tempo map walked as a table of
boundaries, each a breakpoint with the samples accumulated before it. The
TypeScript and the C++ kernels are proved equal to this one where they are
defined; the round trip and the order facts are proved here once.

The step between two breakpoints goes through `diff`, the subtraction of the
language: exact for the engine, rounded to a double for the web.
-/

namespace DawProject.Tempo

open HalfUp LeadingRun

/-- A breakpoint of the piecewise-constant tempo map. -/
structure TempoPoint where
  tick : Int
  milliBpm : Int
deriving DecidableEq, Repr

def MIN_MILLI_BPM : Int := 20000
def MAX_MILLI_BPM : Int := 999000

/-- `2 ^ 36` ticks, the bound both kernels clamp a position to. -/
def MAX_TICK : Int := 68719476736

def clampMilliBpm (v : Int) : Int := max MIN_MILLI_BPM (min MAX_MILLI_BPM v)

def TempoPoint.clamp (p : TempoPoint) : TempoPoint := ⟨p.tick, clampMilliBpm p.milliBpm⟩

def TempoPoint.InRange (p : TempoPoint) : Prop :=
  MIN_MILLI_BPM ≤ p.milliBpm ∧ p.milliBpm ≤ MAX_MILLI_BPM

@[simp] theorem TempoPoint.clamp_tick (p : TempoPoint) : p.clamp.tick = p.tick := rfl

theorem clampMilliBpm_bounds (v : Int) :
    MIN_MILLI_BPM ≤ clampMilliBpm v ∧ clampMilliBpm v ≤ MAX_MILLI_BPM := by
  unfold clampMilliBpm MIN_MILLI_BPM MAX_MILLI_BPM
  omega

theorem TempoPoint.clamp_inRange (p : TempoPoint) : p.clamp.InRange :=
  clampMilliBpm_bounds p.milliBpm

theorem TempoPoint.InRange.pos {p : TempoPoint} (h : p.InRange) : 0 < 2 * p.milliBpm := by
  have hmin := h.1
  unfold MIN_MILLI_BPM at hmin
  omega

/-- Samples of `dt` ticks at a constant tempo. -/
def span (sr dt milliBpm : Int) : Int := halfUp (dt * sr * 125) (2 * milliBpm)

/-- A breakpoint and the samples accumulated before it. -/
structure Boundary where
  start : Int
  point : TempoPoint

namespace Boundary

/-- Sample position of tick `t`, counted from this boundary. -/
def sampleOf (sr : Int) (b : Boundary) (t : Int) : Int :=
  b.start + span sr (t - b.point.tick) b.point.milliBpm

/-- Tick of sample `s`, counted from this boundary. -/
def tickOf (sr : Int) (b : Boundary) (s : Int) : Int :=
  b.point.tick + halfUp ((s - b.start) * 2 * b.point.milliBpm) (sr * 125)

end Boundary

section Walk

variable (diff : Int → Int) (sr : Int)

/-- The boundary at the next breakpoint. -/
def Boundary.next (b : Boundary) (q : TempoPoint) : Boundary :=
  ⟨b.start + span sr (diff (q.tick - b.point.tick)) b.point.milliBpm, q⟩

/-- The boundaries after `b`. -/
def tableFrom : Boundary → List TempoPoint → List Boundary
  | _, [] => []
  | b, q :: rest => b.next diff sr q :: tableFrom (b.next diff sr q) rest

/-- The segment that holds tick `t`. -/
def locateTick (b : Boundary) (rest : List TempoPoint) (t : Int) : Boundary :=
  lastOfRun (fun c => decide (c.point.tick ≤ t)) b (tableFrom diff sr b rest)

/-- The segment that holds sample `s`, by the rounded segment starts. -/
def locateSample (b : Boundary) (rest : List TempoPoint) (s : Int) : Boundary :=
  lastOfRun (fun c => decide (c.start ≤ s)) b (tableFrom diff sr b rest)

@[simp] theorem tableFrom_points (b : Boundary) (rest : List TempoPoint) :
    (tableFrom diff sr b rest).map Boundary.point = rest := by
  induction rest generalizing b with
  | nil => rfl
  | cons q rest ih =>
      simp only [tableFrom, List.map_cons]
      rw [ih]
      rfl

/-- The map and the boundary table are two columns of one table. Reading both
at the index of a search over that table reads the boundary it stops at. -/
theorem columns_at_runIndex (p : Boundary → Bool) (b : Boundary) (rest : List TempoPoint) :
    (b.start :: (tableFrom diff sr b rest).map Boundary.start)[runIndex p
        (b :: tableFrom diff sr b rest)]? =
      some (lastOfRun p b (tableFrom diff sr b rest)).start ∧
    (b.point :: rest)[runIndex p (b :: tableFrom diff sr b rest)]? =
      some (lastOfRun p b (tableFrom diff sr b rest)).point := by
  have hstarts := List.map_cons (f := Boundary.start) (a := b) (l := tableFrom diff sr b rest)
  have hpoints := List.map_cons (f := Boundary.point) (a := b) (l := tableFrom diff sr b rest)
  rw [tableFrom_points] at hpoints
  rw [← hstarts, ← hpoints, List.getElem?_map, List.getElem?_map, getElem?_runIndex]
  exact ⟨rfl, rfl⟩

theorem columns_at_tick (b : Boundary) (rest : List TempoPoint) (t : Int) :
    (b.start :: (tableFrom diff sr b rest).map Boundary.start)[runIndex
        (fun p : TempoPoint => decide (p.tick ≤ t)) (b.point :: rest)]? =
      some (locateTick diff sr b rest t).start ∧
    (b.point :: rest)[runIndex
        (fun p : TempoPoint => decide (p.tick ≤ t)) (b.point :: rest)]? =
      some (locateTick diff sr b rest t).point := by
  have hcolumn : b.point :: rest = (b :: tableFrom diff sr b rest).map Boundary.point := by
    rw [List.map_cons, tableFrom_points]
  have hindex : runIndex (fun p : TempoPoint => decide (p.tick ≤ t)) (b.point :: rest) =
      runIndex (fun c : Boundary => decide (c.point.tick ≤ t))
        (b :: tableFrom diff sr b rest) := by
    rw [hcolumn, runIndex_map]
  rw [hindex]
  exact columns_at_runIndex diff sr _ b rest

theorem columns_at_sample (b : Boundary) (rest : List TempoPoint) (s : Int) :
    (b.start :: (tableFrom diff sr b rest).map Boundary.start)[runIndex
        (fun start : Int => decide (start ≤ s))
        (b.start :: (tableFrom diff sr b rest).map Boundary.start)]? =
      some (locateSample diff sr b rest s).start ∧
    (b.point :: rest)[runIndex (fun start : Int => decide (start ≤ s))
        (b.start :: (tableFrom diff sr b rest).map Boundary.start)]? =
      some (locateSample diff sr b rest s).point := by
  have hindex : runIndex (fun start : Int => decide (start ≤ s))
        (b.start :: (tableFrom diff sr b rest).map Boundary.start) =
      runIndex (fun c : Boundary => decide (c.start ≤ s))
        (b :: tableFrom diff sr b rest) := by
    rw [← List.map_cons, runIndex_map]
  rw [hindex]
  exact columns_at_runIndex diff sr _ b rest

theorem locateTick_cons (b : Boundary) (q : TempoPoint) (rest : List TempoPoint) (t : Int) :
    locateTick diff sr b (q :: rest) t =
      if q.tick ≤ t then locateTick diff sr (b.next diff sr q) rest t else b := by
  simp [locateTick, tableFrom, lastOfRun_cons, Boundary.next]

theorem locateSample_cons (b : Boundary) (q : TempoPoint) (rest : List TempoPoint) (s : Int) :
    locateSample diff sr b (q :: rest) s =
      if (b.next diff sr q).start ≤ s then
        locateSample diff sr (b.next diff sr q) rest s else b := by
  simp [locateSample, tableFrom, lastOfRun_cons]

/-- The segment found never starts after the tick asked for. -/
theorem locateTick_tick_le (b : Boundary) (rest : List TempoPoint) (t : Int)
    (hb : b.point.tick ≤ t) : (locateTick diff sr b rest t).point.tick ≤ t :=
  lastOfRun_of (Q := fun c => c.point.tick ≤ t) _ (fun _ h => by simpa using h) b _ hb

theorem locateSample_start_le (b : Boundary) (rest : List TempoPoint) (s : Int)
    (hb : b.start ≤ s) : (locateSample diff sr b rest s).start ≤ s :=
  lastOfRun_of (Q := fun c => c.start ≤ s) _ (fun _ h => by simpa using h) b _ hb

/-- A property of the breakpoints holds of the segment found. -/
theorem locateTick_point (b : Boundary) (rest : List TempoPoint) (t : Int)
    {Q : TempoPoint → Prop} (hQ : ∀ p ∈ b.point :: rest, Q p) :
    Q (locateTick diff sr b rest t).point := by
  induction rest generalizing b with
  | nil => exact hQ _ (by simp [locateTick, tableFrom])
  | cons q rest ih =>
      rw [locateTick_cons]
      split
      · exact ih (b.next diff sr q) (fun p hp => hQ p (List.mem_cons_of_mem _ hp))
      · exact hQ _ (by simp)

theorem locateSample_point (b : Boundary) (rest : List TempoPoint) (s : Int)
    {Q : TempoPoint → Prop} (hQ : ∀ p ∈ b.point :: rest, Q p) :
    Q (locateSample diff sr b rest s).point := by
  induction rest generalizing b with
  | nil => exact hQ _ (by simp [locateSample, tableFrom])
  | cons q rest ih =>
      rw [locateSample_cons]
      split
      · exact ih (b.next diff sr q) (fun p hp => hQ p (List.mem_cons_of_mem _ hp))
      · exact hQ _ (by simp)

end Walk

section Span

variable {sr : Int}

theorem span_nonneg {dt m : Int} (hsr : 0 ≤ sr) (hm : 0 < 2 * m) (hdt : 0 ≤ dt) :
    0 ≤ span sr dt m :=
  halfUp_nonneg hm (by positivity)

theorem span_mono {a b m : Int} (hsr : 0 ≤ sr) (hm : 0 < 2 * m) (hab : a ≤ b) :
    span sr a m ≤ span sr b m := by
  have hscale : a * sr * 125 ≤ b * sr * 125 := by nlinarith
  exact halfUp_mono hm hscale

/-- With at least one sample per tick, distinct ticks of a segment fall on
distinct samples. -/
theorem span_add_one_le {a b m : Int} (hm : 0 < 2 * m) (hrate : 2 * m ≤ sr * 125)
    (hab : a + 1 ≤ b) : span sr a m + 1 ≤ span sr b m := by
  apply halfUp_add_one_le hm
  nlinarith

/-- Within one segment the tick survives the trip to samples and back. -/
theorem Boundary.tickOf_sampleOf {b : Boundary} (t : Int) (hm : 0 < 2 * b.point.milliBpm)
    (hrate : 2 * b.point.milliBpm ≤ sr * 125) : b.tickOf sr (b.sampleOf sr t) = t := by
  have hback := halfUp_back (t - b.point.tick) hm hrate
  unfold Boundary.tickOf Boundary.sampleOf span
  rw [show ∀ x : Int, (b.start + x - b.start) * 2 * b.point.milliBpm =
      x * (2 * b.point.milliBpm) from fun x => by ring]
  rw [show (t - b.point.tick) * sr * 125 = (t - b.point.tick) * (sr * 125) by ring, hback]
  ring

end Span

/-- A subtraction that is exact below `2 ^ 53` and never brings a larger
difference back below it: what the order facts need of the language. -/
structure SafeDiff (diff : Int → Int) : Prop where
  exact : ∀ x, 0 ≤ x → x < 2 ^ 53 → diff x = x
  beyond : ∀ x, 2 ^ 53 ≤ x → 2 ^ 53 ≤ diff x

theorem safeDiff_id : SafeDiff id := ⟨fun _ _ _ => rfl, fun _ h => h⟩

theorem safeDiff_binary64 : SafeDiff Binary64.ofInt :=
  ⟨fun _ hlow hhigh => Binary64.ofInt_of_natAbs_lt (by omega), fun _ => Binary64.le_ofInt_of_le⟩

theorem SafeDiff.bound_le {diff : Int → Int} (hdiff : SafeDiff diff) {x bound : Int}
    (hx : 0 ≤ x) (hbound : bound ≤ 2 ^ 53) (hle : bound ≤ x) : bound ≤ diff x := by
  rcases lt_or_ge x (2 ^ 53) with hsmall | hlarge
  · rw [hdiff.exact x hx hsmall]
    exact hle
  · exact hbound.trans (hdiff.beyond x hlarge)

section Order

variable {diff : Int → Int} {sr : Int}

/-- In a map that never goes back in time every breakpoint is at or after the
first one. -/
theorem tick_nonneg_of_sorted {p : TempoPoint} {rest : List TempoPoint} (hp : 0 ≤ p.tick)
    (hsorted : (p :: rest).IsChain (fun p q => p.tick ≤ q.tick)) :
    ∀ q ∈ p :: rest, 0 ≤ q.tick := by
  intro q hq
  rcases List.mem_cons.mp hq with rfl | hmem
  · exact hp
  · exact hp.trans (hsorted.rel_cons hmem)

/-- Every tick at or after the boundary sits at or after its sample. -/
theorem start_le_sampleOf_locateTick (hdiff : SafeDiff diff) (hsr : 0 ≤ sr)
    (b : Boundary) (rest : List TempoPoint) (t : Int) (hb : b.point.tick ≤ t)
    (hsorted : (b.point :: rest).IsChain (fun p q => p.tick ≤ q.tick))
    (hpos : ∀ p ∈ b.point :: rest, 0 < 2 * p.milliBpm) :
    b.start ≤ (locateTick diff sr b rest t).sampleOf sr t := by
  induction rest generalizing b with
  | nil =>
      have hspan := span_nonneg (m := b.point.milliBpm) hsr (hpos _ (by simp))
        (show 0 ≤ t - b.point.tick by omega)
      simp only [locateTick, tableFrom, lastOfRun_nil, Boundary.sampleOf]
      omega
  | cons q rest ih =>
      rw [List.isChain_cons_cons] at hsorted
      rw [locateTick_cons]
      split
      · rename_i hreach
        have hnext := ih (b.next diff sr q) hreach hsorted.2
          (fun p hp => hpos p (List.mem_cons_of_mem _ hp))
        have hspan := span_nonneg (m := b.point.milliBpm) hsr (hpos _ (by simp))
          (hdiff.bound_le (x := q.tick - b.point.tick) (by omega) (by norm_num) (by omega))
        have hstart : b.start ≤ (b.next diff sr q).start := by
          simp only [Boundary.next]
          omega
        exact hstart.trans hnext
      · have hspan := span_nonneg (m := b.point.milliBpm) hsr (hpos _ (by simp))
          (show 0 ≤ t - b.point.tick by omega)
        unfold Boundary.sampleOf
        omega

/-- A later tick never has an earlier sample. -/
theorem sampleOf_locateTick_mono (hdiff : SafeDiff diff) (hsr : 0 ≤ sr) (b : Boundary)
    (rest : List TempoPoint) {t t' : Int} (hfloor : 0 ≤ b.point.tick) (hb : b.point.tick ≤ t)
    (hle : t ≤ t') (ht : t ≤ MAX_TICK)
    (hsorted : (b.point :: rest).IsChain (fun p q => p.tick ≤ q.tick))
    (hpos : ∀ p ∈ b.point :: rest, 0 < 2 * p.milliBpm) :
    (locateTick diff sr b rest t).sampleOf sr t ≤
      (locateTick diff sr b rest t').sampleOf sr t' := by
  induction rest generalizing b with
  | nil =>
      have hspan := span_mono hsr (hpos b.point (by simp)) (Int.sub_le_sub_right hle b.point.tick)
      simp only [locateTick, tableFrom, lastOfRun_nil, Boundary.sampleOf]
      omega
  | cons q rest ih =>
      rw [List.isChain_cons_cons] at hsorted
      have hpos' : ∀ p ∈ q :: rest, 0 < 2 * p.milliBpm :=
        fun p hp => hpos p (List.mem_cons_of_mem _ hp)
      have hm := hpos b.point (by simp)
      rw [locateTick_cons, locateTick_cons]
      rcases le_or_gt q.tick t with hreach | hbefore
      · rw [if_pos hreach, if_pos (hreach.trans hle)]
        exact ih (b.next diff sr q) (hfloor.trans hsorted.1) hreach hsorted.2 hpos'
      · rw [if_neg (not_le.mpr hbefore)]
        rcases le_or_gt q.tick t' with hreach | hbefore'
        · rw [if_pos hreach]
          have hgap : t - b.point.tick ≤ diff (q.tick - b.point.tick) :=
            hdiff.bound_le (by omega) (by unfold MAX_TICK at ht; omega) (by omega)
          have hspan := span_mono hsr hm hgap
          have hstart := start_le_sampleOf_locateTick hdiff hsr (b.next diff sr q) rest t' hreach
            hsorted.2 hpos'
          apply le_trans _ hstart
          simp only [Boundary.next, Boundary.sampleOf]
          omega
        · rw [if_neg (not_le.mpr hbefore')]
          have hspan := span_mono hsr hm (Int.sub_le_sub_right hle b.point.tick)
          unfold Boundary.sampleOf
          omega

/-- Going to samples and back finds the same segment: the rounded start of
the next segment is strictly above every tick before its breakpoint. -/
theorem locateSample_sampleOf (hdiff : SafeDiff diff) (b : Boundary)
    (rest : List TempoPoint) (t : Int) (hb : b.point.tick ≤ t) (hfloor : 0 ≤ b.point.tick)
    (ht : t ≤ MAX_TICK)
    (hsorted : (b.point :: rest).IsChain (fun p q => p.tick < q.tick))
    (hpos : ∀ p ∈ b.point :: rest, 0 < 2 * p.milliBpm)
    (hrate : ∀ p ∈ b.point :: rest, 2 * p.milliBpm ≤ sr * 125) :
    locateSample diff sr b rest ((locateTick diff sr b rest t).sampleOf sr t) =
      locateTick diff sr b rest t := by
  have hsr : 0 ≤ sr := by
    have := hpos b.point (by simp)
    have := hrate b.point (by simp)
    omega
  induction rest generalizing b with
  | nil => rfl
  | cons q rest ih =>
      rw [List.isChain_cons_cons] at hsorted
      rw [locateTick_cons]
      split
      · rename_i hreach
        have hpos' : ∀ p ∈ q :: rest, 0 < 2 * p.milliBpm :=
          fun p hp => hpos p (List.mem_cons_of_mem _ hp)
        have hsorted' : (q :: rest).IsChain (fun p q => p.tick ≤ q.tick) :=
          hsorted.2.imp (fun _ _ h => le_of_lt h)
        have hstart := start_le_sampleOf_locateTick hdiff hsr (b.next diff sr q) rest t hreach
          hsorted' hpos'
        rw [locateSample_cons, if_pos hstart]
        exact ih (b.next diff sr q) hreach (by simp only [Boundary.next]; omega) hsorted.2
          hpos' (fun p hp => hrate p (List.mem_cons_of_mem _ hp))
      · rename_i hbefore
        have hgap : t - b.point.tick + 1 ≤ diff (q.tick - b.point.tick) :=
          hdiff.bound_le (by omega) (by unfold MAX_TICK at ht; omega) (by omega)
        have hstrict := span_add_one_le (hpos b.point (by simp))
          (hrate b.point (by simp)) hgap
        rw [locateSample_cons, if_neg]
        simp only [Boundary.next, Boundary.sampleOf]
        omega

/-- The fastest admitted timeline has at most `sr / 160` samples per tick,
half-up rounding included. -/
theorem span_le {dt m : Int} (hsr : 0 ≤ sr) (hdt : 0 ≤ dt) (hm : MIN_MILLI_BPM ≤ m) :
    160 * span sr dt m ≤ dt * sr := by
  unfold MIN_MILLI_BPM at hm
  have hpos : 0 < 2 * m := by omega
  obtain ⟨hlow, _⟩ := halfUp_bounds (dt * sr * 125) hpos
  have hnonneg : 0 ≤ span sr dt m := span_nonneg hsr hpos hdt
  have hprod : 0 ≤ dt * sr := by positivity
  unfold span at hnonneg ⊢
  rcases lt_or_ge (halfUp (dt * sr * 125) (2 * m)) 1 with hzero | hone
  · omega
  · have hscale : halfUp (dt * sr * 125) (2 * m) * m ≤ dt * sr * 125 := by nlinarith
    nlinarith

/-- Positions up to the last admitted tick stay within the same bound. -/
theorem sampleOf_locateTick_le (hdiff : SafeDiff diff) (hsr : 0 ≤ sr) (b : Boundary)
    (rest : List TempoPoint) (t : Int) (hfloor : 0 ≤ b.point.tick) (hb : b.point.tick ≤ t)
    (ht : t ≤ MAX_TICK) (hsorted : (b.point :: rest).IsChain (fun p q => p.tick ≤ q.tick))
    (hrange : ∀ p ∈ b.point :: rest, p.InRange) :
    160 * (locateTick diff sr b rest t).sampleOf sr t ≤
      160 * b.start + (t - b.point.tick) * sr := by
  induction rest generalizing b with
  | nil =>
      have hdt : 0 ≤ t - b.point.tick := by omega
      have hspan := span_le hsr hdt (hrange b.point (by simp)).1
      simp only [locateTick, tableFrom, lastOfRun_nil, Boundary.sampleOf]
      omega
  | cons q rest ih =>
      rw [List.isChain_cons_cons] at hsorted
      rw [locateTick_cons]
      split
      · rename_i hreach
        have hexact : diff (q.tick - b.point.tick) = q.tick - b.point.tick :=
          hdiff.exact _ (by omega) (by unfold MAX_TICK at ht; omega)
        have hdt : 0 ≤ q.tick - b.point.tick := by omega
        have hspan := span_le hsr hdt (hrange b.point (by simp)).1
        have hnext := ih (b.next diff sr q) (by simp only [Boundary.next]; omega) hreach
          hsorted.2 (fun p hp => hrange p (List.mem_cons_of_mem _ hp))
        simp only [Boundary.next, hexact] at hnext ⊢
        nlinarith
      · have hdt : 0 ≤ t - b.point.tick := by omega
        have hspan := span_le hsr hdt (hrange b.point (by simp)).1
        unfold Boundary.sampleOf
        omega

/-- Two safe subtractions locate the same boundary for every tick in range. -/
theorem locateTick_congr {diff' : Int → Int} (hdiff : SafeDiff diff) (hdiff' : SafeDiff diff')
    (b : Boundary) (rest : List TempoPoint) (t : Int) (hfloor : 0 ≤ b.point.tick)
    (ht : t ≤ MAX_TICK) (hsorted : (b.point :: rest).IsChain (fun p q => p.tick ≤ q.tick)) :
    locateTick diff sr b rest t = locateTick diff' sr b rest t := by
  induction rest generalizing b with
  | nil => rfl
  | cons q rest ih =>
      rw [List.isChain_cons_cons] at hsorted
      rw [locateTick_cons, locateTick_cons]
      by_cases hreach : q.tick ≤ t
      · have hsmall : q.tick - b.point.tick < 2 ^ 53 := by unfold MAX_TICK at ht; omega
        have hsame : b.next diff sr q = b.next diff' sr q := by
          simp only [Boundary.next]
          rw [hdiff.exact _ (by omega) hsmall, hdiff'.exact _ (by omega) hsmall]
        rw [if_pos hreach, if_pos hreach, hsame]
        exact ih (b.next diff' sr q) (by simp only [Boundary.next]; omega) hsorted.2
      · rw [if_neg hreach, if_neg hreach]

/-- Two safe subtractions locate the same boundary for every sample that a
tick in range can have: a step of `2 ^ 53` ticks is far beyond them all. -/
theorem locateSample_congr {diff' : Int → Int} (hdiff : SafeDiff diff)
    (hdiff' : SafeDiff diff') (hsr : 0 < sr) (b : Boundary) (rest : List TempoPoint) (s : Int)
    (hstart : 0 ≤ b.start) (hs : 160 * s ≤ MAX_TICK * sr)
    (hsorted : (b.point :: rest).IsChain (fun p q => p.tick ≤ q.tick))
    (hrange : ∀ p ∈ b.point :: rest, p.InRange) :
    locateSample diff sr b rest s = locateSample diff' sr b rest s := by
  induction rest generalizing b with
  | nil => rfl
  | cons q rest ih =>
      rw [List.isChain_cons_cons] at hsorted
      have hm := hrange b.point (by simp)
      have hpos := hm.pos
      rw [locateSample_cons, locateSample_cons]
      rcases lt_or_ge (q.tick - b.point.tick) (2 ^ 53) with hsmall | hlarge
      · have hsame : b.next diff sr q = b.next diff' sr q := by
          simp only [Boundary.next]
          rw [hdiff.exact _ (by omega) hsmall, hdiff'.exact _ (by omega) hsmall]
        have hnext : 0 ≤ (b.next diff' sr q).start := by
          have hspan := span_nonneg (m := b.point.milliBpm) (by omega : 0 ≤ sr) hpos
            (hdiff'.bound_le (x := q.tick - b.point.tick) (by omega) (by norm_num) (by omega))
          simp only [Boundary.next]
          omega
        rw [hsame, ih (b.next diff' sr q) hnext hsorted.2
          (fun p hp => hrange p (List.mem_cons_of_mem _ hp))]
      · have hfar : ∀ d : Int, 2 ^ 53 ≤ d → s < span sr d b.point.milliBpm := by
          intro d hd
          obtain ⟨_, hmax⟩ := hm
          obtain ⟨_, hhigh⟩ := halfUp_bounds (d * sr * 125) hpos
          unfold MAX_MILLI_BPM at hmax
          unfold MAX_TICK at hs
          unfold span
          by_contra hle
          have hcap : halfUp (d * sr * 125) (2 * b.point.milliBpm) *
              (2 * b.point.milliBpm) ≤ s * (2 * b.point.milliBpm) :=
            Int.mul_le_mul_of_nonneg_right (by omega) (by omega)
          have hdsr : 2 ^ 53 * sr ≤ d * sr := Int.mul_le_mul_of_nonneg_right hd (by omega)
          rcases lt_or_ge s 0 with hneg | hnonneg
          · nlinarith
          · have hs2 : s * (2 * b.point.milliBpm) ≤ s * 1998000 :=
              Int.mul_le_mul_of_nonneg_left (by omega) hnonneg
            omega
        have hskip : ∀ d, SafeDiff d → ¬ (b.next d sr q).start ≤ s := by
          intro d hd
          have := hfar _ (hd.beyond _ hlarge)
          simp only [Boundary.next]
          omega
        rw [if_neg (hskip diff hdiff), if_neg (hskip diff' hdiff')]

end Order

end DawProject.Tempo
