import DawProject.Lib.Run
import DawProject.Playback.Builtins
import Mathlib.Algebra.Order.Field.Basic
import Mathlib.Tactic.Linarith
import Mathlib.Tactic.Ring

/-!
The fuse of the output, `engine/src/audio/output_limiter.h`, over exact numbers. A
sample of the buffer may be no number, as the floats allow. The control thread sets
the ceiling and switches the limiter between two blocks of the callback; the callback
processes what it gives to the device, and resets the limiter while it is silent.
-/

namespace DawProject.Audio.Limiter

open Playback (Frame clamp clamp_le le_clamp larger)

variable {R : Type} [Field R] [LinearOrder R] [IsStrictOrderedRing R]

/-- What the standard library computes for the limiter. -/
structure Decibels (R : Type) [Field R] [LinearOrder R] where
  /-- The level of a number of decibels. -/
  linear : R → R
  linear_pos : ∀ db, 0 < linear db
  /-- The decibels of a gain, with the other sign. -/
  reduction : R → R
  /-- What is left of a distance after one sample at a rate. -/
  decay : Nat → R
  decay_nonneg : ∀ rate, 0 ≤ decay rate
  decay_lt : ∀ rate, decay rate < 1

/-- A level, which is above zero. -/
abbrev Ceiling (R : Type) [Field R] [LinearOrder R] := { c : R // 0 < c }

structure OutputLimiter (R : Type) [Field R] [LinearOrder R] where
  enabled : Bool := true
  ceiling : Ceiling R
  release_coeff : R := 0
  gain : R := 1
  reduction_db : R := 0
  max_reduction_db : R := 0
  engaged_blocks : Nat := 0

/-- A sample of the buffer; `none` is no number or an infinite one. -/
abbrev Sample (R : Type) := Option R

/-- The loop of `process` at a sample: the gain, the least gain and whether it fell. -/
structure Loop (R : Type) where
  g : R
  min_g : R
  engaged : Bool

section Process

variable (dB : Decibels R) (s : OutputLimiter R)

def setCeilingDb (db : R) : OutputLimiter R :=
  { s with ceiling := ⟨dB.linear (clamp db (-24) 0), dB.linear_pos _⟩ }

def setEnabled (on : Bool) : OutputLimiter R := { s with enabled := on }

def prepare (sample_rate : Nat) : OutputLimiter R :=
  { s with release_coeff := dB.decay sample_rate, gain := 1 }

def reset : OutputLimiter R := { s with gain := 1, reduction_db := 0 }

/-- One step of the release: all the way back once it is close. -/
def release (coeff g : R) : R :=
  let g := 1 - (1 - g) * coeff
  if 99999 / 100000 < g then 1 else g

/-- The gain for a peak. -/
def nextGain (ceiling coeff g peak : R) : R :=
  if ceiling < peak * g then ceiling / peak else if g < 1 then release coeff g else g

def limited (ceiling g x : R) : R := clamp (x * g) (-ceiling) ceiling

/-- A frame of the loop. -/
def processFrame (loop : Loop R) (x : Frame (Sample R)) : Loop R × Frame R :=
  let ceiling := s.ceiling.val
  let l := x.left.getD 0
  let r := x.right.getD 0
  let peak := larger |l| |r|
  let g := nextGain ceiling s.release_coeff loop.g peak
  ({ g := g
     min_g := if g < loop.min_g then g else loop.min_g
     engaged := loop.engaged || decide (ceiling < peak * loop.g) },
    ⟨limited ceiling g l, limited ceiling g r⟩)

def processFrames (loop : Loop R) : List (Frame (Sample R)) → Loop R × List (Frame R)
  | [] => (loop, [])
  | x :: block =>
      let (loop, y) := processFrame s loop x
      let (loop, out) := processFrames loop block
      (loop, y :: out)

/-- `process`: the block that goes to the device. -/
def process (block : List (Frame (Sample R))) : OutputLimiter R × List (Frame (Sample R)) :=
  if !s.enabled then ({ s with gain := 1, reduction_db := 0 }, block)
  else
    let (loop, out) := processFrames s { g := s.gain, min_g := 1, engaged := false } block
    let reduction_db := if loop.min_g < 1 then dB.reduction loop.min_g else 0
    ({ s with
        gain := loop.g
        reduction_db := larger s.reduction_db reduction_db
        engaged_blocks := if loop.engaged then s.engaged_blocks + 1 else s.engaged_blocks
        max_reduction_db :=
          if loop.engaged then larger s.max_reduction_db reduction_db else s.max_reduction_db },
      out.map fun y => ⟨some y.left, some y.right⟩)

end Process

/-- What the two threads do with the limiter, a block at a time. -/
inductive Event (R : Type) where
  | setCeilingDb (db : R)
  | setEnabled (on : Bool)
  | prepare (sample_rate : Nat)
  | reset
  | takeReductionDb
  | process (block : List (Frame (Sample R)))

def step (dB : Decibels R) (s : OutputLimiter R) : Event R → OutputLimiter R
  | .setCeilingDb db => setCeilingDb dB s db
  | .setEnabled on => setEnabled s on
  | .prepare sample_rate => prepare dB s sample_rate
  | .reset => reset s
  | .takeReductionDb => { s with reduction_db := 0 }
  | .process block => (process dB s block).1

/-- `kDefaultCeilingDb`. -/
def start (dB : Decibels R) : OutputLimiter R where
  ceiling := ⟨dB.linear (clamp (-(3 / 10)) (-24) 0), dB.linear_pos _⟩

section Gain

variable {ceiling coeff g peak : R}

theorem release_pos (hcoeff : 0 ≤ coeff) (hlt : coeff < 1) (hpos : 0 < g) (hle : g ≤ 1) :
    g ≤ release coeff g ∧ release coeff g ≤ 1 := by
  have hkept : (1 - g) * coeff ≤ 1 - g :=
    mul_le_of_le_one_right (sub_nonneg.mpr hle) hlt.le
  have hnonneg : 0 ≤ (1 - g) * coeff := mul_nonneg (sub_nonneg.mpr hle) hcoeff
  rw [release]
  split
  · exact ⟨hle, le_refl 1⟩
  · exact ⟨by linarith, by linarith⟩

/-- The gain stays above zero and does not amplify. -/
theorem nextGain_mem (hceiling : 0 < ceiling) (hcoeff : 0 ≤ coeff) (hlt : coeff < 1) (hpos : 0 < g)
    (hle : g ≤ 1) (hpeak : 0 ≤ peak) :
    0 < nextGain ceiling coeff g peak ∧ nextGain ceiling coeff g peak ≤ 1 := by
  rw [nextGain]
  split
  · rename_i hover
    have hpositive : 0 < peak := by
      rcases hpeak.lt_or_eq with hpos | rfl
      · exact hpos
      · rw [zero_mul] at hover
        exact absurd hover (not_lt.mpr hceiling.le)
    have hpeakle : peak * g ≤ peak := mul_le_of_le_one_right hpeak hle
    exact ⟨div_pos hceiling hpositive, (div_le_one hpositive).mpr (by linarith)⟩
  · split
    · obtain ⟨hup, hdown⟩ := release_pos hcoeff hlt hpos hle
      exact ⟨lt_of_lt_of_le hpos hup, hdown⟩
    · exact ⟨hpos, hle⟩

theorem nextGain_quiet (hquiet : peak ≤ ceiling) (hpeak : 0 ≤ peak) (hle : g ≤ 1) :
    nextGain ceiling coeff g peak = if g < 1 then release coeff g else g :=
  if_neg (not_lt.mpr (le_trans (mul_le_of_le_one_right hpeak hle) hquiet))

theorem abs_limited (hceiling : 0 < ceiling) (g x : R) : |limited ceiling g x| ≤ ceiling := by
  have hrange : -ceiling ≤ ceiling := by linarith
  exact abs_le.mpr ⟨le_clamp hrange, clamp_le hrange⟩

/-- A gain of one leaves what is under the ceiling. -/
theorem limited_one {x : R} (hx : |x| ≤ ceiling) : limited ceiling 1 x = x := by
  obtain ⟨hlo, hhi⟩ := abs_le.mp hx
  rw [limited, mul_one, clamp, if_neg (not_lt.mpr hlo), if_neg (not_lt.mpr hhi)]

theorem larger_abs_nonneg (l r : R) : 0 ≤ larger |l| |r| := by
  rw [larger]
  split
  · exact abs_nonneg r
  · exact abs_nonneg l

end Gain

section Frames

variable {s : OutputLimiter R}

/-- What the limiter keeps. -/
structure Inv (s : OutputLimiter R) : Prop where
  gain_pos : 0 < s.gain
  gain_le : s.gain ≤ 1
  coeff_nonneg : 0 ≤ s.release_coeff
  coeff_lt : s.release_coeff < 1

/-- What becomes of a frame: both samples times one gain, cut at the ceiling. -/
def Limits (ceiling : R) (x : Frame (Sample R)) (y : Frame R) : Prop :=
  (∃ g, 0 < g ∧ g ≤ 1 ∧
    y = ⟨limited ceiling g (x.left.getD 0), limited ceiling g (x.right.getD 0)⟩) ∧
      |y.left| ≤ ceiling ∧ |y.right| ≤ ceiling

theorem processFrames_spec (loop : Loop R) (hcoeff : 0 ≤ s.release_coeff) (hlt : s.release_coeff < 1)
    (hpos : 0 < loop.g) (hle : loop.g ≤ 1) (block : List (Frame (Sample R))) :
    (0 < (processFrames s loop block).1.g ∧ (processFrames s loop block).1.g ≤ 1) ∧
      List.Forall₂ (Limits s.ceiling.val) block (processFrames s loop block).2 := by
  induction block generalizing loop with
  | nil => exact ⟨⟨hpos, hle⟩, .nil⟩
  | cons x block ih =>
      obtain ⟨hgain, hone⟩ := nextGain_mem s.ceiling.property hcoeff hlt hpos hle
        (larger_abs_nonneg (x.left.getD 0) (x.right.getD 0))
      obtain ⟨hlast, hrest⟩ := ih (processFrame s loop x).1 hgain hone
      have hframe : Limits s.ceiling.val x (processFrame s loop x).2 :=
        ⟨⟨_, hgain, hone, rfl⟩, abs_limited s.ceiling.property _ _,
          abs_limited s.ceiling.property _ _⟩
      exact ⟨hlast, .cons hframe hrest⟩

/-- A sample under the ceiling. -/
def Under (ceiling : R) (x : Frame (Sample R)) : Prop :=
  ∃ l r, x = ⟨some l, some r⟩ ∧ |l| ≤ ceiling ∧ |r| ≤ ceiling

/-- After `n` frames under the ceiling: back at one, or closer to it. -/
def Recovers (coeff from_ g : R) (n : Nat) : Prop :=
  g = 1 ∨ 1 - g ≤ (1 - from_) * coeff ^ n ∧ (n = 0 ∨ g ≤ 99999 / 100000)

theorem Recovers.next {ceiling coeff from_ g peak : R} {n : Nat} (h : Recovers coeff from_ g n)
    (hquiet : peak ≤ ceiling) (hpeak : 0 ≤ peak) (hcoeff : 0 ≤ coeff) (hle : g ≤ 1) :
    Recovers coeff from_ (nextGain ceiling coeff g peak) (n + 1) := by
  rw [nextGain_quiet hquiet hpeak hle]
  rcases lt_or_eq_of_le hle with hlt | rfl
  · rw [if_pos hlt, release]
    split
    · exact .inl rfl
    · rename_i hfar
      rcases h with hone | ⟨hnear, _⟩
      · exact absurd hone hlt.ne
      · refine .inr ⟨?_, .inr (not_lt.mp hfar)⟩
        have hstep := mul_le_mul_of_nonneg_right hnear hcoeff
        calc 1 - (1 - (1 - g) * coeff) = (1 - g) * coeff := by ring
          _ ≤ (1 - from_) * coeff ^ n * coeff := hstep
          _ = (1 - from_) * coeff ^ (n + 1) := by ring
  · rw [if_neg (lt_irrefl 1)]
    exact .inl rfl

/-- Under the ceiling the gain only comes back. -/
theorem processFrames_under (loop : Loop R) {from_ : R} {n : Nat}
    (hcoeff : 0 ≤ s.release_coeff) (hlt : s.release_coeff < 1) (hpos : 0 < loop.g) (hle : loop.g ≤ 1)
    (hstart : Recovers s.release_coeff from_ loop.g n) {block : List (Frame (Sample R))}
    (hunder : ∀ x ∈ block, Under s.ceiling.val x) :
    Recovers s.release_coeff from_ (processFrames s loop block).1.g (n + block.length) := by
  induction block generalizing loop n with
  | nil => exact hstart
  | cons x block ih =>
      obtain ⟨l, r, rfl, hl, hr⟩ := hunder x List.mem_cons_self
      have hquiet : larger |l| |r| ≤ s.ceiling.val := by
        rw [larger]
        split
        · exact hr
        · exact hl
      obtain ⟨hgain, hone⟩ := nextGain_mem s.ceiling.property hcoeff hlt hpos hle
        (larger_abs_nonneg l r)
      have hnext := hstart.next hquiet (larger_abs_nonneg l r) hcoeff hle
      have hrest := ih (processFrame s loop ⟨some l, some r⟩).1 hgain hone hnext
        fun y hy => hunder y (List.mem_cons_of_mem _ hy)
      rw [Nat.add_right_comm] at hrest
      exact hrest

/-- Back at one, what is under the ceiling passes as it is. -/
theorem processFrames_one (loop : Loop R) (hone : loop.g = 1) {block : List (Frame (Sample R))}
    (hunder : ∀ x ∈ block, Under s.ceiling.val x) :
    (processFrames s loop block).2.map (fun y => (⟨some y.left, some y.right⟩ : Frame (Sample R))) =
      block := by
  induction block generalizing loop with
  | nil => rfl
  | cons x block ih =>
      obtain ⟨l, r, rfl, hl, hr⟩ := hunder x List.mem_cons_self
      have hquiet : larger |l| |r| ≤ s.ceiling.val := by
        rw [larger]
        split
        · exact hr
        · exact hl
      have hgain : nextGain s.ceiling.val s.release_coeff loop.g (larger |l| |r|) = 1 := by
        rw [nextGain_quiet hquiet (larger_abs_nonneg l r) hone.le, hone, if_neg (lt_irrefl 1)]
      have hrest := ih (processFrame s loop ⟨some l, some r⟩).1 hgain
        fun y hy => hunder y (List.mem_cons_of_mem _ hy)
      have hframe : (processFrame s loop ⟨some l, some r⟩).2 = ⟨l, r⟩ := by
        simp only [processFrame, Option.getD_some, hgain, limited_one hl, limited_one hr]
      rw [processFrames]
      simp only [List.map_cons, hframe]
      exact congrArg _ hrest

end Frames

section Run

variable {dB : Decibels R} {s : OutputLimiter R}

theorem inv_start : Inv (start dB) where
  gain_pos := zero_lt_one
  gain_le := le_refl 1
  coeff_nonneg := le_refl 0
  coeff_lt := zero_lt_one

theorem Inv.process (h : Inv s) (block : List (Frame (Sample R))) :
    Inv (process dB s block).1 := by
  rw [Limiter.process]
  cases hon : s.enabled with
  | false => exact { h with gain_pos := zero_lt_one, gain_le := le_refl 1 }
  | true =>
      obtain ⟨⟨hpos, hle⟩, _⟩ := processFrames_spec { g := s.gain, min_g := 1, engaged := false }
        h.coeff_nonneg h.coeff_lt h.gain_pos h.gain_le block
      exact { h with gain_pos := hpos, gain_le := hle }

theorem Inv.step (h : Inv s) (e : Event R) : Inv (step dB s e) := by
  cases e with
  | setCeilingDb db => exact { h with }
  | setEnabled on => exact { h with }
  | prepare sample_rate =>
      exact {
        gain_pos := zero_lt_one
        gain_le := le_refl 1
        coeff_nonneg := dB.decay_nonneg sample_rate
        coeff_lt := dB.decay_lt sample_rate }
  | reset => exact { h with gain_pos := zero_lt_one, gain_le := le_refl 1 }
  | takeReductionDb => exact { h with }
  | process block => exact h.process block

/-- Blocks under the ceiling, one after the other. -/
def afterBlocks (dB : Decibels R) (s : OutputLimiter R) (blocks : List (List (Frame (Sample R)))) :
    OutputLimiter R :=
  blocks.foldl (fun s block => (process dB s block).1) s

variable (dB) in
theorem afterBlocks_spec {from_ : R} {n : Nat} (h : Inv s) (hon : s.enabled = true)
    (hstart : Recovers s.release_coeff from_ s.gain n) (blocks : List (List (Frame (Sample R))))
    (hunder : ∀ block ∈ blocks, ∀ x ∈ block, Under s.ceiling.val x) :
    let t := afterBlocks dB s blocks
    t.enabled = true ∧ t.ceiling = s.ceiling ∧ t.release_coeff = s.release_coeff ∧
      Recovers s.release_coeff from_ t.gain (n + (blocks.map List.length).sum) := by
  induction blocks generalizing s n with
  | nil => exact ⟨hon, rfl, rfl, hstart⟩
  | cons block blocks ih =>
      have hnext : Recovers s.release_coeff from_ (process dB s block).1.gain
          (n + block.length) := by
        rw [process, hon]
        exact processFrames_under _ h.coeff_nonneg h.coeff_lt h.gain_pos h.gain_le hstart
          (hunder block List.mem_cons_self)
      have hkept : (process dB s block).1.enabled = true ∧
          (process dB s block).1.ceiling = s.ceiling ∧
          (process dB s block).1.release_coeff = s.release_coeff := by
        rw [process, hon]
        exact ⟨rfl, rfl, rfl⟩
      obtain ⟨hstill, hceiling, hcoeff⟩ := hkept
      rw [← hcoeff] at hnext
      have hrest := ih (h.process block) hstill hnext fun b hb x hx => by
        rw [hceiling]
        exact hunder b (List.mem_cons_of_mem _ hb) x hx
      rw [hcoeff, hceiling, Nat.add_assoc] at hrest
      exact hrest

/-- Far enough from the last peak the gain is one again. -/
theorem Recovers.eq_one {coeff from_ g : R} {n : Nat} (h : Recovers coeff from_ g n)
    (hpos : 0 < from_) (hcoeff : 0 ≤ coeff) (hfar : coeff ^ n < 1 / 100000) : g = 1 := by
  rcases h with hone | ⟨hnear, hzero | hkept⟩
  · exact hone
  · rw [hzero, pow_zero] at hfar
    norm_num at hfar
  · have hpow : 0 ≤ coeff ^ n := pow_nonneg hcoeff n
    have hless : (1 - from_) * coeff ^ n ≤ coeff ^ n := by
      rw [sub_mul, one_mul]
      exact sub_le_self _ (mul_nonneg hpos.le hpow)
    have hfive : (1 : R) / 100000 + 99999 / 100000 = 1 := by norm_num
    linarith

theorem inv_of_events (dB : Decibels R) (events : List (Event R)) :
    Inv (events.foldl (step dB) (start dB)) := by
  induction events using List.reverseRecOn with
  | nil => exact inv_start
  | append_singleton events e ih =>
      rw [List.foldl_append]
      exact ih.step e

/-- The fuse, in every run. Nothing that it gives is above the ceiling, whatever it is
given, and both sides have the same gain. And once all has been under the ceiling for
long enough, it changes nothing. -/
theorem fuses_of_run (dB : Decibels R) (events : List (Event R)) :
    let s := events.foldl (step dB) (start dB)
    (0 < s.gain ∧ s.gain ≤ 1) ∧
      (s.enabled = true →
        (∀ block, ∃ out, List.Forall₂ (Limits s.ceiling.val) block out ∧
          (process dB s block).2 = out.map fun y => ⟨some y.left, some y.right⟩) ∧
        ∀ blocks : List (List (Frame (Sample R))),
          (∀ block ∈ blocks, ∀ x ∈ block, Under s.ceiling.val x) →
          s.release_coeff ^ (blocks.map List.length).sum < 1 / 100000 →
          ∀ block, (∀ x ∈ block, Under s.ceiling.val x) →
            (process dB (afterBlocks dB s blocks) block).2 = block) := by
  intro s
  have hinv : Inv s := inv_of_events dB events
  refine ⟨⟨hinv.gain_pos, hinv.gain_le⟩, fun hon => ⟨?_, ?_⟩⟩
  · intro block
    obtain ⟨_, hlimits⟩ := processFrames_spec { g := s.gain, min_g := 1, engaged := false }
      hinv.coeff_nonneg hinv.coeff_lt hinv.gain_pos hinv.gain_le block
    refine ⟨_, hlimits, ?_⟩
    rw [process, hon]
    rfl
  · intro blocks hblocks hfar block hblock
    have hstart : Recovers s.release_coeff s.gain s.gain 0 := by
      refine .inr ⟨?_, .inl rfl⟩
      rw [pow_zero, mul_one]
    obtain ⟨hstill, hceiling, _, hgain⟩ := afterBlocks_spec dB hinv hon hstart blocks hblocks
    rw [Nat.zero_add] at hgain
    have hone := hgain.eq_one hinv.gain_pos hinv.coeff_nonneg hfar
    rw [process, hstill]
    apply processFrames_one _ hone
    rw [hceiling]
    exact hblock

/-- The numbers of the library that the next run asks for, and one for the others. -/
def table : Decibels ℚ where
  linear db := if db = 0 then 1 else 966 / 1000
  linear_pos db := by split <;> norm_num
  reduction g := if g = 1 / 2 then 602 / 100 else 0
  decay _ := 99974 / 100000
  decay_nonneg _ := by norm_num
  decay_lt _ := by norm_num

/-- A peak of twice the ceiling, and a sample that is no number. -/
theorem fuses_of_run_peak :
    ∃ out, List.Forall₂ (Limits 1) [⟨some 2, some (-1)⟩, ⟨none, some (1 / 4)⟩] out ∧
      (process table ([Event.setCeilingDb 0, .prepare 48000].foldl (step table) (start table))
        [⟨some 2, some (-1)⟩, ⟨none, some (1 / 4)⟩]).2 =
          out.map fun y => ⟨some y.left, some y.right⟩ :=
  ((fuses_of_run table [.setCeilingDb 0, .prepare 48000]).2 rfl).1 _

end Run

end DawProject.Audio.Limiter
