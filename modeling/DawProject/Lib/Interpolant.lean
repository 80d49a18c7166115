import Mathlib.Algebra.Order.Field.Basic
import Mathlib.Data.List.Basic
import Mathlib.Tactic.Linarith

/-!
The clamped piecewise-linear interpolant of a list of points sorted by time. A
time that is repeated makes a step: the curve goes on from the last of its
points. The curve holds its first value up to the time of the first point.
-/

namespace Interpolant

section Neighbours

variable {α K : Type*} [LinearOrder K] (time : α → K)

/-- The points on either side of `t`; outside of the curve both are the nearest
end of it. -/
inductive Neighbours (points : List α) (t : K) : α → α → Prop
  | front {p : α} : points.head? = some p → t ≤ time p → Neighbours points t p p
  | back {first p : α} : points.head? = some first → time first < t →
      points.getLast? = some p → time p ≤ t → Neighbours points t p p
  | segment {first a b : α} (i : ℕ) : points.head? = some first → time first < t →
      points[i]? = some a → points[i + 1]? = some b → time a ≤ t → t < time b →
      Neighbours points t a b

/-- The points are in the order of their times. -/
def Sorted (points : List α) : Prop := points.Pairwise fun a b => time a ≤ time b

variable {time} {points : List α} {t : K} {a b a' b' : α}

theorem Sorted.time_le (hsorted : Sorted time points) {i j : ℕ} (hle : i ≤ j)
    (ha : points[i]? = some a) (hb : points[j]? = some b) : time a ≤ time b := by
  rcases hle.eq_or_lt with rfl | hlt
  · rw [Option.some.inj (ha.symm.trans hb)]
  · obtain ⟨hi, rfl⟩ := List.getElem?_eq_some_iff.mp ha
    obtain ⟨hj, rfl⟩ := List.getElem?_eq_some_iff.mp hb
    exact List.pairwise_iff_getElem.mp hsorted i j hi hj hlt

theorem getLast?_eq_getElem? (hlast : points.getLast? = some a) :
    ∃ i, points[i]? = some a ∧ points.length = i + 1 := by
  have hne : points ≠ [] := by
    rintro rfl
    cases hlast
  refine ⟨points.length - 1, ?_, ?_⟩
  · rw [← List.getLast?_eq_getElem?, hlast]
  · have hlength := List.length_pos_of_ne_nil hne
    omega

/-- A time has one pair of neighbours. -/
theorem Neighbours.unique (hsorted : Sorted time points) (h : Neighbours time points t a b)
    (h' : Neighbours time points t a' b') : a = a' ∧ b = b' := by
  -- Of two segments around `t`, neither can lie before the other one.
  have hsegment : ∀ {i j : ℕ} {b a' : α}, points[i + 1]? = some b → points[j]? = some a' →
      t < time b → time a' ≤ t → j ≤ i := by
    intro i j b a' hb ha' hlt hle
    by_contra hij
    exact absurd ((hlt.trans_le (hsorted.time_le (by omega) hb ha')).trans_le hle) (lt_irrefl t)
  have hback : ∀ {i : ℕ} {b p : α}, points[i + 1]? = some b → points.getLast? = some p →
      t < time b → ¬time p ≤ t := by
    intro i b p hb hp hlt hle
    obtain ⟨k, hk, hlength⟩ := getLast?_eq_getElem? hp
    obtain ⟨hi, -⟩ := List.getElem?_eq_some_iff.mp hb
    have hki := hsegment hb hk hlt hle
    omega
  cases h with
  | front hhead hle =>
      cases h' with
      | front hhead' _ =>
          obtain rfl := Option.some.inj (hhead.symm.trans hhead')
          exact ⟨rfl, rfl⟩
      | back hhead' hlt _ _ | segment i hhead' hlt _ _ _ _ =>
          obtain rfl := Option.some.inj (hhead.symm.trans hhead')
          exact absurd hle (not_le.mpr hlt)
  | back hhead hlt hlast hle =>
      cases h' with
      | front hhead' hle' =>
          obtain rfl := Option.some.inj (hhead.symm.trans hhead')
          exact absurd hle' (not_le.mpr hlt)
      | back _ _ hlast' _ =>
          obtain rfl := Option.some.inj (hlast.symm.trans hlast')
          exact ⟨rfl, rfl⟩
      | segment i _ _ _ hb' _ hlt' => exact absurd hle (hback hb' hlast hlt')
  | segment i hhead hlt ha hb hle hltb =>
      cases h' with
      | front hhead' hle' =>
          obtain rfl := Option.some.inj (hhead.symm.trans hhead')
          exact absurd hle' (not_le.mpr hlt)
      | back _ _ hlast' hle' => exact absurd hle' (hback hb hlast' hltb)
      | segment j _ _ ha' hb' hle' hltb' =>
          obtain rfl : i = j := le_antisymm (hsegment hb' ha hltb' hle) (hsegment hb ha' hltb hle')
          exact ⟨Option.some.inj (ha.symm.trans ha'), Option.some.inj (hb.symm.trans hb')⟩

end Neighbours

section Value

variable {α K : Type*} [Field K] (time value : α → K)

/-- The value at `t` of the line through `a` and `b`. -/
def lerp (a b : α) (t : K) : K :=
  value a + (value b - value a) * ((t - time a) / (time b - time a))

variable {time value} {points : List α} {t : K} {a b : α}

@[simp] theorem lerp_self (p : α) : lerp time value p p t = value p := by
  simp [lerp]

variable [LinearOrder K]

variable (time value) in
/-- `v` is the value of the curve at `t`. -/
def IsValue (points : List α) (t : K) (v : K) : Prop :=
  ∃ a b, Neighbours time points t a b ∧ v = lerp time value a b t

theorem IsValue.unique (hsorted : Sorted time points) {v v' : K}
    (h : IsValue time value points t v) (h' : IsValue time value points t v') : v = v' := by
  obtain ⟨a, b, hab, rfl⟩ := h
  obtain ⟨a', b', hab', rfl⟩ := h'
  obtain ⟨rfl, rfl⟩ := hab.unique hsorted hab'
  rfl

variable [IsStrictOrderedRing K]

/-- A value of the curve lies between those of the neighbours. -/
theorem Neighbours.lerp_mem (h : Neighbours time points t a b) :
    min (value a) (value b) ≤ lerp time value a b t ∧
      lerp time value a b t ≤ max (value a) (value b) := by
  cases h with
  | front _ _ | back _ _ _ _ => simp
  | segment i _ _ _ _ hle hlt =>
      have hwidth : 0 < time b - time a := by linarith
      have hlow : 0 ≤ (t - time a) / (time b - time a) :=
        div_nonneg (by linarith) hwidth.le
      have hhigh : (t - time a) / (time b - time a) ≤ 1 := by
        rw [div_le_one hwidth]
        linarith
      unfold lerp
      rcases le_total (value a) (value b) with hv | hv
      · rw [min_eq_left hv, max_eq_right hv]
        constructor <;> nlinarith
      · rw [min_eq_right hv, max_eq_left hv]
        constructor <;> nlinarith

end Value

end Interpolant
