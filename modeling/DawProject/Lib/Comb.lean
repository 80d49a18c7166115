import Mathlib.Algebra.BigOperators.Ring.Finset
import Mathlib.Algebra.Order.Field.Basic
import Mathlib.Tactic.Linarith
import Mathlib.Tactic.Ring

/-!
The comb filter with feedback: what goes into a line of `d` values comes back `d`
moments later, and goes in again times a gain. An input is heard again after every
multiple of `d`, each time by one more factor of the gain; with a gain below one
what comes back stays bounded.
-/

namespace Comb

open Finset

section Ring

variable {R : Type*} [CommRing R] (g : R) (d : ℕ) (x : ℕ → R)

/-- What comes back at a moment. -/
def returned (n : ℕ) : R := ∑ j ∈ range (n / d), g ^ j * x (n - (j + 1) * d)

/-- What goes into the line. -/
def line (n : ℕ) : R := x n + returned g d x n * g

/-- The input and the line, in a proportion. -/
def mixed (mix : R) (n : ℕ) : R := x n * (1 - mix) + returned g d x n * mix

variable {g d x} {n : ℕ}

theorem returned_of_lt (hn : n < d) : returned g d x n = 0 := by
  rw [returned, Nat.div_eq_of_lt hn, range_zero, sum_empty]

/-- The line gives what went into it. -/
theorem returned_add (hd : 0 < d) : returned g d x (n + d) = line g d x n := by
  rw [returned, Nat.add_div_right n hd, sum_range_succ', line, returned, sum_mul, add_comm]
  congr 1
  · rw [pow_zero, one_mul, Nat.zero_add, Nat.one_mul, Nat.add_sub_cancel]
  · apply sum_congr rfl
    intro j _
    have hback : n + d - (j + 1 + 1) * d = n - (j + 1) * d := by
      rw [Nat.succ_mul (j + 1) d, Nat.add_sub_add_right]
    rw [hback, pow_succ]
    ring

end Ring

section Bound

variable {R : Type*} [CommRing R] [LinearOrder R] [IsStrictOrderedRing R] {g bound mix : R} {d : ℕ}
  {x : ℕ → R}

/-- What comes back is at most the sum of all the echoes. -/
theorem abs_returned_le (hd : 0 < d) (hpos : 0 ≤ g) (hlt : g ≤ 1) (hx : ∀ n, |x n| ≤ bound)
    (n : ℕ) : |returned g d x n| * (1 - g) ≤ bound := by
  have hbound : 0 ≤ bound := le_trans (abs_nonneg (x 0)) (hx 0)
  induction n using Nat.strong_induction_on with
  | _ n ih =>
      rcases Nat.lt_or_ge n d with hn | hn
      · rw [returned_of_lt hn, abs_zero, zero_mul]
        exact hbound
      · obtain ⟨m, rfl⟩ := Nat.exists_eq_add_of_le' hn
        rw [returned_add hd, line]
        have hrest := ih m (Nat.lt_add_of_pos_right hd)
        have hsum : |x m + returned g d x m * g| ≤ bound + |returned g d x m| * g := by
          apply le_trans (abs_add_le _ _)
          rw [abs_mul, abs_of_nonneg hpos]
          exact add_le_add_left (hx m) _
        calc |x m + returned g d x m * g| * (1 - g)
            ≤ (bound + |returned g d x m| * g) * (1 - g) :=
              mul_le_mul_of_nonneg_right hsum (sub_nonneg.mpr hlt)
          _ = bound * (1 - g) + (|returned g d x m| * (1 - g)) * g := by ring
          _ ≤ bound * (1 - g) + bound * g :=
              add_le_add_right (mul_le_mul_of_nonneg_right hrest hpos) _
          _ = bound := by ring

theorem abs_mixed_le (hd : 0 < d) (hpos : 0 ≤ g) (hlt : g ≤ 1) (hmix : 0 ≤ mix) (hdry : mix ≤ 1)
    (hx : ∀ n, |x n| ≤ bound) (n : ℕ) : |mixed g d x mix n| * (1 - g) ≤ bound := by
  have hbound : 0 ≤ bound := le_trans (abs_nonneg (x 0)) (hx 0)
  have hreturned := abs_returned_le hd hpos hlt hx n
  have hone : 0 ≤ 1 - g := sub_nonneg.mpr hlt
  have hsum : |mixed g d x mix n| ≤ |x n| * (1 - mix) + |returned g d x n| * mix := by
    apply le_trans (abs_add_le _ _)
    rw [abs_mul, abs_mul, abs_of_nonneg hmix, abs_of_nonneg (sub_nonneg.mpr hdry)]
  have hdirect : |x n| * (1 - g) ≤ bound := by
    calc |x n| * (1 - g) ≤ |x n| * 1 :=
          mul_le_mul_of_nonneg_left (sub_le_self 1 hpos) (abs_nonneg _)
      _ = |x n| := mul_one _
      _ ≤ bound := hx n
  calc |mixed g d x mix n| * (1 - g)
      ≤ (|x n| * (1 - mix) + |returned g d x n| * mix) * (1 - g) :=
        mul_le_mul_of_nonneg_right hsum hone
    _ = |x n| * (1 - g) * (1 - mix) + |returned g d x n| * (1 - g) * mix := by ring
    _ ≤ bound * (1 - mix) + bound * mix :=
        add_le_add (mul_le_mul_of_nonneg_right hdirect (sub_nonneg.mpr hdry))
          (mul_le_mul_of_nonneg_right hreturned hmix)
    _ = bound := by ring

theorem abs_mixed_le_mul {k : R} (hd : 0 < d) (hpos : 0 ≤ g) (hmix : 0 ≤ mix) (hdry : mix ≤ 1)
    (hk : 0 < k) (hsum : 1 ≤ (1 - g) * k) (hx : ∀ n, |x n| ≤ bound) (n : ℕ) :
    |mixed g d x mix n| ≤ bound * k := by
  have hone : g ≤ 1 := by
    by_contra hgt
    have hneg : (1 - g) * k < 0 := mul_neg_of_neg_of_pos (by linarith) hk
    linarith
  calc |mixed g d x mix n| = |mixed g d x mix n| * 1 := (mul_one _).symm
    _ ≤ |mixed g d x mix n| * ((1 - g) * k) := mul_le_mul_of_nonneg_left hsum (abs_nonneg _)
    _ = |mixed g d x mix n| * (1 - g) * k := (mul_assoc ..).symm
    _ ≤ bound * k :=
      mul_le_mul_of_nonneg_right (abs_mixed_le hd hpos hone hmix hdry hx n) hk.le

end Bound

end Comb
