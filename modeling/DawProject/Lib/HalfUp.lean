import Mathlib.Algebra.Order.Field.Basic
import Mathlib.Algebra.Order.Ring.Int
import Mathlib.Data.Rat.Cast.Order
import Mathlib.Tactic.Linarith
import Mathlib.Tactic.Ring

/-!
Integer division rounded half up, over the integers. `halfUp num den` is the
integer nearest to `num / den`, ties going up. The file collects what a caller
needs to reason about the rounding without unfolding it: the interval that
determines the quotient, monotonicity, a strict gap, and the fact that the
rounding of a finer unit is undone by the rounding back.
-/

namespace HalfUp

/-- The integer nearest to `num / den`; a tie goes up. -/
def halfUp (num den : Int) : Int := (2 * num + den) / (2 * den)

/-- The quotient is the only integer whose half-open unit interval holds the
fraction. Every other fact of this file goes through it. -/
theorem halfUp_eq_iff {num den q : Int} (hden : 0 < den) :
    halfUp num den = q ↔
      2 * (q * den) - den ≤ 2 * num ∧ 2 * num < 2 * (q * den) + den := by
  unfold halfUp
  rw [Int.ediv_eq_iff_of_pos (by omega)]
  constructor
  · rintro ⟨hlow, hhigh⟩
    constructor <;> nlinarith
  · rintro ⟨hlow, hhigh⟩
    constructor <;> nlinarith

theorem halfUp_bounds (num : Int) {den : Int} (hden : 0 < den) :
    2 * (halfUp num den * den) - den ≤ 2 * num ∧
      2 * num < 2 * (halfUp num den * den) + den :=
  (halfUp_eq_iff hden).mp rfl

theorem halfUp_mul_self (q : Int) {den : Int} (hden : 0 < den) :
    halfUp (q * den) den = q := by
  rw [halfUp_eq_iff hden]
  constructor <;> omega

@[simp] theorem halfUp_zero {den : Int} (hden : 0 < den) : halfUp 0 den = 0 := by
  rw [halfUp_eq_iff hden]
  constructor <;> omega

theorem halfUp_mono {a b den : Int} (hden : 0 < den) (hab : a ≤ b) :
    halfUp a den ≤ halfUp b den := by
  unfold halfUp
  exact Int.ediv_le_ediv (by omega) (by omega)

theorem halfUp_nonneg {num den : Int} (hden : 0 < den) (hnum : 0 ≤ num) :
    0 ≤ halfUp num den := by
  have h := halfUp_mono hden hnum
  rwa [halfUp_zero hden] at h

/-- Two numerators one whole unit apart never round to the same integer. -/
theorem halfUp_add_one_le {a b den : Int} (hden : 0 < den) (hab : a + den ≤ b) :
    halfUp a den + 1 ≤ halfUp b den := by
  have hstep : halfUp (a + den) den = halfUp a den + 1 := by
    obtain ⟨hlow, hhigh⟩ := halfUp_bounds a hden
    rw [halfUp_eq_iff hden]
    constructor <;> nlinarith
  calc
    halfUp a den + 1 = halfUp (a + den) den := hstep.symm
    _ ≤ halfUp b den := halfUp_mono hden hab

/-- Rounding into a unit that is at least as fine and back is the identity.
When the two units agree the tie is excluded by parity. -/
theorem halfUp_back {a b : Int} (n : Int) (hb : 0 < b) (hba : b ≤ a) :
    halfUp (halfUp (n * a) b * b) a = n := by
  have ha : 0 < a := by omega
  obtain ⟨hlow, hhigh⟩ := halfUp_bounds (n * a) hb
  rw [halfUp_eq_iff ha]
  refine ⟨by omega, ?_⟩
  rcases lt_or_eq_of_le hba with hfiner | hsame
  · omega
  · subst hsame
    rw [halfUp_mul_self n hb]
    omega

/-- The rounding moves a fraction by half a unit at most. -/
theorem abs_halfUp_sub_div_le (num : Int) {den : Int} (hden : 0 < den) :
    |(halfUp num den : ℚ) - num / den| ≤ 1 / 2 := by
  obtain ⟨hlow, hhigh⟩ := halfUp_bounds num hden
  have hpos : (0 : ℚ) < den := by exact_mod_cast hden
  have hbelow : (halfUp num den : ℚ) - 1 / 2 ≤ num / den := by
    rw [le_div_iff₀ hpos]
    have hcast : 2 * ((halfUp num den : ℚ) * den) - den ≤ 2 * num := by exact_mod_cast hlow
    linarith
  have habove : (num : ℚ) / den ≤ (halfUp num den : ℚ) + 1 / 2 := by
    rw [div_le_iff₀ hpos]
    have hcast : 2 * (num : ℚ) < 2 * ((halfUp num den : ℚ) * den) + den := by exact_mod_cast hhigh
    linarith
  rw [abs_le]
  constructor <;> linarith

end HalfUp
