import Mathlib.Data.Rat.Floor
import DawProject.Lib.Machine

/-!
Two floating-point widths. A program that stores narrow numbers and computes
with wide ones converts between them; widening is exact and the way back
returns the number it came from. An integer becomes the nearest wide number.
The rationals are both widths at once, with the integers rounded as a double
rounds them.
-/

/-- A narrow type `F` of numbers read through a wider type `D`. -/
class Floats (F : Type) (D : outParam Type) where
  /-- The value of a narrow number, exactly. -/
  widen : F → D
  /-- The nearest narrow number. -/
  narrow : D → F
  /-- The nearest wide number to an integer. -/
  ofInt : Int → D
  /-- The integer part of a wide number. -/
  toInt : D → Int
  narrow_widen : ∀ x : F, narrow (widen x) = x
  toInt_ofInt : ∀ x : Int, toInt (ofInt x) = x ↔ Binary64.ofInt x = x

attribute [simp] Floats.narrow_widen

instance : Floats ℚ ℚ where
  widen := id
  narrow := id
  ofInt := fun x => (Binary64.ofInt x : Int)
  toInt := fun q => ⌊q⌋
  narrow_widen := fun _ => rfl
  toInt_ofInt := by
    intro x
    rw [Int.floor_intCast]

/-- The comparisons of the two widths. A comparison with what is no number is
false, so the order is not total. An integer keeps its side of a small one, and
rounding to the narrow type does not carry a number across one. -/
class OrderedFloats (F : Type) (D : outParam Type) [OfNat F 0] [OfNat F 1] extends
    Floats F D where
  lt : F → F → Bool
  wideLe : D → D → Bool
  wideLt : D → D → Bool
  zero_eq : (0 : F) = narrow (ofInt 0)
  one_eq : (1 : F) = narrow (ofInt 1)
  ofInt_le_ofInt : ∀ k x : Int, k.natAbs ≤ 2 → wideLe (ofInt k) (ofInt x) = decide (k ≤ x)
  ofInt_lt_ofInt : ∀ k x : Int, k.natAbs ≤ 2 → wideLt (ofInt k) (ofInt x) = decide (k < x)
  narrow_lt : ∀ (k : Int) (x : D), k.natAbs ≤ 2 → lt (narrow x) (narrow (ofInt k)) = true →
    wideLe (ofInt k) x = false
  lt_narrow : ∀ (k : Int) (x : D), k.natAbs ≤ 2 → lt (narrow (ofInt k)) (narrow x) = true →
    wideLe x (ofInt k) = false

instance : OrderedFloats ℚ ℚ where
  lt := fun x y => decide (x < y)
  wideLe := fun x y => decide (x ≤ y)
  wideLt := fun x y => decide (x < y)
  zero_eq := by decide
  one_eq := by decide
  ofInt_le_ofInt := by
    intro k x hk
    have hsame : Binary64.ofInt k = k := Binary64.ofInt_of_natAbs_lt (by omega)
    rw [decide_eq_decide]
    show ((Binary64.ofInt k : Int) : ℚ) ≤ ((Binary64.ofInt x : Int) : ℚ) ↔ k ≤ x
    rw [hsame, Int.cast_le]
    exact Binary64.le_ofInt_iff (by omega)
  ofInt_lt_ofInt := by
    intro k x hk
    have hsame : Binary64.ofInt k = k := Binary64.ofInt_of_natAbs_lt (by omega)
    rw [decide_eq_decide]
    show ((Binary64.ofInt k : Int) : ℚ) < ((Binary64.ofInt x : Int) : ℚ) ↔ k < x
    rw [hsame, Int.cast_lt]
    exact Binary64.le_ofInt_iff (k := k + 1) (by omega)
  narrow_lt := by
    intro k x _ hlt
    exact decide_eq_false (not_le.mpr (of_decide_eq_true hlt))
  lt_narrow := by
    intro k x _ hlt
    exact decide_eq_false (not_le.mpr (of_decide_eq_true hlt))
