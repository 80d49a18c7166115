import Mathlib.Algebra.Order.Ring.Int
import Mathlib.Tactic.Linarith
import Mathlib.Tactic.NormNum

/-!
Two machine readings of the integers. A `Range` is a signed machine type: an
operation whose exact result leaves the range has no defined value, which is
how a signed overflow is read. `Binary64.ofInt` is the integer that a 64-bit
floating-point number holds after rounding an exact integer to nearest, ties
to even.
-/

namespace Machine

/-- The values a signed machine integer can hold. -/
structure Range where
  lo : Int
  hi : Int

/-- The exact result, when the machine type can hold it. -/
def Range.fit (r : Range) (x : Int) : Option Int :=
  if r.lo ≤ x ∧ x ≤ r.hi then some x else none

/-- Division truncates toward zero and is undefined for a zero divisor. -/
def Range.div (r : Range) (a b : Int) : Option Int :=
  if b = 0 then none else r.fit (a.tdiv b)

def int64 : Range := ⟨-9223372036854775808, 9223372036854775807⟩

theorem Range.fit_eq_some_iff {r : Range} {x y : Int} :
    r.fit x = some y ↔ x = y ∧ r.lo ≤ x ∧ x ≤ r.hi := by
  unfold Range.fit
  split
  · rename_i hmem
    simp [hmem]
  · rename_i hout
    simp only [reduceCtorEq, false_iff, not_and]
    intro _ hlo hhi
    exact hout ⟨hlo, hhi⟩

theorem Range.fit_of_mem {r : Range} {x : Int} (hlo : r.lo ≤ x) (hhi : x ≤ r.hi) :
    r.fit x = some x :=
  Range.fit_eq_some_iff.mpr ⟨rfl, hlo, hhi⟩

@[simp] theorem int64_lo : int64.lo = -9223372036854775808 := rfl

@[simp] theorem int64_hi : int64.hi = 9223372036854775807 := rfl

end Machine

namespace Binary64

/-- The double nearest to an integer, ties to even. Integers of magnitude up
to `2 ^ 53` are doubles and come back unchanged. -/
def ofInt (x : Int) : Int :=
  let n := x.natAbs
  let ulp := 2 ^ (n.log2 - 52)
  let q := n / ulp
  let r := n % ulp
  let q' := if ulp < 2 * r ∨ (2 * r = ulp ∧ q % 2 = 1) then q + 1 else q
  x.sign * (q' * ulp : Nat)

theorem ofInt_of_natAbs_lt {x : Int} (hx : x.natAbs < 2 ^ 53) : ofInt x = x := by
  have hlog : x.natAbs.log2 - 52 = 0 := by
    rcases Nat.eq_zero_or_pos x.natAbs with hzero | hpos
    · simp [hzero]
    · have : x.natAbs.log2 < 53 := (Nat.log2_lt (by omega)).mpr hx
      omega
  simp only [ofInt, hlog, pow_zero, Nat.div_one, Nat.mod_one]
  simp [Int.sign_mul_abs]

/-- Beyond `2 ^ 53` rounding never brings a positive integer back below it. -/
theorem le_ofInt_of_le {x : Int} (hx : 2 ^ 53 ≤ x) : 2 ^ 53 ≤ ofInt x := by
  have hsign : x.sign = 1 := Int.sign_eq_one_of_pos (by omega)
  have hne : x.natAbs ≠ 0 := by omega
  have hbig : 53 ≤ x.natAbs.log2 := (Nat.le_log2 hne).mpr (by omega)
  have hself : 2 ^ x.natAbs.log2 ≤ x.natAbs := Nat.log2_self_le hne
  have hsplit : 2 ^ x.natAbs.log2 = 2 ^ 52 * 2 ^ (x.natAbs.log2 - 52) := by
    rw [← pow_add]
    congr 1
    omega
  have hquot : 2 ^ 52 ≤ x.natAbs / 2 ^ (x.natAbs.log2 - 52) := by
    rw [Nat.le_div_iff_mul_le (by positivity)]
    omega
  have hpow : 2 ^ 53 ≤ 2 ^ 52 * 2 ^ (x.natAbs.log2 - 52) := by
    rw [← hsplit]
    exact Nat.pow_le_pow_right (by norm_num) hbig
  simp only [ofInt, hsign, one_mul]
  have hround : ∀ q : Nat, 2 ^ 52 ≤ q →
      (2 ^ 53 : Int) ≤ ((q * 2 ^ (x.natAbs.log2 - 52) : Nat) : Int) := by
    intro q hq
    have hmul := Nat.mul_le_mul_right (2 ^ (x.natAbs.log2 - 52)) hq
    have hnat : 2 ^ 53 ≤ q * 2 ^ (x.natAbs.log2 - 52) := by omega
    exact_mod_cast hnat
  apply hround
  split <;> omega

/-- Rounding keeps a negative integer negative. -/
theorem ofInt_neg {x : Int} (hx : x < 0) : ofInt x < 0 := by
  have hulp : 0 < 2 ^ (x.natAbs.log2 - 52) := by positivity
  have hself : 2 ^ x.natAbs.log2 ≤ x.natAbs := Nat.log2_self_le (by omega)
  have hle : 2 ^ (x.natAbs.log2 - 52) ≤ x.natAbs :=
    (Nat.pow_le_pow_right (by norm_num) (by omega)).trans hself
  have hquot : 0 < x.natAbs / 2 ^ (x.natAbs.log2 - 52) := Nat.div_pos hle hulp
  have hround : ∀ q : Nat, 0 < q →
      (-1 : Int) * ((q * 2 ^ (x.natAbs.log2 - 52) : Nat) : Int) < 0 := by
    intro q hq
    have hprod : 0 < q * 2 ^ (x.natAbs.log2 - 52) := Nat.mul_pos hq hulp
    omega
  simp only [ofInt, Int.sign_eq_neg_one_of_neg hx]
  apply hround
  split <;> omega

/-- Rounding a nonnegative integer never moves it below an integer that a
double holds exactly. -/
theorem min_le_ofInt {x bound : Int} (hx : 0 ≤ x) (hbound : bound ≤ 2 ^ 53)
    (hle : bound ≤ x) : bound ≤ ofInt x := by
  rcases lt_or_ge x (2 ^ 53) with hsmall | hlarge
  · rw [ofInt_of_natAbs_lt (by omega)]
    exact hle
  · exact hbound.trans (le_ofInt_of_le hlarge)

theorem ofInt_negate (x : Int) : ofInt (-x) = -ofInt x := by
  simp only [ofInt, Int.natAbs_neg, Int.sign_neg, Int.neg_mul]

/-- Rounding keeps an integer on its side of a small one. -/
theorem le_ofInt_iff {k x : Int} (hk : k.natAbs < 2 ^ 53) : k ≤ ofInt x ↔ k ≤ x := by
  rcases lt_or_ge x.natAbs (2 ^ 53) with hsmall | hlarge
  · rw [ofInt_of_natAbs_lt hsmall]
  · rcases le_or_gt 0 x with hpos | hneg
    · have hround : 2 ^ 53 ≤ ofInt x := le_ofInt_of_le (by omega)
      omega
    · have hround : 2 ^ 53 ≤ ofInt (-x) := le_ofInt_of_le (by omega)
      rw [ofInt_negate] at hround
      omega

end Binary64
