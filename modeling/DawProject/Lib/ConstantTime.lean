import Mathlib.Data.List.Basic
import Mathlib.Data.UInt

/-!
The comparison of two texts that reads the whole of both: the differences of the
bytes, gathered in one byte, are zero when the texts are equal.
-/

namespace ConstantTime

/-- The differences of the bytes, gathered. -/
def differences (a b : List UInt8) : UInt8 :=
  (a.zipWith (fun x y => x ^^^ y) b).foldl (fun diff x => diff ||| x) 0

theorem foldl_or_eq_zero (l : List UInt8) (acc : UInt8) :
    l.foldl (fun diff x => diff ||| x) acc = 0 ↔ acc = 0 ∧ ∀ x ∈ l, x = 0 := by
  induction l generalizing acc with
  | nil => simp
  | cons x l ih =>
      rw [List.foldl_cons, ih, UInt8.or_eq_zero_iff, List.forall_mem_cons, and_assoc]

theorem zipWith_xor_eq_zero {a b : List UInt8} (hlength : a.length = b.length) :
    (∀ x ∈ a.zipWith (fun x y => x ^^^ y) b, x = 0) ↔ a = b := by
  induction a generalizing b with
  | nil =>
      rw [List.length_nil] at hlength
      rw [List.length_eq_zero_iff.mp hlength.symm]
      simp
  | cons x a ih =>
      cases b with
      | nil => cases hlength
      | cons y b =>
          rw [List.zipWith_cons_cons, List.forall_mem_cons, ih (Nat.succ_inj.mp hlength),
            UInt8.xor_eq_zero_iff, List.cons.injEq]

theorem differences_eq_zero {a b : List UInt8} (hlength : a.length = b.length) :
    differences a b = 0 ↔ a = b := by
  rw [differences, foldl_or_eq_zero]
  simpa using zipWith_xor_eq_zero hlength

/-- A comparison of the lengths, then of the bytes, is equality. -/
theorem compare_iff (a b : List UInt8) :
    (if a.length != b.length then false else differences a b == 0) = true ↔ a = b := by
  by_cases hlength : a.length = b.length
  · rw [if_neg (by simp [hlength]), beq_iff_eq, differences_eq_zero hlength]
  · rw [if_pos (by simpa using hlength)]
    refine ⟨fun h => absurd h Bool.false_ne_true, fun h => ?_⟩
    exact absurd (congrArg List.length h) hlength

end ConstantTime
