import Mathlib.Data.ENat.Basic
import Mathlib.Data.List.Basic

/-!
Attempts with growing pauses. A log has the attempts at one thing, the newest
first; after a failure the next attempt waits, the longer the more failures there
were in a row, and after a refusal there is no other. A log of attempts that wait
so has few failures in any length of time.
-/

namespace Backoff

inductive Outcome where
  | failed
  | refused
  | done
deriving DecidableEq, Repr

structure Attempt where
  asked : ℕ
  ended : ℕ
  outcome : Outcome
deriving DecidableEq, Repr

/-- The failures since the last success. -/
def streak : List Attempt → ℕ
  | [] => 0
  | a :: log => if a.outcome = .done then 0 else streak log + 1

-- The pause after the last of some failures.
variable (delay : ℕ → ℕ)

/-- When the next attempt may begin. -/
def due : List Attempt → ℕ∞
  | [] => 0
  | a :: log =>
      match a.outcome with
      | .done => 0
      | .refused => ⊤
      | .failed => ↑(a.ended + delay (streak log + 1))

/-- One attempt ends before the next, and each waits until it is due. -/
def Spaced : List Attempt → Prop
  | [] => True
  | a :: log =>
      due delay log ≤ a.asked ∧ a.asked ≤ a.ended ∧ (∀ b ∈ log.head?, b.ended ≤ a.asked) ∧
        Spaced log

variable {delay} {a : Attempt} {log before after failures : List Attempt}

theorem Spaced.of_append (h : Spaced delay (after ++ log)) : Spaced delay log := by
  induction after with
  | nil => exact h
  | cons a after ih => exact ih h.2.2.2

theorem due_of_failed (ha : a.outcome = .failed) :
    due delay (a :: log) = ↑(a.ended + delay (streak log + 1)) := by
  simp only [due, ha]

theorem due_of_refused (ha : a.outcome = .refused) : due delay (a :: log) = ⊤ := by
  simp only [due, ha]

theorem streak_of_failed (ha : a.outcome = .failed) : streak (a :: log) = streak log + 1 := by
  rw [streak, if_neg (by rw [ha]; exact Outcome.noConfusion)]

theorem Spaced.nothing_after (h : Spaced delay (after ++ a :: before))
    (hrefused : a.outcome = .refused) : after = [] := by
  rcases List.eq_nil_or_concat after with rfl | ⟨after, b, rfl⟩
  · rfl
  · rw [List.concat_eq_append, List.append_assoc] at h
    have hdue : due delay (a :: before) ≤ b.asked := h.of_append.1
    rw [due_of_refused hrefused, top_le_iff] at hdue
    exact absurd hdue (ENat.natCast_ne_top _)

theorem length_le_streak (hfailed : ∀ a ∈ failures, a.outcome = .failed) :
    failures.length ≤ streak (failures ++ before) := by
  induction failures with
  | nil => exact Nat.zero_le _
  | cons a failures ih =>
      rw [List.cons_append, streak_of_failed (hfailed a List.mem_cons_self), List.length_cons]
      exact Nat.succ_le_succ (ih fun b hb => hfailed b (List.mem_cons_of_mem a hb))

/-- Where all pauses but the first few are long, failures in a row take their time. -/
theorem Spaced.length_le {c d : ℕ} (hlong : ∀ k, c < k → d ≤ delay k) {first last : Attempt}
    (h : Spaced delay (failures ++ before)) (hfailed : ∀ a ∈ failures, a.outcome = .failed)
    (hfirst : failures.getLast? = some first) (hlast : failures.head? = some last) :
    first.asked ≤ last.asked ∧
      d * failures.length + first.asked ≤ last.asked + d * (c + 1) := by
  induction failures generalizing last with
  | nil => cases hlast
  | cons a failures ih =>
      obtain rfl := Option.some.inj hlast
      cases failures with
      | nil =>
          obtain rfl := Option.some.inj hfirst
          refine ⟨Nat.le_refl _, ?_⟩
          rw [List.length_singleton, Nat.mul_one, Nat.mul_succ]
          show d + a.asked ≤ a.asked + (d * c + d)
          omega
      | cons b failures =>
          obtain ⟨hdue, -, hends, hrest⟩ := h
          have hb : b.outcome = .failed := hfailed b (List.mem_cons_of_mem a List.mem_cons_self)
          have hfailures : ∀ x ∈ b :: failures, x.outcome = .failed :=
            fun x hx => hfailed x (List.mem_cons_of_mem a hx)
          rw [List.getLast?_cons_cons] at hfirst
          obtain ⟨hasked, hle⟩ := ih hrest hfailures hfirst rfl
          have hends : b.ended ≤ a.asked := hends b rfl
          have hbegan : b.asked ≤ b.ended := hrest.2.1
          refine ⟨by omega, ?_⟩
          rw [List.length_cons, Nat.mul_succ]
          by_cases hshort : (b :: failures).length ≤ c
          · -- the pauses are short, but there are few
            have hfew : d * (b :: failures).length ≤ d * c := Nat.mul_le_mul_left d hshort
            rw [Nat.mul_succ]
            omega
          · have hstreak : (b :: failures).length ≤ streak (b :: failures ++ before) :=
              length_le_streak hfailures
            rw [List.cons_append, streak_of_failed hb] at hstreak
            have hpause := hlong (streak (failures ++ before) + 1) (by omega)
            have hdue : due delay (b :: (failures ++ before)) ≤ a.asked := hdue
            rw [due_of_failed hb] at hdue
            have hdue := Nat.cast_le.mp hdue
            omega

end Backoff
