import Mathlib.Data.List.TakeWhile
import Mathlib.Data.List.Chain

/-!
Linear search in a sorted table. A loop `while (j + 1 < size && p(table[j + 1]))
++j` stops at the last entry of the run of leading entries that satisfy `p`;
the first entry is always part of the run. `lastOfRun` names that entry, so a
caller reasons about the entry and never about the index.
-/

namespace LeadingRun

variable {α β : Type*}

/-- The entry at which the search stops, starting from `x`. -/
def lastOfRun (p : α → Bool) : α → List α → α
  | x, [] => x
  | x, y :: ys => if p y then lastOfRun p y ys else x

/-- The index the loop reaches. -/
def runIndex (p : α → Bool) (table : List α) : Nat :=
  (table.tail.takeWhile p).length

@[simp] theorem lastOfRun_nil (p : α → Bool) (x : α) : lastOfRun p x [] = x := rfl

theorem lastOfRun_cons (p : α → Bool) (x y : α) (ys : List α) :
    lastOfRun p x (y :: ys) = if p y then lastOfRun p y ys else x := rfl

theorem getElem?_runIndex (p : α → Bool) (x : α) (xs : List α) :
    (x :: xs)[runIndex p (x :: xs)]? = some (lastOfRun p x xs) := by
  induction xs generalizing x with
  | nil => rfl
  | cons y ys ih =>
      simp only [runIndex, List.tail_cons, List.takeWhile_cons, lastOfRun_cons]
      cases hy : p y with
      | false => rfl
      | true =>
          simpa [runIndex] using ih y

/-- Searching a column of the table stops at the same row as searching the
table by that column. -/
theorem runIndex_map (f : α → β) (p : β → Bool) (table : List α) :
    runIndex p (table.map f) = runIndex (fun a => p (f a)) table := by
  unfold runIndex
  rw [← List.map_tail, List.takeWhile_map, List.length_map]
  rfl

/-- What the first entry satisfies and the predicate implies holds of the
entry found. -/
theorem lastOfRun_of (p : α → Bool) {Q : α → Prop} (hp : ∀ y, p y = true → Q y)
    (x : α) (xs : List α) (hx : Q x) : Q (lastOfRun p x xs) := by
  induction xs generalizing x with
  | nil => exact hx
  | cons y ys ih =>
      rw [lastOfRun_cons]
      cases hy : p y with
      | false => exact hx
      | true => exact ih y (hp y hy)

end LeadingRun
