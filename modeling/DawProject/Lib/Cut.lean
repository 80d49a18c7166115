import Mathlib.Algebra.GroupWithZero.Nat
import Mathlib.Data.List.Basic
import Mathlib.Tactic.Common

/-!
A stretch of positions cut into consecutive blocks. Each block yields items for
itself alone, from its position and its length. Counting the items of a whole
cut comes down to counting those of one block.
-/

namespace Cut

variable {α β : Type*}

/-- A property of each block of the cut, at its position. -/
def Every (P : Int → Nat → Prop) : Int → List Nat → Prop
  | _, [] => True
  | pos, frames :: rest => P pos frames ∧ Every P (pos + frames) rest

instance Every.decidable {P : Int → Nat → Prop} [∀ pos frames, Decidable (P pos frames)] :
    ∀ (pos : Int) (blocks : List Nat), Decidable (Every P pos blocks)
  | _, [] => isTrue trivial
  | pos, frames :: rest =>
      have := Every.decidable (P := P) (pos + frames) rest
      inferInstanceAs (Decidable (_ ∧ _))

/-- The items of the blocks, one block after the other. -/
def items (emit : Int → Nat → List α) : Int → List Nat → List α
  | _, [] => []
  | pos, frames :: rest => emit pos frames ++ items emit (pos + frames) rest

variable {P Q : Int → Nat → Prop} {pos : Int} {blocks : List Nat}

theorem Every.of_forall (h : ∀ pos, ∀ frames ∈ blocks, P pos frames) : Every P pos blocks := by
  induction blocks generalizing pos with
  | nil => trivial
  | cons frames rest ih =>
      exact ⟨h pos frames List.mem_cons_self,
        ih fun pos frames hmem => h pos frames (List.mem_cons_of_mem _ hmem)⟩

theorem Every.imp (himp : ∀ pos, ∀ frames ∈ blocks, P pos frames → Q pos frames)
    (h : Every P pos blocks) : Every Q pos blocks := by
  induction blocks generalizing pos with
  | nil => trivial
  | cons frames rest ih =>
      exact ⟨himp pos frames List.mem_cons_self h.1,
        ih (fun pos frames hmem => himp pos frames (List.mem_cons_of_mem _ hmem)) h.2⟩

theorem Every.and (h : Every P pos blocks) (h' : Every Q pos blocks) :
    Every (fun pos frames => P pos frames ∧ Q pos frames) pos blocks := by
  induction blocks generalizing pos with
  | nil => trivial
  | cons frames rest ih => exact ⟨⟨h.1, h'.1⟩, ih h.2 h'.2⟩

theorem every_congr (hiff : ∀ pos frames, P pos frames ↔ Q pos frames) :
    Every P pos blocks ↔ Every Q pos blocks := by
  constructor
  · exact Every.imp fun pos frames _ => (hiff pos frames).mp
  · exact Every.imp fun pos frames _ => (hiff pos frames).mpr

/-- A count that each block gives in full for the positions inside it, and not
at all elsewhere, is given once for the positions of the cut. -/
theorem countP_items {emit : Int → Nat → List α} {p : α → Bool} {at_ : Int} {count : Nat}
    (hblock : Every (fun pos frames => (emit pos frames).countP p =
      if pos ≤ at_ ∧ at_ < pos + frames then count else 0) pos blocks) :
    (items emit pos blocks).countP p =
      if pos ≤ at_ ∧ at_ < pos + blocks.sum then count else 0 := by
  induction blocks generalizing pos with
  | nil =>
      have hnone : ¬(pos ≤ at_ ∧ at_ < pos + ([] : List Nat).sum) := by simp
      rw [if_neg hnone]
      rfl
  | cons frames rest ih =>
      rw [items, List.countP_append, hblock.1, ih hblock.2, List.sum_cons]
      by_cases hhere : pos ≤ at_ ∧ at_ < pos + frames
      · rw [if_pos hhere, if_neg (by omega), if_pos (by omega), Nat.add_zero]
      · rw [if_neg hhere, Nat.zero_add]
        by_cases hlater : pos + frames ≤ at_ ∧ at_ < pos + frames + rest.sum
        · rw [if_pos hlater, if_pos (by omega)]
        · rw [if_neg hlater, if_neg (by omega)]

/-- Each element gives one item that counts, or none. -/
theorem countP_flatMap_indicator {f : α → List β} {p : β → Bool} {q : α → Bool} {l : List α}
    (hone : ∀ a ∈ l, (f a).countP p = if q a then 1 else 0) :
    (l.flatMap f).countP p = l.countP q := by
  induction l with
  | nil => rfl
  | cons a l ih =>
      rw [List.flatMap_cons, List.countP_append, List.countP_cons, hone a List.mem_cons_self,
        ih fun b hb => hone b (List.mem_cons_of_mem a hb), Nat.add_comm]

end Cut
