import Mathlib.Data.List.Basic

/-!
A list taken block by block. What has been compressed after a number of items is
a function of these items, however they arrived; the items that do not fill a
block are left over.
-/

namespace Blocks

-- The length of a block, and what a block does to the state.
variable {β σ : Type*} (n : ℕ) (compress : σ → List β → σ)

def block (i : ℕ) (l : List β) : List β := (l.drop (n * i)).take n

/-- The state after the complete blocks. -/
def absorb (s : σ) (l : List β) : σ :=
  (List.range (l.length / n)).foldl (fun s i => compress s (block n i l)) s

def leftOver (l : List β) : List β := l.drop (n * (l.length / n))

variable {n} {l chunk : List β} {compress} {s : σ}

@[simp] theorem absorb_nil : absorb n compress s [] = s := by
  simp [absorb]

@[simp] theorem leftOver_nil : leftOver n ([] : List β) = [] := List.drop_nil

@[simp] theorem length_leftOver : (leftOver n l).length = l.length % n := by
  rw [leftOver, List.length_drop, Nat.mod_eq_sub_mul_div]

theorem mul_div_le_length : n * (l.length / n) ≤ l.length := Nat.mul_div_le _ _

theorem block_append {i : ℕ} (hi : i < l.length / n) : block n i (l ++ chunk) = block n i l := by
  have hend : n * i + n ≤ l.length :=
    calc n * i + n = n * (i + 1) := (Nat.mul_succ n i).symm
      _ ≤ n * (l.length / n) := Nat.mul_le_mul_left n hi
      _ ≤ l.length := mul_div_le_length
  rw [block, block, List.drop_append_of_le_length (by omega), List.take_append_of_le_length]
  rw [List.length_drop]
  omega

/-- The blocks that were complete stay as they are. -/
theorem foldl_block_append :
    (List.range (l.length / n)).foldl (fun s i => compress s (block n i (l ++ chunk))) s =
      absorb n compress s l := by
  apply List.foldl_ext
  intro s i hi
  rw [block_append (List.mem_range.mp hi)]

section Wait

variable (hlt : l.length % n + chunk.length < n)

include hlt

theorem length_div_of_lt : (l ++ chunk).length / n = l.length / n := by
  have hlength : (l ++ chunk).length = n * (l.length / n) + (l.length % n + chunk.length) := by
    have hdecomp := Nat.div_add_mod l.length n
    rw [List.length_append]
    omega
  rw [hlength, Nat.mul_add_div (by omega), Nat.div_eq_of_lt hlt, Nat.add_zero]

/-- Items that do not complete a block wait. -/
theorem absorb_append_of_lt : absorb n compress s (l ++ chunk) = absorb n compress s l := by
  rw [absorb, length_div_of_lt hlt, foldl_block_append]

theorem leftOver_append_of_lt : leftOver n (l ++ chunk) = leftOver n l ++ chunk := by
  rw [leftOver, length_div_of_lt hlt, List.drop_append_of_le_length mul_div_le_length, leftOver]

end Wait

section Complete

variable (heq : l.length % n + chunk.length = n) (hpos : 0 < n)

include heq hpos

theorem length_div_of_eq : (l ++ chunk).length / n = l.length / n + 1 := by
  have hlength : (l ++ chunk).length = n * (l.length / n + 1) := by
    rw [List.length_append, Nat.mul_add, Nat.mul_one]
    have hdecomp := Nat.div_add_mod l.length n
    omega
  rw [hlength, Nat.mul_div_cancel_left _ hpos]

/-- Items that complete a block are compressed with those that waited. -/
theorem absorb_append_of_eq :
    absorb n compress s (l ++ chunk) =
      compress (absorb n compress s l) (leftOver n l ++ chunk) := by
  have hfull : (leftOver n l ++ chunk).length = n := by
    rw [List.length_append, length_leftOver, heq]
  have hlast : block n (l.length / n) (l ++ chunk) = leftOver n l ++ chunk := by
    rw [block, List.drop_append_of_le_length mul_div_le_length]
    exact List.take_of_length_le (Nat.le_of_eq hfull)
  rw [absorb, length_div_of_eq heq hpos, List.range_succ, List.foldl_append, foldl_block_append,
    List.foldl_cons, hlast, List.foldl_nil]

theorem leftOver_append_of_eq : leftOver n (l ++ chunk) = [] := by
  apply List.eq_nil_of_length_eq_zero
  have hdecomp := Nat.div_add_mod l.length n
  have hsucc : n * (l.length / n + 1) = n * (l.length / n) + n := Nat.mul_succ _ _
  rw [leftOver, length_div_of_eq heq hpos, List.length_drop, List.length_append]
  omega

end Complete

/-- The blocks of a list that is put together from them. -/
theorem block_flatten_append {blocks : List (List β)} {rest b : List β} {i : ℕ}
    (hlength : ∀ b ∈ blocks, b.length = n) (hget : blocks[i]? = some b) :
    block n i (blocks.flatten ++ rest) = b := by
  induction blocks generalizing i with
  | nil => cases hget
  | cons first blocks ih =>
      have hfirst : first.length = n := hlength first List.mem_cons_self
      rw [List.flatten_cons, List.append_assoc]
      cases i with
      | zero =>
          rw [List.getElem?_cons_zero] at hget
          rw [block, Nat.mul_zero, List.drop_zero, ← hfirst, List.take_left]
          exact Option.some.inj hget
      | succ i =>
          rw [List.getElem?_cons_succ] at hget
          have hrest := ih (fun b hb => hlength b (List.mem_cons_of_mem first hb)) hget
          rw [block, Nat.mul_succ, Nat.add_comm, ← List.drop_drop, ← hfirst, List.drop_left, hfirst]
          exact hrest

theorem length_flatten_append_div {blocks : List (List β)} {rest : List β}
    (hlength : ∀ b ∈ blocks, b.length = n) (hrest : rest.length < n) :
    (blocks.flatten ++ rest).length / n = blocks.length := by
  have hflatten : blocks.flatten.length = n * blocks.length := by
    rw [List.length_flatten, List.map_eq_replicate_iff.mpr hlength, List.sum_replicate_nat,
      Nat.mul_comm]
  rw [List.length_append, hflatten, Nat.mul_add_div (by omega), Nat.div_eq_of_lt hrest,
    Nat.add_zero]

/-- The blocks of a list are a piece from its start. -/
theorem flatten_map_block (k : ℕ) (l : List β) :
    ((List.range k).map fun i => block n i l).flatten = l.take (n * k) := by
  induction k with
  | zero => rw [Nat.mul_zero, List.take_zero, List.range_zero, List.map_nil, List.flatten_nil]
  | succ k ih =>
      rw [List.range_succ, List.map_append, List.flatten_append, ih, Nat.mul_succ, List.take_add]
      simp [block]

end Blocks
