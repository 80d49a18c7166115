import Mathlib.Data.List.Basic
import Mathlib.Order.Nat

/-!
A line of slots that is written round and round. A slot is named by how many
writes ago it was written last. As long as this is at most the number of slots,
the line gives what a memory without an end would give: the value of that write,
or the first content of the slots if there were not so many writes.
-/

namespace DelayLine

variable {α : Type*} {n w d : ℕ}

/-- The slot that was written `d` writes ago, when `w` is the next one. -/
def back (n w d : ℕ) : ℕ := (w + n - d) % n

theorem back_of_le (hw : w < n) (hd : d ≤ w) (hpos : 0 < d) : back n w d = w - d := by
  have hsum : w + n - d = w - d + n := by omega
  rw [back, hsum, Nat.add_mod_right]
  exact Nat.mod_eq_of_lt (by omega)

theorem back_of_lt (hw : w < d) (hd : d ≤ n) : back n w d = w + n - d :=
  Nat.mod_eq_of_lt (by omega)

theorem back_lt (hn : 0 < n) : back n w d < n := Nat.mod_lt _ hn

theorem next_of_lt (hw : w + 1 < n) : (w + 1) % n = w + 1 := Nat.mod_eq_of_lt hw

theorem next_of_eq (hw : w + 1 = n) : (w + 1) % n = 0 := by rw [hw, Nat.mod_self]

theorem back_zero (hw : w < n) : back n w 0 = w := by
  rw [back, Nat.sub_zero, Nat.add_mod_right]
  exact Nat.mod_eq_of_lt hw

/-- A slot is one write further back after a write. -/
theorem back_next (hw : w < n) (hd : d < n) : back n ((w + 1) % n) (d + 1) = back n w d := by
  rcases Nat.lt_or_ge (w + 1) n with hlt | hge
  · rw [next_of_lt hlt]
    rcases Nat.eq_zero_or_pos d with rfl | hpos
    · rw [back_zero hw, back_of_le hlt (by omega) Nat.one_pos]
      omega
    · rcases Nat.lt_or_ge w d with hback | hback
      · rw [back_of_lt hback hd.le, back_of_lt (by omega) hd]
        omega
      · rw [back_of_le hw hback hpos, back_of_le hlt (by omega) (by omega)]
        omega
  · have hend : w + 1 = n := by omega
    rw [next_of_eq hend, back_of_lt (by omega) hd]
    rcases Nat.eq_zero_or_pos d with rfl | hpos
    · rw [back_zero hw]
      omega
    · rw [back_of_le hw (by omega) hpos]
      omega

/-- Going down by one slot at a time. -/
theorem back_succ (hw : w < n) (hpos : 0 < d) (hd : d < n) :
    (back n w d + n - 1) % n = back n w (d + 1) := by
  rcases Nat.lt_trichotomy w d with hlt | heq | hgt
  · rw [back_of_lt hlt hd.le, back_of_lt (by omega) hd]
    have hsum : w + n - d + n - 1 = w + n - (d + 1) + n := by omega
    rw [hsum, Nat.add_mod_right]
    exact Nat.mod_eq_of_lt (by omega)
  · rw [back_of_le hw heq.ge hpos, back_of_lt (by omega) hd, heq, Nat.sub_self]
    have hsum : 0 + n - 1 = d + n - (d + 1) := by omega
    rw [hsum]
    exact Nat.mod_eq_of_lt (by omega)
  · rw [back_of_le hw hgt.le hpos, back_of_le hw hgt (Nat.succ_pos d)]
    have hsum : w - d + n - 1 = w - (d + 1) + n := by omega
    rw [hsum, Nat.add_mod_right]
    exact Nat.mod_eq_of_lt (by omega)

/-- The slots hold the last values of the past, newest first, and `z` where
there was none. -/
structure Recalls (z : α) (slots : List α) (w : ℕ) (past : List α) : Prop where
  bound : w < slots.length
  recalls : ∀ d, 0 < d → d ≤ slots.length →
    slots.getD (back slots.length w d) z = past.getD (d - 1) z

variable {z x : α} {slots past : List α}

/-- At first every slot has the same content. -/
theorem recalls_replicate (hn : 0 < n) : Recalls z (List.replicate n z) 0 [] where
  bound := by rwa [List.length_replicate]
  recalls := by
    intro d _ _
    rw [List.getD_nil, List.getD_eq_getElem?_getD, List.getElem?_replicate, List.length_replicate,
      if_pos (back_lt hn)]
    rfl

/-- What is written is remembered before the rest. -/
theorem Recalls.push (h : Recalls z slots w past) :
    Recalls z (slots.set w x) ((w + 1) % slots.length) (x :: past) where
  bound := by
    rw [List.length_set]
    exact Nat.mod_lt _ (Nat.zero_lt_of_lt h.bound)
  recalls := by
    rw [List.length_set]
    intro d hpos hd
    cases d with
    | zero => exact absurd hpos (Nat.lt_irrefl 0)
    | succ d =>
        rcases Nat.eq_zero_or_pos d with rfl | hrest
        · rw [back_next h.bound (by omega), back_zero h.bound, List.getD_eq_getElem?_getD, List.getElem?_set_self h.bound]
          rfl
        · rw [back_next h.bound hd]
          -- The slot that is written held what is now forgotten.
          have hother : w ≠ back slots.length w d := by
            rcases Nat.lt_or_ge w d with hlt | hge
            · rw [back_of_lt hlt (by omega)]
              omega
            · rw [back_of_le h.bound hge hrest]
              omega
          rw [List.getD_eq_getElem?_getD, List.getElem?_set_ne hother,
            ← List.getD_eq_getElem?_getD, h.recalls d hrest (by omega)]
          obtain ⟨k, rfl⟩ := Nat.exists_eq_succ_of_ne_zero hrest.ne'
          rfl

/-- The slots before the next one, as far back as the past is remembered. -/
theorem Recalls.getD_back (h : Recalls z slots w past) (hd : d < slots.length) :
    slots.getD (back slots.length w (d + 1)) z = past.getD d z :=
  h.recalls (d + 1) (Nat.succ_pos d) hd

/-- A distance of nothing is a whole round. -/
theorem back_round (hw : w < n) : back n w 0 = back n w n := by
  rw [back_zero hw, back, Nat.add_sub_cancel]
  exact (Nat.mod_eq_of_lt hw).symm

end DelayLine
