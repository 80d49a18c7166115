import Mathlib.Data.List.Basic
import Mathlib.Data.List.Sublists

/-!
Lists in which an item may be repeated, directly after itself. What stutters
has every item, in the order of the list, and an item only after those before
it.
-/

namespace Stutter

variable {α : Type*}

/-- `s` is `l`, with some items said again. -/
inductive Stutters : List α → List α → Prop
  | nil : Stutters [] []
  | next {s l : List α} (a : α) : Stutters s l → Stutters (s ++ [a]) (l ++ [a])
  | again {s l : List α} {a : α} : Stutters s (l ++ [a]) → Stutters (s ++ [a]) (l ++ [a])

variable {s l : List α}

theorem Stutters.mem_iff (h : Stutters s l) (c : α) : c ∈ s ↔ c ∈ l := by
  induction h with
  | nil => exact Iff.rfl
  | next a _ ih => simp [ih]
  | again _ ih =>
      rw [List.mem_append, ih]
      simp

theorem Stutters.sublist (h : Stutters s l) : l.Sublist s := by
  induction h with
  | nil => exact List.Sublist.refl []
  | next a _ ih => exact ih.append (List.Sublist.refl [a])
  | again _ ih => exact ih.trans (List.sublist_append_left _ _)

/-- The last item is said again. -/
theorem Stutters.getLast (h : Stutters s l) : Stutters (s ++ l.getLast?.toList) l := by
  rcases List.eq_nil_or_concat l with rfl | ⟨l, a, rfl⟩
  · rw [List.getLast?_nil, Option.toList_none, List.append_nil]
    exact h
  · rw [List.concat_eq_append] at h ⊢
    rw [List.getLast?_concat, Option.toList_some]
    exact h.again

/-- An item is said after those before it. -/
theorem Stutters.before (h : Stutters s l) {pre rest : List α} {c : α}
    (hs : s = pre ++ c :: rest) :
    ∃ before after, l = before ++ c :: after ∧ ∀ d ∈ before, d ∈ pre := by
  induction h generalizing rest with
  | nil => cases pre <;> cases hs
  | @next s l a hstutters ih =>
      rcases List.eq_nil_or_concat rest with rfl | ⟨rest, b, rfl⟩
      · obtain ⟨rfl, hc⟩ := List.append_inj' hs rfl
        obtain rfl := List.singleton_inj.mp hc
        exact ⟨l, [], rfl, fun d hd => (hstutters.mem_iff d).mpr hd⟩
      · rw [List.concat_eq_append, ← List.cons_append, ← List.append_assoc] at hs
        obtain ⟨hs, -⟩ := List.append_inj' hs rfl
        obtain ⟨before, after, rfl, hbefore⟩ := ih hs
        exact ⟨before, after ++ [a], by simp, hbefore⟩
  | @again s l a hstutters ih =>
      rcases List.eq_nil_or_concat rest with rfl | ⟨rest, b, rfl⟩
      · obtain ⟨rfl, hc⟩ := List.append_inj' hs rfl
        obtain rfl := List.singleton_inj.mp hc
        exact ⟨l, [], rfl, fun d hd => (hstutters.mem_iff d).mpr (List.mem_append_left _ hd)⟩
      · rw [List.concat_eq_append, ← List.cons_append, ← List.append_assoc] at hs
        obtain ⟨hs, -⟩ := List.append_inj' hs rfl
        exact ih hs

end Stutter
