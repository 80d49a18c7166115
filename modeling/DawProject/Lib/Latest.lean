import Mathlib.Data.List.Basic
import Mathlib.Order.Basic
import Mathlib.Order.Lattice

/-!
Last writer wins. A replica keeps one value and takes every value it is offered
whose key is not below that of the one it keeps. What it keeps is then a value
of greatest key among those it has seen, in whatever order they came.
-/

namespace Latest

variable {α K : Type*} [LinearOrder K] (key : α → K)

/-- The value a replica keeps after an offer. -/
def offer (last : Option α) (a : α) : Option α :=
  match last with
  | none => some a
  | some b => if key a < key b then some b else some a

/-- The kept value has the greatest key of the values seen. -/
def IsLatest (seen : List α) : Option α → Prop
  | none => seen = []
  | some a => a ∈ seen ∧ ∀ b ∈ seen, key b ≤ key a

variable {key} {seen : List α} {last : Option α} {a : α}

theorem IsLatest.offer (hlast : IsLatest key seen last) (a : α) :
    IsLatest key (a :: seen) (offer key last a) := by
  cases last with
  | none =>
      obtain rfl : seen = [] := hlast
      refine ⟨List.mem_cons_self, ?_⟩
      intro b hb
      rw [List.mem_singleton.mp hb]
  | some kept =>
      obtain ⟨hmem, hmax⟩ := hlast
      simp only [Latest.offer]
      split
      · rename_i hlower
        refine ⟨List.mem_cons_of_mem a hmem, ?_⟩
        intro b hb
        rcases List.mem_cons.mp hb with rfl | hb
        · exact hlower.le
        · exact hmax b hb
      · rename_i hhigher
        refine ⟨List.mem_cons_self, ?_⟩
        intro b hb
        rcases List.mem_cons.mp hb with rfl | hb
        · exact le_refl _
        · exact (hmax b hb).trans (not_lt.mp hhigher)

/-- A value put without a comparison is the latest when none kept is above. -/
theorem IsLatest.put (hlast : IsLatest key seen last) (hbelow : ∀ b ∈ last, key b ≤ key a) :
    IsLatest key (a :: seen) (some a) := by
  refine ⟨List.mem_cons_self, ?_⟩
  intro b hb
  rcases List.mem_cons.mp hb with rfl | hb
  · exact le_refl _
  · cases last with
    | none =>
        rw [show seen = [] from hlast] at hb
        cases hb
    | some kept => exact (hlast.2 b hb).trans (hbelow kept rfl)

theorem IsLatest.le (hlast : IsLatest key seen last) (ha : a ∈ seen) :
    ∃ kept, last = some kept ∧ kept ∈ seen ∧ key a ≤ key kept := by
  cases last with
  | none =>
      rw [show seen = [] from hlast] at ha
      cases ha
  | some kept => exact ⟨kept, rfl, hlast.1, hlast.2 a ha⟩

/-- One value stands for all that were offered exactly when it, or the value
kept before, is not below any of them. -/
theorem isLatest_elim_iff {offered : List α} {x : Option α} (hx : ∀ a ∈ x, a ∈ offered) :
    IsLatest key (last.toList ++ offered) (x.elim last (Latest.offer key last)) ↔
      ∀ a ∈ offered, (∃ b ∈ x, key a ≤ key b) ∨ ∃ b ∈ last, key a ≤ key b := by
  cases x with
  | none =>
      cases last with
      | none =>
          simp [IsLatest, List.eq_nil_iff_forall_not_mem]
      | some kept => simp [IsLatest]
  | some a =>
      have ha : a ∈ offered := hx a rfl
      cases last with
      | none => simp [IsLatest, Latest.offer, ha]
      | some kept =>
          simp only [Latest.offer, Option.elim_some, Option.mem_some_iff, exists_eq_left']
          split
          · rename_i hlower
            constructor
            · rintro ⟨-, hmax⟩ b hb
              exact Or.inr (hmax b (List.mem_cons_of_mem kept hb))
            · intro hbelow
              refine ⟨List.mem_cons_self, ?_⟩
              intro b hb
              rcases List.mem_cons.mp hb with rfl | hb
              · exact le_refl _
              · rcases hbelow b hb with hle | hle
                · exact hle.trans hlower.le
                · exact hle
          · rename_i hhigher
            constructor
            · rintro ⟨-, hmax⟩ b hb
              exact Or.inl (hmax b (List.mem_cons_of_mem kept hb))
            · intro hbelow
              refine ⟨List.mem_cons_of_mem kept ha, ?_⟩
              intro b hb
              rcases List.mem_cons.mp hb with rfl | hb
              · exact not_lt.mp hhigher
              · rcases hbelow b hb with hle | hle
                · exact hle
                · exact hle.trans (not_lt.mp hhigher)

end Latest
