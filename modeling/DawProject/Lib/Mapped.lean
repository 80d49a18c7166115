import Mathlib.Data.List.Forall2

/-!
Mapping a partial function over a list, element by element. The results stand
in relation to the elements exactly when the function relates each element to
its result.
-/

namespace Mapped

variable {α β : Type*} {f : α → Option β} {R : α → β → Prop}

theorem mapM_of_forall {l : List α} (hall : ∀ a ∈ l, ∃ b, f a = some b ∧ R a b) :
    ∃ bs, l.mapM f = some bs ∧ List.Forall₂ R l bs := by
  induction l with
  | nil => exact ⟨[], rfl, List.Forall₂.nil⟩
  | cons a l ih =>
      obtain ⟨b, hb, hrel⟩ := hall a List.mem_cons_self
      obtain ⟨bs, hbs, hrest⟩ := ih (fun a' ha' => hall a' (List.mem_cons_of_mem a ha'))
      refine ⟨b :: bs, ?_, List.Forall₂.cons hrel hrest⟩
      rw [List.mapM_cons, hb, hbs]
      rfl

theorem forall₂_of_mapM {l : List α} {bs : List β} (hmap : l.mapM f = some bs) :
    List.Forall₂ (fun a b => f a = some b) l bs := by
  induction l generalizing bs with
  | nil =>
      obtain rfl : [] = bs := Option.some.inj hmap
      exact List.Forall₂.nil
  | cons a l ih =>
      simp only [List.mapM_cons, Option.bind_eq_bind, Option.bind_eq_some_iff] at hmap
      obtain ⟨b, hb, rest, hrest, hcons⟩ := hmap
      obtain rfl : b :: rest = bs := Option.some.inj hcons
      exact List.Forall₂.cons hb (ih hrest)

/-- Two relations between the same lists meet at each element. -/
theorem exists_of_mem {S : α → β → Prop} {l : List α} {bs : List β}
    (hR : List.Forall₂ R l bs) (hS : List.Forall₂ S l bs) {a : α} (ha : a ∈ l) :
    ∃ b, R a b ∧ S a b := by
  induction hR with
  | nil => cases ha
  | @cons a' b l' bs' hhere _ ih =>
      obtain ⟨hhere', hlater'⟩ := List.forall₂_cons.mp hS
      rcases List.mem_cons.mp ha with rfl | hmem
      · exact ⟨b, hhere, hhere'⟩
      · exact ih hlater' hmem

/-- What related elements have in common the lists have in common. -/
theorem map_eq_of_forall₂ {γ : Type*} {g : α → γ} {h : β → γ} {l : List α} {bs : List β}
    (hR : List.Forall₂ R l bs) (hsame : ∀ a b, R a b → h b = g a) : bs.map h = l.map g := by
  induction hR with
  | nil => rfl
  | cons hhere _ ih => rw [List.map_cons, List.map_cons, hsame _ _ hhere, ih]

theorem forall_iff_of_forall₂ {P : α → Prop} {Q : β → Prop} {l : List α} {bs : List β}
    (hR : List.Forall₂ R l bs) (hsame : ∀ a b, a ∈ l → R a b → (Q b ↔ P a)) :
    (∀ b ∈ bs, Q b) ↔ ∀ a ∈ l, P a := by
  induction hR with
  | nil => exact iff_of_true (List.forall_mem_nil _) (List.forall_mem_nil _)
  | cons hhere _ ih =>
      rw [List.forall_mem_cons, List.forall_mem_cons, hsame _ _ List.mem_cons_self hhere,
        ih fun a b ha hrel => hsame a b (List.mem_cons_of_mem _ ha) hrel]

end Mapped
