import Mathlib.Data.List.Basic
import Mathlib.Logic.Function.Basic
import Mathlib.Order.Basic
import Mathlib.Order.Defs.LinearOrder
import Mathlib.Order.Lattice

/-!
Assignments in the order they were made, and the table of the last value of each
key.
-/

namespace LastFor

variable {κ ν : Type*}

section Last

variable [DecidableEq κ]

/-- The last value assigned to a key. -/
def lastFor (k : κ) : List (κ × ν) → Option ν
  | [] => none
  | (k', v) :: l => (lastFor k l).or (if k' = k then some v else none)

@[simp] theorem lastFor_nil (k : κ) : lastFor k ([] : List (κ × ν)) = none := rfl

@[simp] theorem lastFor_append (k : κ) (l l' : List (κ × ν)) :
    lastFor k (l ++ l') = (lastFor k l').or (lastFor k l) := by
  induction l with
  | nil => simp
  | cons pair l ih =>
      obtain ⟨k', v⟩ := pair
      rw [List.cons_append, lastFor, ih, lastFor, Option.or_assoc]

@[simp] theorem lastFor_singleton (k k' : κ) (v : ν) :
    lastFor k [(k', v)] = if k' = k then some v else none := rfl

theorem lastFor_eq_none_iff (k : κ) (l : List (κ × ν)) :
    lastFor k l = none ↔ k ∉ l.map Prod.fst := by
  induction l with
  | nil => simp
  | cons pair l ih =>
      obtain ⟨k', v⟩ := pair
      simp only [lastFor, Option.or_eq_none_iff, ih, List.map_cons, List.mem_cons, not_or]
      constructor
      · rintro ⟨hl, hk⟩
        refine ⟨?_, hl⟩
        rintro rfl
        simp at hk
      · rintro ⟨hk, hl⟩
        exact ⟨hl, if_neg (Ne.symm hk)⟩

/-- An assignment that a later one of its key hides. -/
theorem lastFor_cons_of_mem {k k' : κ} {v : ν} {l : List (κ × ν)}
    (h : k' ≠ k ∨ k' ∈ l.map Prod.fst) : lastFor k ((k', v) :: l) = lastFor k l := by
  rw [lastFor]
  rcases h with hne | hmem
  · rw [if_neg hne, Option.or_none]
  · split
    · rename_i hk
      subst hk
      obtain ⟨u, hu⟩ := Option.ne_none_iff_exists'.mp
        (mt (lastFor_eq_none_iff k' l).mp (not_not.mpr hmem))
      rw [hu, Option.some_or]
    · rw [Option.or_none]

/-- Making the assignments one after the other. -/
theorem foldl_update (l : List (κ × ν)) (f : κ → Option ν) (k : κ) :
    l.foldl (fun (f : κ → Option ν) pair => Function.update f pair.1 (some pair.2)) f k =
      (lastFor k l).or (f k) := by
  induction l generalizing f with
  | nil => rfl
  | cons pair l ih =>
      obtain ⟨k', v⟩ := pair
      rw [List.foldl_cons, ih, lastFor, Option.or_assoc]
      congr 1
      rcases eq_or_ne k k' with rfl | hne
      · rw [Function.update_self, if_pos rfl, Option.some_or]
      · rw [Function.update_of_ne hne, if_neg hne.symm, Option.none_or]

end Last

section Table

variable [LinearOrder κ]

/-- Assign in a table that is in the order of its keys. -/
def assign (k : κ) (v : ν) : List (κ × ν) → List (κ × ν)
  | [] => [(k, v)]
  | (k', v') :: table =>
      if k = k' then (k, v) :: table
      else if k < k' then (k, v) :: (k', v') :: table
      else (k', v') :: assign k v table

/-- The keys are in order, each once. -/
def Table (table : List (κ × ν)) : Prop := table.Pairwise fun a b => a.1 < b.1

variable {table : List (κ × ν)} {k k' : κ} {v v' : ν}

theorem mem_assign (htable : Table table) :
    (k', v') ∈ assign k v table ↔ (k' = k ∧ v' = v) ∨ (k' ≠ k ∧ (k', v') ∈ table) := by
  induction table with
  | nil => simp [assign]
  | cons pair table ih =>
      obtain ⟨k₀, v₀⟩ := pair
      obtain ⟨hfirst, hrest⟩ := List.pairwise_cons.mp htable
      have hlater : ∀ {k₁ : κ}, k₁ ≤ k₀ → ∀ {v₁ : ν}, (k₁, v₁) ∉ table :=
        fun hle v₁ hmem => absurd (hfirst _ hmem) (not_lt.mpr hle)
      rcases lt_trichotomy k k₀ with hlt | rfl | hlt
      · rw [assign, if_neg hlt.ne, if_pos hlt]
        have hold : k' = k → (k', v') ∉ (k₀, v₀) :: table := by
          rintro rfl hmem
          rcases List.mem_cons.mp hmem with heq | hmem
          · exact hlt.ne (congrArg Prod.fst heq)
          · exact hlater hlt.le hmem
        rw [List.mem_cons, Prod.mk.injEq]
        apply or_congr_right
        constructor
        · exact fun hmem => ⟨fun hk => hold hk hmem, hmem⟩
        · exact fun h => h.2
      · rw [assign, if_pos rfl, List.mem_cons, List.mem_cons, Prod.mk.injEq, Prod.mk.injEq]
        apply or_congr_right
        constructor
        · intro hmem
          refine ⟨?_, Or.inr hmem⟩
          rintro rfl
          exact hlater (le_refl _) hmem
        · rintro ⟨hne, ⟨hk, -⟩ | hmem⟩
          · exact absurd hk hne
          · exact hmem
      · rw [assign, if_neg hlt.ne', if_neg hlt.asymm, List.mem_cons, List.mem_cons, ih hrest,
          Prod.mk.injEq]
        constructor
        · rintro (⟨rfl, rfl⟩ | hnew | ⟨hne, hmem⟩)
          · exact Or.inr ⟨hlt.ne, Or.inl ⟨rfl, rfl⟩⟩
          · exact Or.inl hnew
          · exact Or.inr ⟨hne, Or.inr hmem⟩
        · rintro (hnew | ⟨hne, hfst | hmem⟩)
          · exact Or.inr (Or.inl hnew)
          · exact Or.inl hfst
          · exact Or.inr (Or.inr ⟨hne, hmem⟩)

theorem Table.assign (htable : Table table) : Table (assign k v table) := by
  induction table with
  | nil => exact List.pairwise_singleton _ _
  | cons pair table ih =>
      obtain ⟨k₀, v₀⟩ := pair
      obtain ⟨hfirst, hrest⟩ := List.pairwise_cons.mp htable
      rw [LastFor.assign]
      split
      · rename_i hk
        subst hk
        exact List.pairwise_cons.mpr ⟨hfirst, hrest⟩
      · rename_i hne
        split
        · rename_i hlt
          refine List.pairwise_cons.mpr ⟨?_, htable⟩
          intro entry hmem
          rcases List.mem_cons.mp hmem with rfl | hmem
          · exact hlt
          · exact hlt.trans (hfirst _ hmem)
        · rename_i hge
          refine List.pairwise_cons.mpr ⟨?_, ih hrest⟩
          rintro ⟨k₁, v₁⟩ hmem
          rcases (mem_assign hrest).mp hmem with ⟨rfl, -⟩ | ⟨-, hmem⟩
          · exact lt_of_le_of_ne (not_lt.mp hge) (Ne.symm hne)
          · exact hfirst _ hmem

/-- A key has one value. -/
theorem Table.unique (htable : Table table) (h : (k, v) ∈ table) (h' : (k, v') ∈ table) :
    v = v' := by
  induction table with
  | nil => cases h
  | cons pair table ih =>
      obtain ⟨hfirst, hrest⟩ := List.pairwise_cons.mp htable
      rcases List.mem_cons.mp h with rfl | h <;> rcases List.mem_cons.mp h' with heq | h'
      · exact (congrArg Prod.snd heq).symm
      · exact absurd (hfirst _ h') (lt_irrefl k)
      · exact absurd (hfirst _ h) (by rw [← heq]; exact lt_irrefl k)
      · exact ih hrest h h'

end Table

end LastFor
