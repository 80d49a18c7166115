import Mathlib.Data.List.Basic
import Mathlib.Tactic.Common

/-!
A replicated register: the puts it has received, and the ids of those that a
later put or a delete has overwritten. What overwrites is what was visible where
the write was made, so a put made meanwhile on another replica survives it.
Merging two registers unites both.
-/

structure Register (ι α : Type*) where
  puts : List (ι × α) := []
  overwritten : List ι := []

namespace Register

variable {ι α : Type*}

/-- The register has a value: some put is not overwritten. -/
def Present (r : Register ι α) : Prop := ∃ p ∈ r.puts, p.1 ∉ r.overwritten

/-- The register has a value put under one of these ids. -/
def Stands (own : ι → Prop) (r : Register ι α) : Prop :=
  ∃ p ∈ r.puts, own p.1 ∧ p.1 ∉ r.overwritten

/-- A value of the base that neither register has overwritten. -/
def Kept (base r s : Register ι α) : Prop :=
  ∃ p ∈ base.puts, p.1 ∉ r.overwritten ∧ p.1 ∉ s.overwritten

def merge (r s : Register ι α) : Register ι α where
  puts := r.puts ++ s.puts
  overwritten := r.overwritten ++ s.overwritten

section Write

variable [DecidableEq ι] {r base : Register ι α} {i : ι} {a : α}

instance (r : Register ι α) : Decidable r.Present := inferInstanceAs (Decidable (∃ p ∈ _, _))

def visible (r : Register ι α) : List (ι × α) :=
  r.puts.filter fun p => decide (p.1 ∉ r.overwritten)

def put (i : ι) (a : α) (r : Register ι α) : Register ι α where
  puts := r.puts ++ [(i, a)]
  overwritten := r.overwritten ++ r.visible.map Prod.fst

def delete (r : Register ι α) : Register ι α :=
  { r with overwritten := r.overwritten ++ r.visible.map Prod.fst }

theorem mem_visible {p : ι × α} : p ∈ r.visible ↔ p ∈ r.puts ∧ p.1 ∉ r.overwritten := by
  rw [visible, List.mem_filter, decide_eq_true_eq]

theorem present_iff_visible : r.Present ↔ r.visible ≠ [] := by
  constructor
  · rintro ⟨p, hp, hstands⟩ hnone
    have hmem : p ∈ r.visible := mem_visible.mpr ⟨hp, hstands⟩
    rw [hnone] at hmem
    cases hmem
  · intro hsome
    obtain ⟨p, hp⟩ := List.exists_mem_of_ne_nil _ hsome
    exact ⟨p, mem_visible.mp hp⟩

/-- A write overwrites all there was. -/
theorem overwritten_of_mem {p : ι × α} (hp : p ∈ r.puts) :
    p.1 ∈ r.overwritten ++ r.visible.map Prod.fst := by
  by_cases hold : p.1 ∈ r.overwritten
  · exact List.mem_append_left _ hold
  · exact List.mem_append_right _ (List.mem_map.mpr ⟨p, mem_visible.mpr ⟨hp, hold⟩, rfl⟩)

/-- Nothing that was put before a write is visible after it. -/
theorem filter_overwritten (r : Register ι α) :
    (r.puts.filter fun p => decide (p.1 ∉ r.overwritten ++ r.visible.map Prod.fst)) = [] := by
  rw [List.filter_eq_nil_iff]
  intro p hp hvisible
  rw [decide_eq_true_eq] at hvisible
  exact hvisible (overwritten_of_mem hp)

theorem visible_delete (r : Register ι α) : r.delete.visible = [] := filter_overwritten r

theorem visible_put (hnew : ∀ p ∈ r.puts, p.1 ≠ i) (hlive : i ∉ r.overwritten) :
    (r.put i a).visible = [(i, a)] := by
  have hfresh : i ∉ r.overwritten ++ r.visible.map Prod.fst := by
    rw [List.mem_append, not_or]
    refine ⟨hlive, fun hi => ?_⟩
    obtain ⟨p, hp, heq⟩ := List.mem_map.mp hi
    exact hnew p (mem_visible.mp hp).1 heq
  rw [visible, put, List.filter_append]
  dsimp only
  rw [filter_overwritten, List.nil_append, List.filter_eq_self]
  intro p hp
  rw [List.mem_singleton.mp hp]
  exact decide_eq_true hfresh

end Write

/-- A register that one replica has written since the base, under its own ids:
it overwrote nothing that it did not have. -/
structure Branch (own : ι → Prop) (base r : Register ι α) : Prop where
  puts : ∃ mine, r.puts = base.puts ++ mine ∧ ∀ p ∈ mine, own p.1
  keeps : ∀ i ∈ base.overwritten, i ∈ r.overwritten
  had : ∀ i ∈ r.overwritten, i ∈ base.overwritten ∨ ∃ p ∈ r.puts, p.1 = i

section Branch

variable {own other : ι → Prop} {base r s : Register ι α}

theorem Branch.refl (own : ι → Prop) (base : Register ι α) : Branch own base base where
  puts := ⟨[], by rw [List.append_nil], List.forall_mem_nil _⟩
  keeps _ hi := hi
  had _ hi := Or.inl hi

theorem Branch.delete [DecidableEq ι] (hr : Branch own base r) : Branch own base r.delete where
  puts := hr.puts
  keeps i hi := List.mem_append_left _ (hr.keeps i hi)
  had i hi := by
    rcases List.mem_append.mp hi with hold | hseen
    · exact hr.had i hold
    · obtain ⟨p, hp, rfl⟩ := List.mem_map.mp hseen
      exact Or.inr ⟨p, (mem_visible.mp hp).1, rfl⟩

theorem Branch.put [DecidableEq ι] (hr : Branch own base r) {i : ι} (hi : own i) (a : α) :
    Branch own base (r.put i a) where
  puts := by
    obtain ⟨mine, heq, hmine⟩ := hr.puts
    refine ⟨mine ++ [(i, a)], ?_, ?_⟩
    · rw [Register.put, heq, List.append_assoc]
    · intro p hp
      rcases List.mem_append.mp hp with hold | hnew
      · exact hmine p hold
      · rw [List.mem_singleton.mp hnew]
        exact hi
  keeps j hj := List.mem_append_left _ (hr.keeps j hj)
  had j hj := by
    rcases List.mem_append.mp hj with hold | hseen
    · exact (hr.had j hold).imp_right fun ⟨p, hp, heq⟩ => ⟨p, List.mem_append_left _ hp, heq⟩
    · obtain ⟨p, hp, rfl⟩ := List.mem_map.mp hseen
      exact Or.inr ⟨p, List.mem_append_left _ (mem_visible.mp hp).1, rfl⟩

theorem Branch.mem_puts (hr : Branch own base r) {p : ι × α} (hp : p ∈ r.puts) :
    p ∈ base.puts ∨ own p.1 := by
  obtain ⟨mine, heq, hmine⟩ := hr.puts
  rw [heq] at hp
  exact (List.mem_append.mp hp).imp_right (hmine p)

/-- What a replica has put is not among what the other overwrote. -/
theorem Branch.not_overwritten (hr : Branch own base r) (hs : Branch other base s)
    (hdisjoint : ∀ i, own i → ¬other i) (hbase : ∀ p ∈ base.puts, ¬own p.1) {i : ι} (hi : own i)
    (hlive : i ∉ r.overwritten) : i ∉ s.overwritten := by
  intro hgone
  rcases hs.had i hgone with hold | ⟨p, hp, rfl⟩
  · exact hlive (hr.keeps i hold)
  · rcases hs.mem_puts hp with hcommon | hother
    · exact hbase p hcommon hi
    · exact hdisjoint p.1 hi hother

/-- A merged register has a value if one of the replicas has put the one it has,
or both have kept that of the base. -/
theorem present_merge (hr : Branch own base r) (hs : Branch other base s)
    (hdisjoint : ∀ i, own i → ¬other i) (hbase : ∀ p ∈ base.puts, ¬own p.1 ∧ ¬other p.1) :
    (merge r s).Present ↔ Stands own r ∨ Stands other s ∨ Kept base r s := by
  constructor
  · rintro ⟨p, hp, hstands⟩
    simp only [merge, List.mem_append, not_or] at hp hstands
    rcases hp with hp | hp
    · rcases hr.mem_puts hp with hcommon | hown
      · exact Or.inr (Or.inr ⟨p, hcommon, hstands⟩)
      · exact Or.inl ⟨p, hp, hown, hstands.1⟩
    · rcases hs.mem_puts hp with hcommon | hown
      · exact Or.inr (Or.inr ⟨p, hcommon, hstands⟩)
      · exact Or.inr (Or.inl ⟨p, hp, hown, hstands.2⟩)
  · rintro (⟨p, hp, hown, hlive⟩ | ⟨p, hp, hown, hlive⟩ | ⟨p, hp, hlive⟩)
    · refine ⟨p, List.mem_append_left _ hp, ?_⟩
      rw [merge, List.mem_append, not_or]
      exact ⟨hlive, hr.not_overwritten hs hdisjoint (fun q hq => (hbase q hq).1) hown hlive⟩
    · refine ⟨p, List.mem_append_right _ hp, ?_⟩
      rw [merge, List.mem_append, not_or]
      refine ⟨hs.not_overwritten hr ?_ (fun q hq => (hbase q hq).2) hown hlive, hlive⟩
      exact fun i hother hmine => hdisjoint i hmine hother
    · refine ⟨p, List.mem_append_left _ ?_, ?_⟩
      · obtain ⟨mine, heq, -⟩ := hr.puts
        rw [heq]
        exact List.mem_append_left _ hp
      · rw [merge, List.mem_append, not_or]
        exact hlive

end Branch

end Register
