import Mathlib.Data.List.InsertIdx
import Mathlib.Data.List.Nodup
import Mathlib.Order.Basic
import Mathlib.Order.Lattice
import Mathlib.Tactic.Common

/-!
Lists in ascending order of a key, written by index, and the merge of two
copies of a replicated list. An element of a replicated list has an id; merging
keeps the order each copy gives its elements, drops what a copy has taken out,
and leaves a record that both copies have written as one of them has it.
-/

namespace ListMerge

section Ascending

variable {α κ : Type*} [LinearOrder κ] {key : α → κ}

def Ascending (key : α → κ) (l : List α) : Prop := l.Pairwise fun a b => key a ≤ key b

/-- The index of a new element under `k`: after those of the same key. -/
def rank (key : α → κ) (k : κ) (l : List α) : Nat :=
  (l.filter fun a => decide (key a ≤ k)).length

variable {l : List α} {a : α}

theorem rank_eq (key : α → κ) (k : κ) (l : List α) :
    rank key k l = ((l.map key).filter fun x => decide (x ≤ k)).length := by
  rw [rank, List.filter_map, List.length_map]
  rfl

/-- The index depends on the keys alone. -/
theorem rank_congr {β : Type*} {key' : β → κ} {l' : List β} (heq : l.map key = l'.map key')
    (k : κ) : rank key k l = rank key' k l' := by
  rw [rank_eq, rank_eq, heq]

theorem ascending_iff : Ascending key l ↔ (l.map key).Pairwise (· ≤ ·) := List.pairwise_map.symm

theorem ascending_congr {β : Type*} {key' : β → κ} {l' : List β}
    (heq : l.map key = l'.map key') : Ascending key l ↔ Ascending key' l' := by
  rw [ascending_iff, ascending_iff, heq]

theorem rank_cons_of_le {b : α} {k : κ} (hle : key b ≤ k) :
    rank key k (b :: l) = rank key k l + 1 := by
  have hkept : decide (key b ≤ k) = true := decide_eq_true hle
  simp only [rank, List.filter_cons, hkept, if_true, List.length_cons]

theorem rank_eq_zero {k : κ} (hlt : ∀ x ∈ l, k < key x) : rank key k l = 0 := by
  rw [rank, List.length_eq_zero_iff, List.filter_eq_nil_iff]
  intro x hx hbefore
  exact (hlt x hx).not_ge (of_decide_eq_true hbefore)

theorem Ascending.lt_of_lt {b : α} {k : κ} (h : Ascending key (b :: l)) (hlt : k < key b) :
    ∀ x ∈ b :: l, k < key x := by
  intro x hx
  rcases List.mem_cons.mp hx with rfl | hold
  · exact hlt
  · exact hlt.trans_le ((List.pairwise_cons.mp h).1 x hold)

theorem Ascending.insert (h : Ascending key l) (a : α) :
    Ascending key (l.insertIdx (rank key (key a) l) a) := by
  induction l with
  | nil => exact List.pairwise_singleton _ a
  | cons b l ih =>
      obtain ⟨hfirst, hrest⟩ := List.pairwise_cons.mp h
      by_cases hle : key b ≤ key a
      · rw [rank_cons_of_le hle, List.insertIdx_succ_cons]
        refine List.pairwise_cons.mpr ⟨fun x hx => ?_, ih hrest⟩
        rcases List.eq_or_mem_of_mem_insertIdx hx with rfl | hold
        · exact hle
        · exact hfirst x hold
      · have hlt := h.lt_of_lt (not_le.mp hle)
        rw [rank_eq_zero hlt, List.insertIdx_zero]
        exact List.pairwise_cons.mpr ⟨fun x hx => (hlt x hx).le, h⟩

theorem Ascending.insertIdx_eq_cons_iff (h : Ascending key (a :: l)) :
    l.insertIdx (rank key (key a) l) a = a :: l ↔ ∀ b ∈ l, key b = key a → b = a := by
  induction l with
  | nil => simp [rank]
  | cons b l ih =>
      obtain ⟨hfirst, hrest⟩ := List.pairwise_cons.mp h
      by_cases hle : key b ≤ key a
      · have hkey : key b = key a := le_antisymm hle (hfirst b List.mem_cons_self)
        have htail : Ascending key (a :: l) :=
          h.sublist ((List.sublist_cons_self b l).cons_cons a)
        rw [rank_cons_of_le hle, List.insertIdx_succ_cons, List.cons.injEq, List.forall_mem_cons]
        constructor
        · rintro ⟨rfl, hsame⟩
          exact ⟨fun _ => rfl, (ih htail).mp hsame⟩
        · rintro ⟨hb, hlater⟩
          obtain rfl := hb hkey
          exact ⟨rfl, (ih htail).mpr hlater⟩
      · have hlt := Ascending.lt_of_lt hrest (not_le.mp hle)
        rw [rank_eq_zero hlt, List.insertIdx_zero]
        exact iff_of_true rfl fun x hx hkey => absurd hkey (hlt x hx).ne'

/-- An element put back after those of its key is where it was, when it was the
last of them or those after it equal it. -/
theorem Ascending.insertIdx_eraseIdx_iff (h : Ascending key l) {i : Nat}
    (hget : l[i]? = some a) :
    (l.eraseIdx i).insertIdx (rank key (key a) (l.eraseIdx i)) a = l ↔
      ∀ b ∈ l.drop (i + 1), key b = key a → b = a := by
  induction l generalizing i with
  | nil => cases hget
  | cons b l ih =>
      obtain ⟨hfirst, hrest⟩ := List.pairwise_cons.mp h
      cases i with
      | zero =>
          obtain rfl := Option.some.inj hget
          exact h.insertIdx_eq_cons_iff
      | succ i =>
          have hle : key b ≤ key a := hfirst a (List.mem_of_getElem? hget)
          rw [List.eraseIdx_cons_succ, rank_cons_of_le hle, List.insertIdx_succ_cons,
            List.cons.injEq, List.drop_succ_cons, ← ih hrest hget]
          exact and_iff_right rfl

theorem rank_le_length (k : κ) (l : List α) : rank key k l ≤ l.length :=
  List.length_filter_le _ l

theorem Ascending.eraseIdx (h : Ascending key l) (i : Nat) : Ascending key (l.eraseIdx i) :=
  h.sublist (List.eraseIdx_sublist l i)

end Ascending

section Order

variable {α β : Type*} {l : List α} {x y : α}

/-- Two elements of a list come in one order or the other. -/
theorem pair_sublist_or (hx : x ∈ l) (hy : y ∈ l) (hne : x ≠ y) :
    [x, y].Sublist l ∨ [y, x].Sublist l := by
  induction l with
  | nil => cases hx
  | cons a l ih =>
      rcases List.mem_cons.mp hx with rfl | hx'
      · rcases List.mem_cons.mp hy with rfl | hy'
        · exact absurd rfl hne
        · exact Or.inl ((List.singleton_sublist.mpr hy').cons_cons x)
      · rcases List.mem_cons.mp hy with rfl | hy'
        · exact Or.inr ((List.singleton_sublist.mpr hx').cons_cons y)
        · exact (ih hx' hy').imp (List.Sublist.cons a) (List.Sublist.cons a)

/-- Without a repeat, in one of them only. -/
theorem not_pair_sublist (hl : l.Nodup) (h : [x, y].Sublist l) : ¬[y, x].Sublist l := by
  induction l with
  | nil => cases h
  | cons a l ih =>
      obtain ⟨hnew, hrest⟩ := List.nodup_cons.mp hl
      intro h'
      cases h with
      | cons _ hin =>
          cases h' with
          | cons _ hin' => exact ih hrest hin hin'
          | cons_cons _ hx => exact hnew (hin.subset (List.mem_cons_of_mem x List.mem_cons_self))
      | cons_cons _ hy =>
          cases h' with
          | cons _ hin' => exact hnew (hin'.subset (List.mem_cons_of_mem y List.mem_cons_self))
          | cons_cons _ hx => exact hnew (hx.subset List.mem_cons_self)

end Order

section Merge

variable {ι α : Type*}

def ids (l : List (ι × α)) : List ι := l.map Prod.fst

/-- `m` is the merge of two copies of `base` that were written apart. The order
of elements that one copy alone has against those that the other alone has is
left open. -/
structure Merge (base first second m : List (ι × α)) : Prop where
  nodup : (ids m).Nodup
  /-- What both have kept of the base, and what each has added. -/
  members : ∀ i, i ∈ ids m ↔ (i ∈ ids first ∧ i ∈ ids second) ∨
    (i ∉ ids base ∧ (i ∈ ids first ∨ i ∈ ids second))
  record : ∀ p ∈ m, p ∈ first ∨ p ∈ second
  /-- A record that is written in one copy does not stay as it was. -/
  written : ∀ p ∈ m, p ∈ base → p ∈ first ∧ p ∈ second
  inFirst : ∀ i j, i ∈ ids m → j ∈ ids m → [i, j].Sublist (ids first) → [i, j].Sublist (ids m)
  inSecond : ∀ i j, i ∈ ids m → j ∈ ids m → [i, j].Sublist (ids second) → [i, j].Sublist (ids m)

/-- One copy alone has the first record, the other alone the second. -/
def Crosses (first second : List (ι × α)) (p q : ι × α) : Prop :=
  (p ∈ first ∧ p ∉ second ∧ q ∈ second ∧ q ∉ first) ∨
    (p ∈ second ∧ p ∉ first ∧ q ∈ first ∧ q ∉ second)

variable {base first second m l : List (ι × α)} {r : ι × α → ι × α → Prop} {p q : ι × α}

/-- Two records of a copy are merged in the order they have there. -/
theorem rel_of_kept (hnodup : (ids m).Nodup)
    (horder : ∀ i j, i ∈ ids m → j ∈ ids m → [i, j].Sublist (ids l) → [i, j].Sublist (ids m))
    (hl : l.Pairwise r) (hpq : [p, q].Sublist m) (hp : p ∈ l) (hq : q ∈ l) : r p q := by
  have hids : [p.1, q.1].Sublist (ids m) := hpq.map Prod.fst
  have hmem : ∀ i ∈ [p.1, q.1], i ∈ ids m := fun i hi => hids.subset hi
  have hne : p ≠ q := by
    rintro rfl
    exact not_pair_sublist hnodup hids hids
  rcases pair_sublist_or hp hq hne with hsame | hswapped
  · exact hl.forall_sublist hsame
  · have hback : [q.1, p.1].Sublist (ids m) := by
      apply horder q.1 p.1 (hmem _ (by simp)) (hmem _ (by simp))
      exact hswapped.map Prod.fst
    exact absurd hback (not_pair_sublist hnodup hids)

/-- Merging two lists in order gives a list in order exactly when the records
that only one copy has come in order with those that only the other has. -/
theorem Merge.pairwise_iff (h : Merge base first second m) (hfirst : first.Pairwise r)
    (hsecond : second.Pairwise r) :
    m.Pairwise r ↔ ∀ p q, [p, q].Sublist m → Crosses first second p q → r p q := by
  constructor
  · exact fun hm p q hpq _ => hm.forall_sublist hpq
  · intro hcross
    apply List.pairwise_of_forall_sublist
    intro p q hpq
    have hp := h.record p (hpq.subset List.mem_cons_self)
    have hq := h.record q (hpq.subset (List.mem_cons_of_mem p List.mem_cons_self))
    by_cases hboth : p ∈ first ∧ q ∈ first
    · exact rel_of_kept h.nodup h.inFirst hfirst hpq hboth.1 hboth.2
    · by_cases hother : p ∈ second ∧ q ∈ second
      · exact rel_of_kept h.nodup h.inSecond hsecond hpq hother.1 hother.2
      · apply hcross p q hpq
        unfold Crosses
        tauto

end Merge

end ListMerge
