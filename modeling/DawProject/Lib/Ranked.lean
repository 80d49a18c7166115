import Mathlib.Data.List.Nodup
import Mathlib.Data.List.Sort
import Mathlib.Data.Prod.Lex

/-!
Lists in order of a rank. While no two elements have one rank, the sorted list
is the only arrangement in which the ranks increase, and two ranks sort a list
alike exactly when they agree about every two of its elements.
-/

namespace Ranked

variable {α γ β : Type*} [LinearOrder β] {rank rank' : α → β} {l l' : List α}

/-- The list in order of rank. -/
def sortBy (rank : α → β) (l : List α) : List α := l.insertionSort fun a b => rank a ≤ rank b

theorem sortBy_perm (rank : α → β) (l : List α) : (sortBy rank l).Perm l :=
  List.perm_insertionSort _ l

theorem mem_sortBy {a : α} : a ∈ sortBy rank l ↔ a ∈ l := (sortBy_perm rank l).mem_iff

theorem length_sortBy (rank : α → β) (l : List α) : (sortBy rank l).length = l.length :=
  (sortBy_perm rank l).length_eq

theorem sortBy_map (rank : α → β) (f : γ → α) (l : List γ) :
    sortBy rank (l.map f) = (sortBy (fun c => rank (f c)) l).map f :=
  (List.map_insertionSort _ _ f l fun _ _ _ _ => Iff.rfl).symm

theorem pairwise_sortBy (rank : α → β) (l : List α) :
    (sortBy rank l).Pairwise fun a b => rank a ≤ rank b := by
  have : Std.Total fun a b : α => rank a ≤ rank b := ⟨fun a b => le_total (rank a) (rank b)⟩
  have : IsTrans α fun a b : α => rank a ≤ rank b := ⟨fun _ _ _ => le_trans⟩
  exact List.pairwise_insertionSort _ l

theorem pairwise_lt_sortBy (hranks : (l.map rank).Nodup) :
    (sortBy rank l).Pairwise fun a b => rank a < rank b := by
  have hnodup : ((sortBy rank l).map rank).Nodup :=
    ((sortBy_perm rank l).map rank).nodup_iff.mpr hranks
  have hne := List.pairwise_map.mp hnodup
  exact ((pairwise_sortBy rank l).and hne).imp fun h => lt_of_le_of_ne h.1 h.2

/-- An arrangement in which the ranks increase is the sorted list. -/
theorem sortBy_eq (hperm : l'.Perm l) (hsorted : l'.Pairwise fun a b => rank a < rank b) :
    sortBy rank l = l' := by
  have hall : (sortBy rank l).Perm l' := (sortBy_perm rank l).trans hperm.symm
  have hstrict : ∀ a ∈ l', ∀ b ∈ l', rank a = rank b → a = b := by
    have hne : l'.Pairwise fun a b => rank a ≠ rank b := hsorted.imp ne_of_lt
    exact List.inj_on_of_nodup_map (List.pairwise_map.mpr hne)
  apply hall.eq_of_pairwise
  · intro a b ha hb hab hba
    exact hstrict a (hall.subset ha) b hb (le_antisymm hab hba)
  · exact pairwise_sortBy rank l
  · exact hsorted.imp le_of_lt

/-- Two ranks sort a list alike exactly when they agree about its pairs. -/
theorem sortBy_eq_sortBy_iff (hperm : l.Perm l') (hranks : (l.map rank).Nodup)
    (hranks' : (l'.map rank').Nodup) :
    sortBy rank l = sortBy rank' l' ↔
      ∀ a ∈ l, ∀ b ∈ l, rank a < rank b → rank' a < rank' b := by
  constructor
  · intro heq
    have hfirst := pairwise_lt_sortBy hranks
    have hsecond := pairwise_lt_sortBy hranks'
    rw [← heq] at hsecond
    have hagree : (sortBy rank l).Pairwise fun a b => rank a < rank b → rank' a < rank' b := by
      apply hsecond.imp
      intro a b h _
      exact h
    have hflip : (sortBy rank l).Pairwise (flip fun a b => rank a < rank b → rank' a < rank' b) :=
      hfirst.imp fun h hback => absurd hback (lt_asymm h)
    have hall := hagree.forall_of_forall_of_flip (fun a _ h => absurd h (lt_irrefl _)) hflip
    intro a ha b hb
    exact hall (mem_sortBy.mpr ha) (mem_sortBy.mpr hb)
  · intro hagree
    refine (sortBy_eq ((sortBy_perm rank l).trans hperm) ?_).symm
    refine (pairwise_lt_sortBy hranks).imp_of_mem ?_
    intro a b ha hb hab
    exact hagree a (mem_sortBy.mp ha) b (mem_sortBy.mp hb) hab

/-- The arrangement sorted does not matter. -/
theorem sortBy_congr (hperm : l.Perm l') (hranks : (l.map rank).Nodup) :
    sortBy rank l = sortBy rank l' := by
  rw [sortBy_eq_sortBy_iff hperm hranks ((hperm.map rank).nodup_iff.mp hranks)]
  exact fun _ _ _ _ h => h

/-- Names that are distinct on a list tell its arrangements apart. -/
theorem map_eq_map_iff {name : α → γ} (hperm : l.Perm l') (hnames : (l.map name).Nodup) :
    l.map name = l'.map name ↔ l = l' := by
  constructor
  · intro heq
    have hinj := List.inj_on_of_nodup_map hnames
    apply List.ext_getElem hperm.length_eq
    intro i hi hi'
    apply hinj (List.getElem_mem hi) (hperm.symm.subset (List.getElem_mem hi'))
    have hget : (l.map name)[i]? = (l'.map name)[i]? := by
      rw [heq]
    simpa [hi, hi'] using hget
  · rintro rfl
    rfl

section Indexed

variable {a b : β} {i j : ℕ}

/-- By key, then by index: an earlier element comes first unless its key is larger. -/
theorem toLex_lt_of_lt (hij : i < j) : toLex (a, i) < toLex (b, j) ↔ a ≤ b := by
  rw [Prod.Lex.toLex_lt_toLex, le_iff_lt_or_eq]
  simp [hij]

theorem toLex_lt_of_gt (hij : j < i) : toLex (a, i) < toLex (b, j) ↔ a < b := by
  rw [Prod.Lex.toLex_lt_toLex]
  simp [hij.le]

end Indexed

end Ranked
