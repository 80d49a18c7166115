import Mathlib.Data.List.Basic
import Mathlib.Data.List.InsertIdx
import Mathlib.Data.Multiset.ZeroCons

/-!
One element moved through a list by index, and moved back. Each value has a
place among the other elements. The way back knows, of each value left for the
first time, the index where the element went and the value it had; the indices
are those of the way out, so they find the element only where it stands at the
place it then went to.
-/

namespace Retrace

variable {α κ : Type*} [DecidableEq κ]

section Insert

variable {l : List α} {a : α} {i : Nat}

theorem insertIdx_eq (a : α) (l : List α) (hi : i ≤ l.length) :
    l.insertIdx i a = l.take i ++ a :: l.drop i := by
  induction i generalizing l with
  | zero => rfl
  | succ i ih =>
      cases l with
      | nil => cases hi
      | cons b l =>
          rw [List.insertIdx_succ_cons, ih l (Nat.le_of_succ_le_succ hi)]
          rfl

/-- A list is one of its elements among the others. -/
theorem insertIdx_eraseIdx (hget : l[i]? = some a) : (l.eraseIdx i).insertIdx i a = l := by
  obtain ⟨hi, rfl⟩ := List.getElem?_eq_some_iff.mp hget
  rw [List.insertIdx_eraseIdx_self (Nat.ne_of_lt hi), List.set_getElem_self]

theorem eq_of_insertIdx_eq {b : α} {j : Nat} (hi : i ≤ l.length) (hj : j ≤ l.length)
    (heq : l.insertIdx i a = l.insertIdx j b) : a = b := by
  have hperm : (a :: l).Perm (b :: l) := by
    apply (List.perm_insertIdx a l hi).symm.trans
    rw [heq]
    exact List.perm_insertIdx b l hj
  exact (Multiset.cons_inj_left (l : Multiset α)).mp (Quotient.sound hperm)

variable {p : α → Bool}

/-- The others, told by a predicate that only the element satisfies. -/
theorem filter_insertIdx (hothers : ∀ b ∈ l, p b = false) (ha : p a = true) (hi : i ≤ l.length) :
    (l.insertIdx i a).filter (fun b => !p b) = l := by
  have hall : ∀ l' : List α, l'.Sublist l → l'.filter (fun b => !p b) = l' := by
    intro l' hsub
    rw [List.filter_eq_self]
    intro b hb
    rw [hothers b (hsub.subset hb)]
    rfl
  have hdropped : (a :: l.drop i).filter (fun b => !p b) = (l.drop i).filter fun b => !p b := by
    rw [List.filter_cons, ha]
    rfl
  rw [insertIdx_eq a l hi, List.filter_append, hdropped, hall _ (List.take_sublist i l),
    hall _ (List.drop_sublist i l), List.take_append_drop]

theorem findIdx?_insertIdx (hothers : ∀ b ∈ l, p b = false) (ha : p a = true)
    (hi : i ≤ l.length) : (l.insertIdx i a).findIdx? p = some i := by
  have hnone : (l.take i).findIdx? p = none := by
    rw [List.findIdx?_eq_none_iff]
    exact fun b hb => hothers b (List.mem_of_mem_take hb)
  rw [insertIdx_eq a l hi, List.findIdx?_append, hnone, Option.none_or, List.findIdx?_cons, ha,
    if_pos rfl, Option.map_some, List.length_take, Nat.min_eq_left hi, Nat.zero_add]

end Insert

variable (place : List α → α → Nat) (key : α → κ)

/-- The element at an index takes a value and goes to its place. -/
def moveTo (i : Nat) (a : α) (l : List α) : List α :=
  if i < l.length then (l.eraseIdx i).insertIdx (place (l.eraseIdx i) a) a else l

/-- Where the element went, and the value it left for the first time. -/
def keptMoves (others : List α) : List κ → α → List α → List (Nat × α)
  | _, _, [] => []
  | seen, a, b :: values =>
      if key a ∈ seen then keptMoves others seen b values
      else (place others b, a) :: keptMoves others (key a :: seen) b values

/-- The way back, from the last move kept. -/
def replayMoves (moves : List (Nat × α)) (l : List α) : List α :=
  moves.foldr (fun m l => moveTo place m.1 m.2 l) l

/-- Two indices between which there is nothing but the element's equals. -/
def SamePlace (others : List α) (i j : Nat) (a : α) : Prop :=
  others.insertIdx i a = others.insertIdx j a

/-- Whenever the element leaves a value for the first time, and at the end, its
place is the one where the last kept move had put it. -/
def Retraceable (others : List α) : List κ → Nat → α → List α → Prop
  | _, went, a, [] => SamePlace others (place others a) went a
  | seen, went, a, b :: values =>
      if key a ∈ seen then Retraceable others seen went b values
      else SamePlace others (place others a) went a ∧
        Retraceable others (key a :: seen) (place others b) b values

section Decide

variable [DecidableEq α]

instance (others : List α) (i j : Nat) (a : α) : Decidable (SamePlace others i j a) :=
  inferInstanceAs (Decidable (_ = _))

def decideRetraceable (others : List α) : ∀ (values : List α) (seen : List κ) (went : Nat) (a : α),
    Decidable (Retraceable place key others seen went a values)
  | [], _, went, a => inferInstanceAs (Decidable (SamePlace others (place others a) went a))
  | b :: values, seen, went, a =>
      have := decideRetraceable others values seen went b
      have := decideRetraceable others values (key a :: seen) (place others b) b
      inferInstanceAs (Decidable (if key a ∈ seen then _ else _))

instance (others : List α) (seen : List κ) (went : Nat) (a : α) (values : List α) :
    Decidable (Retraceable place key others seen went a values) :=
  decideRetraceable place key others values seen went a

end Decide

section Back

variable {place} {key} {others : List α} {seen : List κ} {went : Nat} {a : α} {values : List α}

theorem moveTo_insertIdx {i : Nat} (hi : i ≤ others.length) (a x : α) :
    moveTo place i a (others.insertIdx i x) = others.insertIdx (place others a) a := by
  have hlength : i < (others.insertIdx i x).length := by
    rw [List.length_insertIdx_of_le_length hi]
    omega
  rw [moveTo, if_pos hlength, List.eraseIdx_insertIdx_self]

theorem length_moveTo (hplace : ∀ l a, place l a ≤ l.length) (i : Nat) (a : α) (l : List α) :
    (moveTo place i a l).length = l.length := by
  rw [moveTo]
  split
  · rename_i hi
    rw [List.length_insertIdx_of_le_length (hplace _ a), List.length_eraseIdx_of_lt hi]
    omega
  · rfl

theorem length_replayMoves (hplace : ∀ l a, place l a ≤ l.length) (moves : List (Nat × α))
    (l : List α) : (replayMoves place moves l).length = l.length := by
  induction moves with
  | nil => rfl
  | cons m moves ih => rw [replayMoves, List.foldr_cons, length_moveTo hplace, ← replayMoves, ih]

variable {vis : α → Bool}

/-- A value of the element is always there. -/
theorem exists_mem_replayMoves (hplace : ∀ l a, place l a ≤ l.length) {moves : List (Nat × α)}
    {l : List α} (hmoves : ∀ m ∈ moves, vis m.2 = true) (hl : ∃ y ∈ l, vis y = true) :
    ∃ y ∈ replayMoves place moves l, vis y = true := by
  induction moves with
  | nil => exact hl
  | cons m moves ih =>
      have hrest := ih fun m' hm' => hmoves m' (List.mem_cons_of_mem m hm')
      rw [replayMoves, List.foldr_cons, ← replayMoves, moveTo]
      split
      · refine ⟨m.2, ?_, hmoves m List.mem_cons_self⟩
        exact (List.mem_insertIdx (hplace _ m.2)).mpr (Or.inl rfl)
      · exact hrest

theorem vis_of_mem_keptMoves (hvalues : ∀ b ∈ a :: values, vis b = true) :
    ∀ m ∈ keptMoves place key others seen a values, vis m.2 = true := by
  induction values generalizing seen a with
  | nil =>
      intro m hm
      cases hm
  | cons b values ih =>
      have hlater : ∀ c ∈ b :: values, vis c = true :=
        fun c hc => hvalues c (List.mem_cons_of_mem a hc)
      intro m hm
      rw [keptMoves] at hm
      split at hm
      · exact ih hlater m hm
      · rcases List.mem_cons.mp hm with rfl | hm
        · exact hvalues a List.mem_cons_self
        · exact ih hlater m hm

/-- On a way that can be retraced each index finds the element. -/
theorem replayMoves_of_retraceable (hplace : ∀ l a, place l a ≤ l.length)
    (hretrace : Retraceable place key others seen went a values) :
    ∃ x ∈ a :: values, replayMoves place (keptMoves place key others seen a values)
      (others.insertIdx (place others (values.getLastD a)) (values.getLastD a)) =
        others.insertIdx went x := by
  induction values generalizing seen went a with
  | nil => exact ⟨a, List.mem_cons_self, hretrace⟩
  | cons b values ih =>
      rw [Retraceable] at hretrace
      rw [keptMoves, List.getLastD_cons]
      split at hretrace
      · rename_i hseen
        rw [if_pos hseen]
        obtain ⟨x, hx, hback⟩ := ih hretrace
        exact ⟨x, List.mem_cons_of_mem a hx, hback⟩
      · rename_i hseen
        obtain ⟨hhere, hlater⟩ := hretrace
        obtain ⟨x, _, hback⟩ := ih hlater
        refine ⟨a, List.mem_cons_self, ?_⟩
        rw [if_neg hseen, replayMoves, List.foldr_cons, ← replayMoves, hback,
          moveTo_insertIdx (hplace others b), hhere]

/-- The element was where a move found it, when the move leads to the others as
they were. -/
theorem eq_insertIdx_of_moveTo (hplace : ∀ l a, place l a ≤ l.length)
    (hothers : ∀ b ∈ others, vis b = false) {i : Nat} {x y : α} {l : List α}
    (hi : i < l.length) (hlength : l.length = others.length + 1) (hy : y ∈ l)
    (hvisy : vis y = true) (ha : vis a = true) (hx : vis x = true) (hwent : went ≤ others.length)
    (hmove : moveTo place i a l = others.insertIdx went x) : l = others.insertIdx i y := by
  rw [moveTo, if_pos hi] at hmove
  have hrest : (l.eraseIdx i).filter (fun b => !vis b) = others := by
    have hfilter := congrArg (List.filter fun b => !vis b) hmove
    rw [filter_insertIdx hothers hx hwent,
      insertIdx_eq a _ (hplace _ a), List.filter_append, List.filter_cons, ha, Bool.not_true,
      if_neg Bool.false_ne_true, ← List.filter_append, List.take_append_drop] at hfilter
    exact hfilter
  have hall : (l.eraseIdx i).filter (fun b => !vis b) = l.eraseIdx i := by
    apply List.filter_sublist.eq_of_length
    rw [hrest, List.length_eraseIdx_of_lt hi]
    omega
  have hothersEq : l.eraseIdx i = others := hall.symm.trans hrest
  have hself : others.insertIdx i l[i] = l := by
    rw [← hothersEq]
    exact insertIdx_eraseIdx (List.getElem?_eq_getElem hi)
  have hin : y = l[i] ∨ y ∈ others := by
    rw [← hself, List.mem_insertIdx (by omega)] at hy
    exact hy
  rcases hin with heq | hother
  · rw [heq, hself]
  · rw [hothers y hother] at hvisy
    cases hvisy

/-- A last move that leads to the others as they were has found the element. -/
theorem found_of_moveTo (hplace : ∀ l a, place l a ≤ l.length)
    (hothers : ∀ b ∈ others, vis b = false) {b : α} (ha : vis a = true)
    (hvalues : ∀ c ∈ b :: values, vis c = true) (hwent : went ≤ others.length) {x : α}
    (hx : vis x = true)
    (hback : moveTo place (place others b) a
      (replayMoves place (keptMoves place key others seen b values)
        (others.insertIdx (place others (values.getLastD b)) (values.getLastD b))) =
          others.insertIdx went x) :
    (∃ y, vis y = true ∧ replayMoves place (keptMoves place key others seen b values)
      (others.insertIdx (place others (values.getLastD b)) (values.getLastD b)) =
        others.insertIdx (place others b) y) ∧
      others.insertIdx (place others a) a = others.insertIdx went x := by
  have hlength := length_replayMoves hplace (keptMoves place key others seen b values)
    (others.insertIdx (place others (values.getLastD b)) (values.getLastD b))
  rw [List.length_insertIdx_of_le_length (hplace others _)] at hlength
  have hin : place others b < (replayMoves place (keptMoves place key others seen b values)
      (others.insertIdx (place others (values.getLastD b)) (values.getLastD b))).length := by
    rw [hlength]
    exact Nat.lt_succ_of_le (hplace others b)
  have hmoves : ∀ m ∈ keptMoves place key others seen b values, vis m.2 = true :=
    vis_of_mem_keptMoves hvalues
  obtain ⟨y, hy, hvisy⟩ := exists_mem_replayMoves hplace hmoves
    ⟨values.getLastD b, (List.mem_insertIdx (hplace others _)).mpr (Or.inl rfl),
      hvalues _ List.getLastD_mem_cons⟩
  have hfound := eq_insertIdx_of_moveTo hplace hothers hin hlength hy hvisy ha hx hwent hback
  rw [hfound, moveTo_insertIdx (hplace others b)] at hback
  exact ⟨⟨y, hvisy, hfound⟩, hback⟩

/-- A way back that ends with the others as they were is one that can be
retraced. -/
theorem retraceable_of_replayMoves (hplace : ∀ l a, place l a ≤ l.length)
    (hothers : ∀ b ∈ others, vis b = false) (hvalues : ∀ b ∈ a :: values, vis b = true)
    (hwent : went ≤ others.length) {x : α} (hx : vis x = true)
    (hback : replayMoves place (keptMoves place key others seen a values)
      (others.insertIdx (place others (values.getLastD a)) (values.getLastD a)) =
        others.insertIdx went x) : Retraceable place key others seen went a values := by
  induction values generalizing seen went a x with
  | nil =>
      obtain rfl := eq_of_insertIdx_eq (hplace others a) hwent hback
      exact hback
  | cons b values ih =>
      have hlater : ∀ c ∈ b :: values, vis c = true :=
        fun c hc => hvalues c (List.mem_cons_of_mem a hc)
      rw [keptMoves, List.getLastD_cons] at hback
      rw [Retraceable]
      split
      · rename_i hseen
        rw [if_pos hseen] at hback
        exact ih hlater hwent hx hback
      · rename_i hseen
        rw [if_neg hseen, replayMoves, List.foldr_cons, ← replayMoves] at hback
        obtain ⟨⟨y, hvisy, hfound⟩, hsame⟩ := found_of_moveTo hplace hothers
          (hvalues a List.mem_cons_self) hlater hwent hx hback
        obtain rfl := eq_of_insertIdx_eq (hplace others a) hwent hsame
        exact ⟨hsame, ih hlater (hplace others b) hvisy hfound⟩

end Back

end Retrace
