import Mathlib.Data.List.Basic

/-!
A text read piece by piece up to a delimiter. A piece that a delimiter ends is
read even when it is empty; what is left at the end of the text is a piece only
when it is not.
-/

namespace Delimited

variable {α : Type*} [DecidableEq α]

/-- The pieces up to the end of the text. -/
def pieces (d : α) : List α → List (List α)
  | [] => []
  | c :: text =>
      if c = d then [] :: pieces d text
      else
        match pieces d text with
        | [] => [[c]]
        | piece :: rest => (c :: piece) :: rest

/-- The pieces, each with its delimiter. -/
def terminated (d : α) (l : List (List α)) : List α := l.flatMap fun piece => piece ++ [d]

variable {d : α} {piece text : List α} {l : List (List α)}

@[simp] theorem pieces_nil : pieces d ([] : List α) = [] := rfl

@[simp] theorem pieces_cons_self : pieces d (d :: text) = [] :: pieces d text := if_pos rfl

theorem pieces_cons_of_ne {c : α} (hne : c ≠ d) :
    pieces d (c :: text) =
      match pieces d text with
      | [] => [[c]]
      | piece :: rest => (c :: piece) :: rest :=
  if_neg hne

/-- A piece is read up to its delimiter. -/
@[simp] theorem pieces_append_cons (hpiece : d ∉ piece) :
    pieces d (piece ++ d :: text) = piece :: pieces d text := by
  induction piece with
  | nil => exact pieces_cons_self
  | cons c piece ih =>
      rw [List.cons_append, pieces_cons_of_ne (Ne.symm (List.ne_of_not_mem_cons hpiece)),
        ih (List.not_mem_of_not_mem_cons hpiece)]

/-- The last piece has no delimiter. -/
theorem pieces_of_not_mem (hpiece : d ∉ piece) :
    pieces d piece = if piece = [] then [] else [piece] := by
  induction piece with
  | nil => rfl
  | cons c piece ih =>
      rw [pieces_cons_of_ne (Ne.symm (List.ne_of_not_mem_cons hpiece)),
        ih (List.not_mem_of_not_mem_cons hpiece), if_neg (List.cons_ne_nil c piece)]
      cases piece with
      | nil => rfl
      | cons c' piece => rfl

/-- The characters of a piece are those of the text, the delimiter apart. -/
theorem mem_of_mem_pieces {c : α} (hpiece : piece ∈ pieces d text) (hc : c ∈ piece) :
    c ∈ text ∧ c ≠ d := by
  induction text generalizing piece c with
  | nil => cases hpiece
  | cons first text ih =>
      by_cases hfirst : first = d
      · subst hfirst
        rw [pieces_cons_self] at hpiece
        rcases List.mem_cons.mp hpiece with rfl | hrest
        · cases hc
        · obtain ⟨hmem, hne⟩ := ih hrest hc
          exact ⟨List.mem_cons_of_mem _ hmem, hne⟩
      · rw [pieces_cons_of_ne hfirst] at hpiece
        cases hpieces : pieces d text with
        | nil =>
            rw [hpieces, List.mem_singleton] at hpiece
            rw [hpiece, List.mem_singleton] at hc
            rw [hc]
            exact ⟨List.mem_cons_self, hfirst⟩
        | cons begun rest =>
            rw [hpieces] at hpiece ih
            rcases List.mem_cons.mp hpiece with rfl | hrest
            · rcases List.mem_cons.mp hc with rfl | hbegun
              · exact ⟨List.mem_cons_self, hfirst⟩
              · obtain ⟨hmem, hne⟩ := ih List.mem_cons_self hbegun
                exact ⟨List.mem_cons_of_mem first hmem, hne⟩
            · obtain ⟨hmem, hne⟩ := ih (List.mem_cons_of_mem begun hrest) hc
              exact ⟨List.mem_cons_of_mem first hmem, hne⟩

theorem not_mem_of_mem_pieces (hpiece : piece ∈ pieces d text) : d ∉ piece :=
  fun hd => (mem_of_mem_pieces hpiece hd).2 rfl

/-- Pieces that are written with their delimiters are read back. -/
theorem pieces_terminated (hl : ∀ piece ∈ l, d ∉ piece) : pieces d (terminated d l) = l := by
  induction l with
  | nil => rfl
  | cons piece l ih =>
      obtain ⟨hpiece, hrest⟩ := List.forall_mem_cons.mp hl
      rw [terminated, List.flatMap_cons, List.append_assoc, List.singleton_append,
        pieces_append_cons hpiece]
      exact congrArg (piece :: ·) (ih hrest)

end Delimited
