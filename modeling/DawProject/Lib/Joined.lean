import Mathlib.Data.List.Basic

/-!
Texts joined by a separator. When no part contains the separator the parts can
be read back, so two joined texts are equal only if their parts are. A decimal
number contains digits and a sign only, and is read back too.
-/

namespace Joined

section Parts

variable {α : Type} [DecidableEq α]

/-- A first part and further ones, each after a separator. -/
def joined (sep : α) (first : List α) (rest : List (List α)) : List α :=
  first ++ rest.flatMap fun part => sep :: part

omit [DecidableEq α] in
theorem joined_eq_intercalate (sep : α) (first : List α) (rest : List (List α)) :
    joined sep first rest = [sep].intercalate (first :: rest) := by
  induction rest generalizing first with
  | nil =>
      rw [List.intercalate_singleton]
      exact List.append_nil first
  | cons part rest ih =>
      rw [List.intercalate_cons_cons, ← ih part]
      simp only [joined, List.flatMap_cons, List.cons_append, List.nil_append, List.append_assoc]

theorem splitOn_joined (sep : α) (first : List α) (rest : List (List α)) (hfirst : sep ∉ first)
    (hrest : ∀ part ∈ rest, sep ∉ part) :
    (joined sep first rest).splitOn sep = first :: rest := by
  rw [joined_eq_intercalate]
  refine List.splitOn_intercalate sep ?_ (List.cons_ne_nil _ _)
  intro part hpart
  rcases List.mem_cons.mp hpart with rfl | hpart
  · exact hfirst
  · exact hrest part hpart

/-- No part of a split text contains the separator. -/
theorem not_mem_of_mem_splitOn {sep : α} {text part : List α} (hpart : part ∈ text.splitOn sep) :
    sep ∉ part := by
  induction text generalizing part with
  | nil =>
      rw [List.splitOn_nil, List.mem_singleton] at hpart
      rw [hpart]
      exact List.not_mem_nil
  | cons c text ih =>
      rw [List.splitOn_cons_eq_if_modifyHead] at hpart
      split at hpart
      · rcases List.mem_cons.mp hpart with rfl | hpart
        · exact List.not_mem_nil
        · exact ih hpart
      · rename_i hc
        cases hsplit : text.splitOn sep with
        | nil => exact absurd hsplit (List.splitOn_ne_nil sep text)
        | cons first rest =>
            rw [hsplit, List.modifyHead_cons] at hpart
            rcases List.mem_cons.mp hpart with rfl | hrest
            · intro hmem
              rcases List.mem_cons.mp hmem with rfl | hfirst
              · exact hc (beq_self_eq_true _)
              · exact ih (hsplit ▸ List.mem_cons_self) hfirst
            · exact ih (hsplit ▸ List.mem_cons_of_mem first hrest)

/-- Joined texts are equal only if their parts are. -/
theorem joined_inj {sep : α} {first first' : List α} {rest rest' : List (List α)}
    (hfirst : sep ∉ first) (hrest : ∀ part ∈ rest, sep ∉ part) (hfirst' : sep ∉ first')
    (hrest' : ∀ part ∈ rest', sep ∉ part) (heq : joined sep first rest = joined sep first' rest') :
    first = first' ∧ rest = rest' := by
  have hsplit := congrArg (List.splitOn sep) heq
  rw [splitOn_joined sep first rest hfirst hrest,
    splitOn_joined sep first' rest' hfirst' hrest'] at hsplit
  exact List.cons.inj hsplit

omit [DecidableEq α] in
/-- Another character is in a joined text only if it is in a part. -/
theorem not_mem_joined {sep c : α} {first : List α} {rest : List (List α)} (hne : c ≠ sep)
    (hfirst : c ∉ first) (hrest : ∀ part ∈ rest, c ∉ part) : c ∉ joined sep first rest := by
  intro hmem
  rcases List.mem_append.mp hmem with hmem | hmem
  · exact hfirst hmem
  · obtain ⟨part, hpart, hc⟩ := List.mem_flatMap.mp hmem
    rcases List.mem_cons.mp hc with hc | hc
    · exact hne hc
    · exact hrest part hpart hc

end Parts

section Lists

variable {α β γ δ : Type}

/-- Two lists whose parts are told apart by `p`. -/
theorem append_split {p : α → Bool} {l l' m m' : List α} (hl : ∀ a ∈ l, p a = true)
    (hl' : ∀ a ∈ l', p a = true) (hm : ∀ a ∈ m, p a = false) (hm' : ∀ a ∈ m', p a = false)
    (heq : l ++ m = l' ++ m') : l = l' ∧ m = m' := by
  have hfilter := congrArg (List.filter p) heq
  have hnone : ∀ k : List α, (∀ a ∈ k, p a = false) → k.filter p = [] := by
    intro k hk
    rw [List.filter_eq_nil_iff]
    intro a ha
    rw [hk a ha]
    exact Bool.false_ne_true
  rw [List.filter_append, List.filter_append, List.filter_eq_self.mpr hl,
    List.filter_eq_self.mpr hl', hnone m hm, hnone m' hm', List.append_nil,
    List.append_nil] at hfilter
  refine ⟨hfilter, ?_⟩
  rw [hfilter] at heq
  exact List.append_cancel_left heq

/-- What `f` and `g` tell of the elements determines `h`. -/
theorem map_eq_map_of_two {f : α → β} {g : α → γ} {h : α → δ} {l l' : List α}
    (hdetermined : ∀ a ∈ l, ∀ b ∈ l', f a = f b → g a = g b → h a = h b)
    (hf : l.map f = l'.map f) (hg : l.map g = l'.map g) : l.map h = l'.map h := by
  induction l generalizing l' with
  | nil =>
      cases l' with
      | nil => rfl
      | cons b l' => cases hf
  | cons a l ih =>
      cases l' with
      | nil => cases hf
      | cons b l' =>
          obtain ⟨hfa, hfl⟩ := List.cons.inj hf
          obtain ⟨hga, hgl⟩ := List.cons.inj hg
          rw [List.map_cons, List.map_cons,
            hdetermined a List.mem_cons_self b List.mem_cons_self hfa hga,
            ih (fun x hx y hy => hdetermined x (List.mem_cons_of_mem _ hx) y
              (List.mem_cons_of_mem _ hy)) hfl hgl]

theorem map_eq_map_of_one {f : α → β} {h : α → δ} {l l' : List α}
    (hdetermined : ∀ a ∈ l, ∀ b ∈ l', f a = f b → h a = h b) (hf : l.map f = l'.map f) :
    l.map h = l'.map h :=
  map_eq_map_of_two (fun a ha b hb hab _ => hdetermined a ha b hb hab) hf hf

end Lists

section Decimal

/-- The characters of a decimal number. -/
def decimal (n : Int) : List Char := n.repr.toList

theorem decimal_eq (n : Int) :
    decimal n = if 0 ≤ n then Nat.toDigits 10 n.toNat else '-' :: Nat.toDigits 10 (-n).toNat := by
  rw [decimal, Int.repr_eq_if]
  split
  · rw [Nat.toList_repr]
  · rw [String.toList_append, Nat.toList_repr]
    rfl

theorem toDigits_inj {m n : Nat} (heq : Nat.toDigits 10 m = Nat.toDigits 10 n) : m = n := by
  rw [← Nat.ofDigitChars_ten_toDigits (n := m), heq, Nat.ofDigitChars_ten_toDigits]

theorem not_mem_toDigits {c : Char} (hc : c.isDigit = false) (n : Nat) :
    c ∉ Nat.toDigits 10 n := by
  intro hmem
  rw [Nat.isDigit_of_mem_toDigits (by decide) (by decide) hmem] at hc
  cases hc

/-- A decimal number contains no character but digits and the sign. -/
theorem not_mem_decimal {c : Char} (hdigit : c.isDigit = false) (hsign : c ≠ '-') (n : Int) :
    c ∉ decimal n := by
  rw [decimal_eq]
  split
  · exact not_mem_toDigits hdigit _
  · intro hmem
    rcases List.mem_cons.mp hmem with hmem | hmem
    · exact hsign hmem
    · exact not_mem_toDigits hdigit _ hmem

theorem decimal_inj {m n : Int} (heq : decimal m = decimal n) : m = n := by
  have hsign : ∀ k j : Nat, Nat.toDigits 10 k ≠ '-' :: Nat.toDigits 10 j := by
    intro k j heq
    have hminus : '-' ∉ Nat.toDigits 10 k := not_mem_toDigits rfl k
    rw [heq] at hminus
    exact hminus List.mem_cons_self
  rw [decimal_eq, decimal_eq] at heq
  split at heq <;> split at heq
  · have hnat := toDigits_inj heq
    omega
  · exact absurd heq (hsign _ _)
  · exact absurd heq.symm (hsign _ _)
  · have hnat := toDigits_inj (List.cons.inj heq).2
    omega

end Decimal

end Joined
