import Mathlib.Data.List.Basic

/-!
Records in a list, addressed by a predicate: `find` and the write on the
record found, which leave the others and their order alone. Two lists keep the
records of their keys when the first records found are related, key by key.
-/

namespace Keyed

variable {α : Type*}

/-- Rewrite the first element that satisfies `p`. -/
def updateFirst (p : α → Bool) (f : α → α) : List α → List α
  | [] => []
  | a :: l => if p a then f a :: l else a :: updateFirst p f l

theorem filter_updateFirst {p q : α → Bool} {f : α → α} {l : List α}
    (hf : ∀ a, p a = true → (q a = false ∧ q (f a) = false) ∨ f a = a) :
    (updateFirst p f l).filter q = l.filter q := by
  induction l with
  | nil => rfl
  | cons a l ih =>
      rw [updateFirst]
      split
      · rename_i hp
        rcases hf a hp with ⟨hbefore, hafter⟩ | hsame
        · rw [List.filter_cons_of_neg (by rw [hafter]; nofun),
            List.filter_cons_of_neg (by rw [hbefore]; nofun)]
        · rw [hsame]
      · rw [List.filter_cons, List.filter_cons, ih]

theorem mem_updateFirst {p : α → Bool} {f : α → α} {l : List α} {b : α}
    (hb : b ∈ updateFirst p f l) : b ∈ l ∨ ∃ a, l.find? p = some a ∧ b = f a := by
  induction l with
  | nil => cases hb
  | cons a l ih =>
      rw [updateFirst] at hb
      split at hb
      · rename_i hp
        rcases List.mem_cons.mp hb with rfl | hrest
        · exact Or.inr ⟨a, List.find?_cons_of_pos hp, rfl⟩
        · exact Or.inl (List.mem_cons_of_mem a hrest)
      · rename_i hp
        rcases List.mem_cons.mp hb with rfl | hrest
        · exact Or.inl List.mem_cons_self
        · rcases ih hrest with hold | ⟨a', hfind, heq⟩
          · exact Or.inl (List.mem_cons_of_mem a hold)
          · exact Or.inr ⟨a', by rwa [List.find?_cons_of_neg hp], heq⟩

theorem mem_updateFirst_of_find {p : α → Bool} {f : α → α} {l : List α} {a : α}
    (hfind : l.find? p = some a) : f a ∈ updateFirst p f l := by
  induction l with
  | nil => cases hfind
  | cons b l ih =>
      rw [updateFirst]
      split
      · rename_i hp
        rw [List.find?_cons_of_pos hp] at hfind
        obtain rfl := Option.some.inj hfind
        exact List.mem_cons_self
      · rename_i hp
        rw [List.find?_cons_of_neg hp] at hfind
        exact List.mem_cons_of_mem b (ih hfind)

/-- Two writes on one record are one. -/
theorem updateFirst_updateFirst {p : α → Bool} {f g : α → α} {l : List α}
    (hf : ∀ a, p a = true → p (f a) = true) :
    updateFirst p g (updateFirst p f l) = updateFirst p (fun a => g (f a)) l := by
  induction l with
  | nil => rfl
  | cons a l ih =>
      rw [updateFirst, updateFirst]
      split
      · rename_i hp
        rw [updateFirst, if_pos (hf a hp)]
      · rename_i hp
        rw [updateFirst, if_neg hp, ih]

/-- Two writes agree when they agree on the record found. -/
theorem updateFirst_eq_iff {p : α → Bool} {f g : α → α} {l : List α} :
    updateFirst p f l = updateFirst p g l ↔ ∀ a, l.find? p = some a → f a = g a := by
  induction l with
  | nil => simp [updateFirst]
  | cons a l ih =>
      rw [updateFirst, updateFirst]
      split
      · rename_i hp
        rw [List.find?_cons_of_pos hp]
        simp
      · rename_i hp
        rw [List.find?_cons_of_neg hp, List.cons.injEq, ← ih]
        simp

theorem updateFirst_id (p : α → Bool) (l : List α) : updateFirst p (fun a => a) l = l := by
  induction l with
  | nil => rfl
  | cons a l ih =>
      rw [updateFirst, ih]
      split <;> rfl

/-- A write leaves the list as it is when it leaves the record found. -/
theorem updateFirst_eq_self_iff {p : α → Bool} {f : α → α} {l : List α} :
    updateFirst p f l = l ↔ ∀ a, l.find? p = some a → f a = a := by
  have hcongr := updateFirst_eq_iff (p := p) (f := f) (g := fun a => a) (l := l)
  rwa [updateFirst_id] at hcongr

/-- An element that two predicates find is found by either after a write for the other. -/
theorem find?_updateFirst_of_same {p q : α → Bool} {f : α → α} {l : List α} {a : α}
    (hp : l.find? p = some a) (hq : l.find? q = some a) (hf : q (f a) = true) :
    (updateFirst p f l).find? q = some (f a) := by
  have hpa := List.find?_some hp
  have hqa := List.find?_some hq
  induction l with
  | nil => cases hp
  | cons b l ih =>
      rw [updateFirst]
      rw [List.find?_cons] at hp hq
      split
      · rename_i hb
        rw [hb] at hp
        obtain rfl := Option.some.inj hp
        rw [List.find?_cons, hf]
      · rename_i hb
        rw [Bool.not_eq_true] at hb
        rw [hb] at hp
        have hqb : q b = false := by
          rw [Bool.eq_false_iff]
          intro hqb
          rw [hqb] at hq
          obtain rfl := Option.some.inj hq
          rw [hb] at hpa
          cases hpa
        rw [hqb] at hq
        rw [List.find?_cons, hqb]
        exact ih hp hq

theorem filter_eraseP {p q : α → Bool} {l : List α} (hpq : ∀ a, p a = true → q a = false) :
    (l.eraseP p).filter q = l.filter q := by
  induction l with
  | nil => rfl
  | cons a l ih =>
      rw [List.eraseP_cons]
      cases hp : p a with
      | true =>
          rw [List.filter_cons_of_neg (by rw [hpq a hp]; nofun)]
          rfl
      | false =>
          rw [cond_false, List.filter_cons, List.filter_cons, ih]

section Single

variable {p : α → Bool} {f : α → α} {l : List α} {a : α}

/-- The only element that satisfies `p`, and the others. -/
theorem perm_eraseP_of_single (hsingle : l.filter p = [a]) :
    l.Perm (a :: l.eraseP p) ∧ (l.eraseP p).filter p = [] := by
  induction l with
  | nil => cases hsingle
  | cons b l ih =>
      rw [List.filter_cons] at hsingle
      split at hsingle
      · rename_i hb
        obtain ⟨rfl, hrest⟩ := List.cons.inj hsingle
        rw [List.eraseP_cons_of_pos hb]
        exact ⟨.refl _, hrest⟩
      · rename_i hb
        obtain ⟨hperm, hnone⟩ := ih hsingle
        rw [List.eraseP_cons_of_neg hb]
        exact ⟨(hperm.cons b).trans (.swap a b _), by rwa [List.filter_cons_of_neg hb]⟩

theorem perm_updateFirst_of_single (hsingle : l.filter p = [a]) :
    (updateFirst p f l).Perm (f a :: l.eraseP p) := by
  induction l with
  | nil => cases hsingle
  | cons b l ih =>
      rw [List.filter_cons] at hsingle
      rw [updateFirst]
      split at hsingle
      · rename_i hb
        obtain ⟨rfl, _⟩ := List.cons.inj hsingle
        rw [if_pos hb, List.eraseP_cons_of_pos hb]
      · rename_i hb
        rw [if_neg hb, List.eraseP_cons_of_neg hb]
        exact ((ih hsingle).cons b).trans (.swap (f a) b _)

theorem find_of_single (hsingle : l.filter p = [a]) : l.find? p = some a := by
  rw [← List.head?_filter, hsingle]
  rfl

end Single

section Find

variable {κ : Type*} [BEq κ] [LawfulBEq κ] {key : α → κ}

/-- The first record under a key. -/
def find (key : α → κ) (k : κ) (l : List α) : Option α := l.find? fun a => key a == k

variable {k k' : κ} {a : α} {l l' : List α} {f : α → α}

theorem key_of_find (hfind : find key k l = some a) : key a = k := by
  have hfound : (key a == k) = true := List.find?_some (p := fun a => key a == k) hfind
  exact beq_iff_eq.mp hfound

theorem find_cons_of_ne (hne : key a ≠ k) : find key k (a :: l) = find key k l :=
  List.find?_cons_of_neg (by rwa [beq_iff_eq])

theorem find_cons_of_eq (heq : key a = k) : find key k (a :: l) = some a :=
  List.find?_cons_of_pos (beq_iff_eq.mpr heq)

theorem find_updateFirst_self (hkey : ∀ a, key (f a) = key a) :
    find key k (updateFirst (fun a => key a == k) f l) = (find key k l).map f := by
  induction l with
  | nil => rfl
  | cons a l ih =>
      rw [updateFirst]
      by_cases ha : key a = k
      · rw [if_pos (beq_iff_eq.mpr ha), find_cons_of_eq (by rwa [hkey]), find_cons_of_eq ha,
          Option.map_some]
      · rw [if_neg (by rwa [beq_iff_eq]), find_cons_of_ne ha, find_cons_of_ne ha, ih]

theorem find_updateFirst_of_ne (hkey : ∀ a, key (f a) = key a) (hne : k ≠ k') :
    find key k (updateFirst (fun a => key a == k') f l) = find key k l := by
  induction l with
  | nil => rfl
  | cons a l ih =>
      rw [updateFirst]
      by_cases ha : key a = k'
      · have hk : key a ≠ k := fun heq => hne (heq.symm.trans ha)
        rw [if_pos (beq_iff_eq.mpr ha), find_cons_of_ne (by rwa [hkey]), find_cons_of_ne hk]
      · rw [if_neg (by rwa [beq_iff_eq])]
        by_cases hk : key a = k
        · rw [find_cons_of_eq hk, find_cons_of_eq hk]
        · rw [find_cons_of_ne hk, find_cons_of_ne hk, ih]

/-- Where the keys are distinct, a write on one key is a map. -/
theorem updateFirst_eq_map (hkeys : (l.map key).Nodup) :
    updateFirst (fun a => key a == k) f l = l.map fun a => if key a == k then f a else a := by
  induction l with
  | nil => rfl
  | cons a l ih =>
      rw [List.map_cons, List.nodup_cons] at hkeys
      rw [updateFirst, List.map_cons]
      split
      · rename_i ha
        have hrest : ∀ b ∈ l, (if key b == k then f b else b) = b := by
          intro b hb
          rw [if_neg]
          rw [beq_iff_eq] at ha ⊢
          intro hbk
          exact hkeys.1 (List.mem_map.mpr ⟨b, hb, hbk.trans ha.symm⟩)
        rw [List.map_congr_left hrest, List.map_id']
      · rw [ih hkeys.2]

theorem find_append_of_ne (hne : key a ≠ k) : find key k (l ++ [a]) = find key k l := by
  rw [find, List.find?_append, List.find?_cons_of_neg (by rwa [beq_iff_eq]), List.find?_nil,
    Option.or_none, find]

theorem find_insertIdx_of_ne (hne : key a ≠ k) (i : Nat) :
    find key k (l.insertIdx i a) = find key k l := by
  induction l generalizing i with
  | nil =>
      cases i with
      | zero => exact find_cons_of_ne hne
      | succ i => rfl
  | cons b l ih =>
      cases i with
      | zero => exact find_cons_of_ne hne
      | succ i =>
          rw [List.insertIdx_succ_cons]
          by_cases hb : key b = k
          · rw [find_cons_of_eq hb, find_cons_of_eq hb]
          · rw [find_cons_of_ne hb, find_cons_of_ne hb, ih]

theorem find_eraseP_of_ne (hne : k ≠ k') :
    find key k (l.eraseP fun a => key a == k') = find key k l := by
  induction l with
  | nil => rfl
  | cons a l ih =>
      rw [List.eraseP_cons]
      by_cases ha : key a = k'
      · rw [beq_iff_eq.mpr ha, cond_true, find_cons_of_ne]
        rw [ha]
        exact hne.symm
      · rw [beq_eq_false_iff_ne.mpr ha, cond_false]
        by_cases hk : key a = k
        · rw [find_cons_of_eq hk, find_cons_of_eq hk]
        · rw [find_cons_of_ne hk, find_cons_of_ne hk, ih]

/-- A filter that spares the first record under a key. -/
theorem find_filter {p : α → Bool} (hp : ∀ a, find key k l = some a → p a = true) :
    find key k (l.filter p) = find key k l := by
  induction l with
  | nil => rfl
  | cons a l ih =>
      by_cases hk : key a = k
      · rw [List.filter_cons_of_pos (hp a (find_cons_of_eq hk)), find_cons_of_eq hk,
          find_cons_of_eq hk]
      · have hrest : find key k (l.filter p) = find key k l :=
          ih fun b hb => hp b (by rwa [find_cons_of_ne hk])
        rw [List.filter_cons]
        split
        · rw [find_cons_of_ne hk, find_cons_of_ne hk, hrest]
        · rw [find_cons_of_ne hk, hrest]

theorem find_map (hkey : ∀ a, key (f a) = key a) :
    find key k (l.map f) = (find key k l).map f := by
  induction l with
  | nil => rfl
  | cons a l ih =>
      rw [List.map_cons]
      by_cases hk : key a = k
      · rw [find_cons_of_eq hk, find_cons_of_eq (by rwa [hkey]), Option.map_some]
      · rw [find_cons_of_ne hk, find_cons_of_ne (by rwa [hkey]), ih]

end Find

section Kept

variable {κ : Type*} [BEq κ] {key : α → κ} {R : κ → α → α → Prop} {skip skip' : κ → Prop}

/-- The first records under one key are related, the keys of `skip` apart. -/
def Kept (key : α → κ) (R : κ → α → α → Prop) (skip : κ → Prop) (l l' : List α) : Prop :=
  ∀ k, ¬skip k → Option.Rel (R k) (find key k l) (find key k l')

variable {l l' l'' : List α} {a : α} {k : κ} {f : α → α}

theorem rel_of_eq {r : α → α → Prop} (hrefl : ∀ a, r a a) {o o' : Option α} (heq : o' = o) :
    Option.Rel r o o' := by
  subst heq
  cases o' with
  | none => exact .none
  | some a => exact .some (hrefl a)

theorem rel_map {r : α → α → Prop} {o : Option α} (hf : ∀ a, o = some a → r a (f a)) :
    Option.Rel r o (o.map f) := by
  cases o with
  | none => exact .none
  | some a => exact .some (hf a rfl)

theorem rel_trans {r s t : α → α → Prop} {o o' o'' : Option α}
    (htrans : ∀ a b c, r a b → s b c → t a c) (h : Option.Rel r o o') (h' : Option.Rel s o' o'') :
    Option.Rel t o o'' := by
  cases h with
  | none =>
      cases h'
      exact .none
  | some hr =>
      cases h' with
      | some hs => exact .some (htrans _ _ _ hr hs)

theorem Kept.of_find (hrefl : ∀ k a, R k a a)
    (hfind : ∀ k, ¬skip k → find key k l' = find key k l) : Kept key R skip l l' :=
  fun k hk => rel_of_eq (hrefl k) (hfind k hk)

theorem Kept.refl (hrefl : ∀ k a, R k a a) (l : List α) : Kept key R skip l l :=
  .of_find hrefl fun _ _ => rfl

/-- The second list may skip more, unless it has a related record. -/
theorem Kept.trans_of {S Q : κ → α → α → Prop}
    (htrans : ∀ k a b c, R k a b → S k b c → Q k a c)
    (hskip : ∀ k, ¬skip k → Option.Rel (R k) (find key k l) (find key k l') → ¬skip' k)
    (h : Kept key R skip l l') (h' : Kept key S skip' l' l'') : Kept key Q skip l l'' := by
  intro k hk
  have hfirst := h k hk
  exact rel_trans (htrans k) hfirst (h' k (hskip k hk hfirst))

theorem Kept.trans (htrans : ∀ k a b c, R k a b → R k b c → R k a c)
    (h : Kept key R skip l l') (h' : Kept key R skip l' l'') : Kept key R skip l l'' :=
  h.trans_of htrans (fun _ hk _ => hk) h'

theorem Kept.mono {S : κ → α → α → Prop} (hR : ∀ k a b, R k a b → S k a b)
    (hskip : ∀ k, skip k → skip' k) (h : Kept key R skip l l') : Kept key S skip' l l' := by
  intro k hk
  have hrel := h k fun hs => hk (hskip k hs)
  cases hfirst : find key k l <;> cases hsecond : find key k l' <;>
    rw [hfirst, hsecond] at hrel <;> cases hrel
  · exact .none
  · exact .some (hR k _ _ ‹_›)

variable [LawfulBEq κ]

theorem Kept.updateFirst (hrefl : ∀ k a, R k a a) (hkey : ∀ a, key (f a) = key a)
    (hf : ¬skip k → ∀ a, find key k l = some a → R k a (f a)) :
    Kept key R skip l (updateFirst (fun a => key a == k) f l) := by
  intro k' hk'
  by_cases heq : k' = k
  · subst heq
    rw [find_updateFirst_self hkey]
    exact rel_map (hf hk')
  · rw [find_updateFirst_of_ne hkey heq]
    exact rel_of_eq (hrefl k') rfl

theorem Kept.map (hkey : ∀ a, key (f a) = key a) (hf : ∀ k a, R k a (f a)) :
    Kept key R skip l (l.map f) := by
  intro k _
  rw [find_map hkey]
  exact rel_map fun a _ => hf k a

theorem Kept.append (hrefl : ∀ k a, R k a a) (ha : skip (key a)) :
    Kept key R skip l (l ++ [a]) := by
  apply Kept.of_find hrefl
  intro k hk
  apply find_append_of_ne
  rintro rfl
  exact hk ha

theorem Kept.insertIdx (hrefl : ∀ k a, R k a a) (ha : skip (key a)) (i : Nat) :
    Kept key R skip l (l.insertIdx i a) := by
  apply Kept.of_find hrefl
  intro k hk
  apply find_insertIdx_of_ne
  rintro rfl
  exact hk ha

theorem Kept.eraseP (hrefl : ∀ k a, R k a a) (hk : skip k) :
    Kept key R skip l (l.eraseP fun a => key a == k) := by
  apply Kept.of_find hrefl
  intro k' hk'
  apply find_eraseP_of_ne
  rintro rfl
  exact hk' hk

theorem Kept.filter (hrefl : ∀ k a, R k a a) {p : α → Bool}
    (hp : ∀ k a, ¬skip k → find key k l = some a → p a = true) :
    Kept key R skip l (l.filter p) := by
  apply Kept.of_find hrefl
  intro k hk
  exact find_filter fun a => hp k a hk

end Kept

end Keyed
