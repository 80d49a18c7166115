import Mathlib.Data.List.Basic

/-!
Programs that leave a trace, and see the trace so far: what they add to it at
most, what they add for sure, and what they return.
-/

namespace Traced

/-- After a trace: the result, and the entries that come after it. -/
structure Program (ε α : Type) where
  run : List ε → α × List ε

instance (ε : Type) : Monad (Program ε) where
  pure a := ⟨fun _ => (a, [])⟩
  bind m f := ⟨fun trace =>
    let first := m.run trace
    let second := (f first.1).run (trace ++ first.2)
    (second.1, first.2 ++ second.2)⟩

section Operations

variable {ε α : Type}

/-- One more entry. -/
def emit (e : ε) : Program ε Unit := ⟨fun _ => ((), [e])⟩

/-- A value that may depend on what went before. -/
def observe (f : List ε → α) : Program ε α := ⟨fun trace => (f trace, [])⟩

/-- All the entries are in `P`. -/
def Within (P : ε → Prop) (m : Program ε α) : Prop := ∀ trace, ∀ e ∈ (m.run trace).2, P e

/-- Some entry is in `P`, whatever went before. -/
def Adds (P : ε → Prop) (m : Program ε α) : Prop := ∀ trace, ∃ e ∈ (m.run trace).2, P e

/-- The result is in `Q`, whatever went before. -/
def Returns (Q : α → Prop) (m : Program ε α) : Prop := ∀ trace, Q (m.run trace).1

end Operations

section Rules

variable {ε α β γ : Type} {P : ε → Prop} {Q : α → Prop} {m : Program ε α}
  {f : α → Program ε β} {xs : List γ} {body : γ → Program ε Unit}

theorem within_pure (a : α) : Within P (pure a : Program ε α) := by
  intro trace e he
  cases he

theorem within_bind (hm : Within P m) (hf : ∀ a, Within P (f a)) : Within P (m >>= f) := by
  intro trace e he
  rcases List.mem_append.mp he with hfirst | hsecond
  · exact hm trace e hfirst
  · exact hf _ _ e hsecond

theorem within_emit {e : ε} (he : P e) : Within P (emit e) := by
  intro trace e' he'
  rw [List.mem_singleton.mp he']
  exact he

theorem within_observe (g : List ε → α) : Within P (observe g) := by
  intro trace e he
  cases he

theorem within_forM (hbody : ∀ x ∈ xs, Within P (body x)) : Within P (forM xs body) := by
  induction xs with
  | nil => exact within_pure _
  | cons x xs ih =>
      rw [List.forM_cons]
      apply within_bind (hbody x List.mem_cons_self)
      intro _
      exact ih fun x' hx' => hbody x' (List.mem_cons_of_mem x hx')

theorem returns_pure {a : α} (ha : Q a) : Returns Q (pure a : Program ε α) := fun _ => ha

theorem returns_bind {R : β → Prop} (hm : Returns Q m) (hf : ∀ a, Q a → Returns R (f a)) :
    Returns R (m >>= f) :=
  fun trace => hf _ (hm trace) _

theorem returns_observe {g : List ε → α} (hg : ∀ trace, Q (g trace)) : Returns Q (observe g) := hg

/-- Any result will do. -/
theorem returns_any (m : Program ε α) : Returns (fun _ => True) m := fun _ => trivial

theorem adds_emit {e : ε} (he : P e) : Adds P (emit e) :=
  fun _ => ⟨e, List.mem_singleton_self e, he⟩

theorem adds_bind_left (hm : Adds P m) : Adds P (m >>= f) := by
  intro trace
  obtain ⟨e, he, hP⟩ := hm trace
  exact ⟨e, List.mem_append_left _ he, hP⟩

/-- What the second part adds, after the results that the first part has. -/
theorem adds_bind_right (hm : Returns Q m) (hf : ∀ a, Q a → Adds P (f a)) : Adds P (m >>= f) := by
  intro trace
  obtain ⟨e, he, hP⟩ := hf _ (hm trace) _
  exact ⟨e, List.mem_append_right _ he, hP⟩

theorem adds_forM {x : γ} (hx : x ∈ xs) (hbody : Adds P (body x)) : Adds P (forM xs body) := by
  induction xs with
  | nil => cases hx
  | cons x' xs ih =>
      rw [List.forM_cons]
      rcases List.mem_cons.mp hx with rfl | hx
      · exact adds_bind_left hbody
      · exact adds_bind_right (returns_any _) fun _ _ => ih hx

end Rules

end Traced
