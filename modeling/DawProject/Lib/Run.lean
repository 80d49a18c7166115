import Mathlib.Logic.Relation

/-!
Runs of a step relation. What holds in the first state and is kept by every
step holds in every state a run reaches.
-/

namespace Run

variable {σ : Type*} {step : σ → σ → Prop}

/-- The states a run from `s` can reach. -/
abbrev Reaches (step : σ → σ → Prop) : σ → σ → Prop := Relation.ReflTransGen step

theorem Reaches.invariant {P : σ → Prop} {s t : σ} (hrun : Reaches step s t) (hstart : P s)
    (hstep : ∀ a b, step a b → P a → P b) : P t := by
  induction hrun with
  | refl => exact hstart
  | tail _ hlast ih => exact hstep _ _ hlast ih

/-- Taking labelled steps one after the other is a run. -/
theorem Reaches.of_foldlM {ℓ : Type*} {act : σ → ℓ → Option σ}
    (hact : ∀ s l t, act s l = some t → step s t) {ls : List ℓ} {s t : σ}
    (hrun : ls.foldlM act s = some t) : Reaches step s t := by
  induction ls generalizing s with
  | nil =>
      obtain rfl := Option.some.inj hrun
      exact Relation.ReflTransGen.refl
  | cons l ls ih =>
      rw [List.foldlM_cons] at hrun
      obtain ⟨mid, hmid, hrest⟩ := Option.bind_eq_some_iff.mp hrun
      exact Relation.ReflTransGen.head (hact s l mid hmid) (ih hrest)

end Run
