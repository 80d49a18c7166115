import Mathlib.Algebra.Group.Nat.Defs
import Mathlib.Data.List.Basic

/-!
Causal maps of signals. A signal has a value at every moment from the first one
on; what a causal map returns at a moment is a function of the values up to it.
A stage keeps the values that it has been given and takes the next ones in
blocks, and stages in a row hand whole blocks to each other. However the blocks
are cut, the result is the signal of the maps one after the other.
-/

namespace Signals

variable {α : Type*}

/-- The values before the moment `n`, the newest first. -/
def history (x : ℕ → α) : ℕ → List α
  | 0 => []
  | n + 1 => x n :: history x n

/-- The output for a value and for those before it, the newest first. -/
abbrev CausalMap (α : Type*) := α → List α → α

def respond (f : CausalMap α) (x : ℕ → α) (n : ℕ) : α := f (x n) (history x n)

/-- The maps one after the other. -/
def cascade (fs : List (CausalMap α)) (x : ℕ → α) : ℕ → α :=
  fs.foldl (fun x f => respond f x) x

/-- The `count` values from the moment `n` on. -/
def window (x : ℕ → α) (n count : ℕ) : List α := (List.range count).map fun i => x (n + i)

/-- A map with the values that it has been given, the newest first. -/
structure Stage (α : Type*) where
  map : CausalMap α
  past : List α := []

/-- A block, value by value. -/
def Stage.run (stage : Stage α) : List α → Stage α × List α
  | [] => (stage, [])
  | x :: block =>
      let (last, out) := Stage.run { stage with past := x :: stage.past } block
      (last, stage.map x stage.past :: out)

/-- Each stage takes the whole block before the next one does. -/
def runStages : List (Stage α) → List α → List (Stage α) × List α
  | [], block => ([], block)
  | stage :: stages, block =>
      let (stage, out) := stage.run block
      let (stages, out) := runStages stages out
      (stage :: stages, out)

/-- The stages before the moment `n` of the signal that the first one takes. -/
def stagesAt : List (CausalMap α) → (ℕ → α) → ℕ → List (Stage α)
  | [], _, _ => []
  | f :: fs, x, n => { map := f, past := history x n } :: stagesAt fs (respond f x) n

variable {f : CausalMap α} {fs gs : List (CausalMap α)} {x y : ℕ → α} {n : ℕ}

section Causality

theorem history_congr (hsame : ∀ k < n, x k = y k) : history x n = history y n := by
  induction n with
  | zero => rfl
  | succ n ih =>
      rw [history, history, hsame n (Nat.lt_succ_self n)]
      rw [ih fun k hk => hsame k (Nat.lt_succ_of_lt hk)]

/-- Two signals that agree up to a moment have the same response there. -/
theorem respond_congr (hsame : ∀ k ≤ n, x k = y k) : respond f x n = respond f y n := by
  rw [respond, respond, hsame n (Nat.le_refl n)]
  rw [history_congr fun k hk => hsame k (Nat.le_of_lt hk)]

theorem cascade_congr (hsame : ∀ k ≤ n, x k = y k) : cascade fs x n = cascade fs y n := by
  induction fs generalizing x y with
  | nil => exact hsame n (Nat.le_refl n)
  | cons f fs ih =>
      apply ih
      intro k hk
      exact respond_congr fun j hj => hsame j (Nat.le_trans hj hk)

theorem cascade_append : cascade (fs ++ gs) x = cascade gs (cascade fs x) :=
  List.foldl_append

end Causality

section Blocks

variable {count : ℕ}

@[simp] theorem window_zero : window x n 0 = [] := rfl

@[simp] theorem length_window : (window x n count).length = count := by
  rw [window, List.length_map, List.length_range]

theorem window_succ : window x n (count + 1) = x n :: window x (n + 1) count := by
  rw [window, window, List.range_succ_eq_map, List.map_cons, List.map_map, Nat.add_zero]
  congr 1
  apply List.map_congr_left
  intro i _
  show x (n + (i + 1)) = x (n + 1 + i)
  rw [Nat.add_right_comm, Nat.add_assoc]

theorem window_add {more : ℕ} :
    window x n (count + more) = window x n count ++ window x (n + count) more := by
  rw [window, List.range_add, List.map_append, List.map_map]
  congr 1
  apply List.map_congr_left
  intro i _
  show x (n + (count + i)) = x (n + count + i)
  rw [Nat.add_assoc]

theorem window_congr (hsame : ∀ i < count, x (n + i) = y (n + i)) :
    window x n count = window y n count :=
  List.map_congr_left fun i hi => hsame i (List.mem_range.mp hi)

theorem getD_window {i : ℕ} (hi : i < count) (d : α) : (window x n count).getD i d = x (n + i) := by
  rw [List.getD_eq_getElem?_getD, window, List.getElem?_map, List.getElem?_range hi]
  rfl

theorem map_window {β : Type*} (g : α → β) :
    (window x n count).map g = window (fun k => g (x k)) n count :=
  List.map_map

theorem zipWith_window (op : α → α → α) :
    List.zipWith op (window x n count) (window y n count) =
      window (fun k => op (x k) (y k)) n count := by
  rw [window, window, List.zipWith_map, List.zipWith_self]
  rfl

/-- A stage is at the next moments after a block of them. -/
theorem run_window : Stage.run { map := f, past := history x n } (window x n count) =
    ({ map := f, past := history x (n + count) }, window (respond f x) n count) := by
  induction count generalizing n with
  | zero => rfl
  | succ count ih =>
      rw [window_succ, window_succ, Stage.run]
      have hnext := @ih (n + 1)
      rw [history] at hnext
      rw [hnext, Nat.add_right_comm n 1 count]
      rfl

theorem runStages_window : runStages (stagesAt fs x n) (window x n count) =
    (stagesAt fs x (n + count), window (cascade fs x) n count) := by
  induction fs generalizing x with
  | nil => rfl
  | cons f fs ih =>
      rw [stagesAt, runStages, run_window]
      simp only [ih]
      rfl

/-- Before the first moment nothing has been given. -/
theorem stagesAt_zero : stagesAt fs x 0 = fs.map fun f => { map := f } := by
  induction fs generalizing x with
  | nil => rfl
  | cons f fs ih => rw [stagesAt, ih, List.map_cons, history]

end Blocks

end Signals
