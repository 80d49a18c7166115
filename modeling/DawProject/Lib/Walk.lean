import Mathlib.Data.List.Nodup
import Mathlib.Tactic.Common

/-!
A pass over a list that collects faults. Each element is checked in the state
that the elements before it have left, such as the ids seen so far. The pass
finds nothing when each element is accepted in its state; when the state is the
ids seen, that is when each element is sound and no id comes twice.
-/

namespace Walk

section Walk

variable {σ α ε : Type*}

/-- `step` takes the index of an element and the state it is met in. -/
def walk (step : Nat → σ → α → List ε × σ) : Nat → σ → List α → List ε × σ
  | _, s, [] => ([], s)
  | i, s, a :: as =>
      ((step i s a).1 ++ (walk step (i + 1) (step i s a).2 as).1,
        (walk step (i + 1) (step i s a).2 as).2)

/-- Each element is accepted in the state it is met in. -/
def Accepted (ok : σ → α → Prop) (next : σ → α → σ) : σ → List α → Prop
  | _, [] => True
  | s, a :: as => ok s a ∧ Accepted ok next (next s a) as

variable {step : Nat → σ → α → List ε × σ} {ok : σ → α → Prop} {next : σ → α → σ}

theorem walk_eq_nil_iff (hok : ∀ i s a, (step i s a).1 = [] ↔ ok s a)
    (hnext : ∀ i s a, (step i s a).1 = [] → (step i s a).2 = next s a) (i : Nat) (s : σ)
    (as : List α) : (walk step i s as).1 = [] ↔ Accepted ok next s as := by
  induction as generalizing i s with
  | nil => exact iff_of_true rfl trivial
  | cons a as ih =>
      rw [walk, Accepted, List.append_eq_nil_iff, ← hok i s a, ih]
      refine and_congr_right fun hnone => ?_
      rw [hnext i s a hnone]

/-- The state after a pass that finds nothing. -/
theorem walk_state (hnext : ∀ i s a, (step i s a).1 = [] → (step i s a).2 = next s a) {i : Nat}
    {s : σ} {as : List α} (hnone : (walk step i s as).1 = []) :
    (walk step i s as).2 = as.foldl next s := by
  induction as generalizing i s with
  | nil => rfl
  | cons a as ih =>
      rw [walk, List.append_eq_nil_iff] at hnone
      rw [walk, ih hnone.2, hnext i s a hnone.1, List.foldl_cons]

end Walk

section Fresh

variable {κ α : Type*} {blank : κ} {seen : List κ}

/-- The ids are none of them blank, new, and each there once. -/
def Fresh (blank : κ) (seen ids : List κ) : Prop :=
  ids.Nodup ∧ ∀ id ∈ ids, id ≠ blank ∧ id ∉ seen

theorem fresh_cons {id : κ} {ids : List κ} :
    Fresh blank seen (id :: ids) ↔ (id ≠ blank ∧ id ∉ seen) ∧ Fresh blank (id :: seen) ids := by
  rw [Fresh, Fresh, List.nodup_cons, List.forall_mem_cons]
  simp only [List.mem_cons, not_or]
  constructor
  · rintro ⟨⟨hnew, hnodup⟩, hhere, hrest⟩
    refine ⟨hhere, hnodup, fun other hother => ⟨(hrest other hother).1, ?_,
      (hrest other hother).2⟩⟩
    rintro rfl
    exact hnew hother
  · rintro ⟨hhere, hnodup, hrest⟩
    refine ⟨⟨fun hmem => (hrest id hmem).2.1 rfl, hnodup⟩, hhere, fun other hother => ?_⟩
    exact ⟨(hrest other hother).1, (hrest other hother).2.2⟩

theorem fresh_append {ids rest : List κ} :
    Fresh blank seen (ids ++ rest) ↔
      Fresh blank seen ids ∧ Fresh blank (ids.foldl (fun seen id => id :: seen) seen) rest := by
  induction ids generalizing seen with
  | nil =>
      have hnil : Fresh blank seen [] := ⟨List.nodup_nil, List.forall_mem_nil _⟩
      simp [hnil]
  | cons id ids ih =>
      rw [List.cons_append, fresh_cons, fresh_cons, ih, List.foldl_cons]
      simp only [and_assoc]

/-- A pass that keeps the ids it has seen. -/
theorem accepted_iff_fresh {ok : α → Prop} {key : α → κ} {as : List α} :
    Accepted (fun seen a => (key a ≠ blank ∧ key a ∉ seen) ∧ ok a)
        (fun seen a => key a :: seen) seen as ↔
      Fresh blank seen (as.map key) ∧ ∀ a ∈ as, ok a := by
  induction as generalizing seen with
  | nil =>
      have hnil : Fresh blank seen [] := ⟨List.nodup_nil, List.forall_mem_nil _⟩
      exact iff_of_true trivial ⟨hnil, List.forall_mem_nil _⟩
  | cons a as ih =>
      rw [Accepted, ih, List.map_cons, fresh_cons, List.forall_mem_cons]
      tauto

/-- A pass that keeps the ids of the elements and those of the parts of all
elements. -/
theorem accepted_iff_fresh_parts {β : Type*} {ok : α → Prop} {okPart : β → Prop} {key : α → κ}
    {keyPart : β → κ} {parts : α → List β} {seenParts : List κ} {as : List α} :
    Accepted
        (fun seen a => (key a ≠ blank ∧ key a ∉ seen.1) ∧ ok a ∧
          Fresh blank seen.2 ((parts a).map keyPart) ∧ ∀ b ∈ parts a, okPart b)
        (fun seen a => (key a :: seen.1,
          ((parts a).map keyPart).foldl (fun seen id => id :: seen) seen.2))
        (seen, seenParts) as ↔
      Fresh blank seen (as.map key) ∧
        Fresh blank seenParts (as.flatMap fun a => (parts a).map keyPart) ∧
        ∀ a ∈ as, ok a ∧ ∀ b ∈ parts a, okPart b := by
  induction as generalizing seen seenParts with
  | nil =>
      have hnil : ∀ seen : List κ, Fresh blank seen [] :=
        fun _ => ⟨List.nodup_nil, List.forall_mem_nil _⟩
      exact iff_of_true trivial ⟨hnil _, hnil _, List.forall_mem_nil _⟩
  | cons a as ih =>
      rw [Accepted, ih, List.map_cons, fresh_cons, List.flatMap_cons, fresh_append,
        List.forall_mem_cons]
      tauto

variable [DecidableEq κ] {ε : Type*}

/-- An id is checked: it is blank, or it was seen, or it is seen from now on. -/
def checkId (blank : κ) (empty duplicate : ε) (seen : List κ) (id : κ) : List ε × List κ :=
  if id = blank then ([empty], seen)
  else if id ∈ seen then ([duplicate], seen)
  else ([], id :: seen)

theorem checkId_eq_nil_iff {empty duplicate : ε} {id : κ} :
    (checkId blank empty duplicate seen id).1 = [] ↔ id ≠ blank ∧ id ∉ seen := by
  rw [checkId]
  split
  · rename_i hblank
    simp [hblank]
  · rename_i hid
    split
    · rename_i hmem
      simp [hmem]
    · rename_i hnew
      simp [hid, hnew]

theorem checkId_seen {empty duplicate : ε} {id : κ}
    (hnone : (checkId blank empty duplicate seen id).1 = []) :
    (checkId blank empty duplicate seen id).2 = id :: seen := by
  obtain ⟨hid, hnew⟩ := checkId_eq_nil_iff.mp hnone
  rw [checkId, if_neg hid, if_neg hnew]

/-- A check of one field. -/
def expect (ok : Bool) (fault : ε) : List ε := if ok then [] else [fault]

omit [DecidableEq κ] in
@[simp] theorem expect_eq_nil_iff {ok : Bool} {fault : ε} : expect ok fault = [] ↔ ok = true := by
  cases ok <;> simp [expect]

omit [DecidableEq κ] in
/-- Each element is checked by itself. -/
theorem flatten_mapIdx_eq_nil_iff {f : Nat → α → List ε} {P : α → Prop}
    (hf : ∀ j a, f j a = [] ↔ P a) {l : List α} :
    (l.mapIdx f).flatten = [] ↔ ∀ a ∈ l, P a := by
  rw [List.flatten_eq_nil_iff]
  constructor
  · intro hall a ha
    obtain ⟨j, hj, rfl⟩ := List.mem_iff_getElem.mp ha
    rw [← hf j]
    exact hall _ (List.mem_mapIdx.mpr ⟨j, hj, rfl⟩)
  · intro hall faults hfaults
    obtain ⟨j, hj, rfl⟩ := List.mem_mapIdx.mp hfaults
    exact (hf j _).mpr (hall _ (List.getElem_mem hj))

end Fresh

end Walk
