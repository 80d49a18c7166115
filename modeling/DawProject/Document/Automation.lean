import DawProject.Audio.Automation
import DawProject.Document.Schema
import DawProject.Lib.Interpolant
import Mathlib.Algebra.Order.Field.Rat

/-!
The value of a curve, `web/src/document/automation.ts`, and its mirror in
`engine/src/graph/automation.h`, both in exact arithmetic: they are the clamped
piecewise-linear interpolant of the points.
-/

namespace DawProject.Document

/-- The loop of `automationValueAt` from index `i`: the points it stops between. -/
def segmentFrom (pts : List AutomationPointDef) (t : Int) (i : Nat) :
    Option (AutomationPointDef × AutomationPointDef) :=
  if h : i < pts.length then
    if t < pts[i].t then some (pts[i - 1], pts[i]) else segmentFrom pts t (i + 1)
  else none
termination_by pts.length - i

def automationValueAt (lane : AutomationLaneDef) (t : Int) : Option ℚ :=
  if lane.enabled = false then none
  else
    match lane.points with
    | [] => none
    | first :: rest =>
        let last := (first :: rest).getLast (List.cons_ne_nil first rest)
        if t ≤ first.t then some first.v
        else if t ≥ last.t then some last.v
        else
          match segmentFrom (first :: rest) t 1 with
          | some (a, b) =>
              let dt := b.t - a.t
              if dt ≤ 0 then some b.v
              else some (a.v + (b.v - a.v) * (((t - a.t : Int) : ℚ) / (dt : Int)))
          | none => some last.v

/-- The segment that `automationValueAt` computes with, if it does not clamp. -/
def segmentAt (pts : List AutomationPointDef) (t : Int) :
    Option (AutomationPointDef × AutomationPointDef) :=
  match pts with
  | [] => none
  | first :: rest =>
      let last := (first :: rest).getLast (List.cons_ne_nil first rest)
      if t ≤ first.t ∨ t ≥ last.t then none else segmentFrom (first :: rest) t 1

/-- The numbers of the engine in exact arithmetic. -/
@[reducible] def exactFloats : Floats ℚ ℚ where
  widen := id
  narrow := id
  ofInt := fun x => x
  toInt := fun q => Binary64.ofInt ⌊q⌋
  narrow_widen := Eq.refl
  toInt_ofInt := fun x => by rw [Int.floor_intCast]

/-- `automationValueAt` of the engine, in exact arithmetic. -/
def engineValueAt (lane : Engine.AutomationLaneDef ℚ) (t : Int) : Option ℚ :=
  letI := exactFloats
  Audio.automationValueAt lane t

/-- The segment that `automationValueAt` of the engine computes with. -/
def engineSegmentAt (pts : List (Engine.AutomationPointDef ℚ)) (t : Int) :
    Option (Engine.AutomationPointDef ℚ × Engine.AutomationPointDef ℚ) :=
  match pts with
  | [] => none
  | front :: rest =>
      let back := (front :: rest).getLast (List.cons_ne_nil front rest)
      if t ≤ front.t ∨ t ≥ back.t then none else Audio.segmentAfter t front rest

def enginePoint (p : AutomationPointDef) : Engine.AutomationPointDef ℚ := ⟨p.t, p.v⟩

@[simp] theorem enginePoint_t (p : AutomationPointDef) : (enginePoint p).t = p.t := rfl

@[simp] theorem enginePoint_v (p : AutomationPointDef) : (enginePoint p).v = p.v := rfl

/-- The time of a point, as a number. -/
def pointTime (p : AutomationPointDef) : ℚ := p.t

section Web

variable {pts : List AutomationPointDef} {t : Int} {i : Nat} {a b : AutomationPointDef}

/-- Before the point where the loop stops lies one that is not after `t`. -/
theorem segmentFrom_spec (hi : 1 ≤ i) (hbefore : ∀ p ∈ pts[i - 1]?, p.t ≤ t)
    (hsegment : segmentFrom pts t i = some (a, b)) :
    ∃ j, pts[j]? = some a ∧ pts[j + 1]? = some b ∧ a.t ≤ t ∧ t < b.t := by
  induction i using segmentFrom.induct pts t with
  | case1 i hlt hstops =>
      rw [segmentFrom, dif_pos hlt, if_pos hstops] at hsegment
      obtain ⟨rfl, rfl⟩ := Prod.mk.inj (Option.some.inj hsegment)
      have hprevious : pts[i - 1]? = some pts[i - 1] := List.getElem?_eq_getElem (by omega)
      refine ⟨i - 1, hprevious, ?_, hbefore _ hprevious, hstops⟩
      rw [Nat.sub_add_cancel hi]
      exact List.getElem?_eq_getElem hlt
  | case2 i hlt hgoes ih =>
      rw [segmentFrom, dif_pos hlt, if_neg hgoes] at hsegment
      apply ih (by omega) _ hsegment
      intro p hp
      rw [Nat.add_sub_cancel, List.getElem?_eq_getElem hlt] at hp
      rw [← Option.some.inj hp]
      exact not_lt.mp hgoes
  | case3 i hge =>
      rw [segmentFrom, dif_neg hge] at hsegment
      cases hsegment

/-- The loop stops when some point is after `t`. -/
theorem segmentFrom_isSome {j : Nat} {p : AutomationPointDef} (hp : pts[j]? = some p)
    (hafter : t < p.t) (hij : i ≤ j) : (segmentFrom pts t i).isSome := by
  obtain ⟨hj, hget⟩ := List.getElem?_eq_some_iff.mp hp
  induction i using segmentFrom.induct pts t with
  | case1 i hlt hstops =>
      rw [segmentFrom, dif_pos hlt, if_pos hstops]
      rfl
  | case2 i hlt hgoes ih =>
      rw [segmentFrom, dif_pos hlt, if_neg hgoes]
      apply ih
      rcases hij.eq_or_lt with rfl | hless
      · rw [hget] at hgoes
        exact absurd hafter hgoes
      · exact hless
  | case3 i hge => omega

/-- The two ends of the segment are the neighbours of `t`. -/
theorem segmentAt_spec (hsegment : segmentAt pts t = some (a, b)) :
    Interpolant.Neighbours pointTime pts t a b ∧ a.t < b.t := by
  cases pts with
  | nil => cases hsegment
  | cons first rest =>
      simp only [segmentAt] at hsegment
      split at hsegment
      · cases hsegment
      · rename_i hinside
        obtain ⟨hfront, -⟩ := not_or.mp hinside
        have hfront := not_le.mp hfront
        obtain ⟨j, ha, hb, hle, hlt⟩ := segmentFrom_spec le_rfl
          (fun p hp => by rw [← Option.some.inj hp]; exact hfront.le) hsegment
        refine ⟨.segment j rfl ?_ ha hb ?_ ?_, hle.trans_lt hlt⟩
        · exact Int.cast_lt.mpr hfront
        · exact Int.cast_le.mpr hle
        · exact Int.cast_lt.mpr hlt

/-- The value of a lane that plays: an end of the curve, or the line of its
segment. -/
theorem automationValueAt_cases {lane : AutomationLaneDef} (henabled : lane.enabled = true)
    (hne : lane.points ≠ []) :
    ∃ a b, Interpolant.Neighbours pointTime lane.points t a b ∧
      automationValueAt lane t = some (Interpolant.lerp pointTime AutomationPointDef.v a b t) := by
  obtain ⟨first, rest, hpoints⟩ := List.exists_cons_of_ne_nil hne
  have hlast := List.getLast?_eq_some_getLast (List.cons_ne_nil first rest)
  unfold automationValueAt
  rw [if_neg (by simp [henabled]), hpoints]
  dsimp only
  split
  · rename_i hfront
    refine ⟨first, first, .front rfl (Int.cast_le.mpr hfront), ?_⟩
    rw [Interpolant.lerp_self]
  · rename_i hfront
    have hfront := not_le.mp hfront
    split
    · rename_i hback
      refine ⟨_, _, .back rfl (Int.cast_lt.mpr hfront) hlast (Int.cast_le.mpr hback), ?_⟩
      rw [Interpolant.lerp_self]
    · rename_i hback
      have hsegment : segmentAt (first :: rest) t = segmentFrom (first :: rest) t 1 := by
        simp only [segmentAt]
        exact if_neg (not_or.mpr ⟨not_le.mpr hfront, hback⟩)
      obtain ⟨k, hk, hlength⟩ := Interpolant.getLast?_eq_getElem? hlast
      have hfound : (segmentFrom (first :: rest) t 1).isSome := by
        apply segmentFrom_isSome hk (not_le.mp hback)
        cases k with
        | zero =>
            have hsame : first = _ := Option.some.inj hk
            rw [← hsame] at hback
            omega
        | succ k => omega
      obtain ⟨⟨a, b⟩, hab⟩ := Option.isSome_iff_exists.mp hfound
      obtain ⟨hneighbours, hwidth⟩ := segmentAt_spec (hsegment.trans hab)
      refine ⟨a, b, hneighbours, ?_⟩
      rw [hab]
      dsimp only
      rw [if_neg (by omega)]
      simp [Interpolant.lerp, pointTime]

end Web

section Twins

variable {t : Int}

/-- Both loops stop at the same point. -/
theorem segmentAfter_eq (before : List AutomationPointDef) (a : AutomationPointDef)
    (rest : List AutomationPointDef) :
    Audio.segmentAfter t (enginePoint a) (rest.map enginePoint) =
      (segmentFrom (before ++ a :: rest) t (before.length + 1)).map
        (Prod.map enginePoint enginePoint) := by
  induction rest generalizing before a with
  | nil =>
      rw [segmentFrom, dif_neg (by simp)]
      rfl
  | cons b rest ih =>
      have hlt : before.length + 1 < (before ++ a :: b :: rest).length := by simp
      have hb : (before ++ a :: b :: rest)[before.length + 1] = b := by simp
      have ha : (before ++ a :: b :: rest)[before.length + 1 - 1] = a := by simp
      rw [segmentFrom, dif_pos hlt, hb, ha]
      show (if t < b.t then some (enginePoint a, enginePoint b)
        else Audio.segmentAfter t (enginePoint b) (rest.map enginePoint)) = _
      split
      · rfl
      · rw [ih (before ++ [a]) b, List.append_assoc, List.length_append]
        rfl

theorem getLast_map_enginePoint (first : AutomationPointDef) (rest : List AutomationPointDef) :
    (enginePoint first :: rest.map enginePoint).getLast (List.cons_ne_nil _ _) =
      enginePoint ((first :: rest).getLast (List.cons_ne_nil _ _)) := by
  simp only [← List.map_cons, List.getLast_map]

theorem engineSegmentAt_map (pts : List AutomationPointDef) :
    engineSegmentAt (pts.map enginePoint) t =
      (segmentAt pts t).map (Prod.map enginePoint enginePoint) := by
  cases pts with
  | nil => rfl
  | cons first rest =>
      simp only [List.map_cons, engineSegmentAt, segmentAt, getLast_map_enginePoint, enginePoint_t]
      split_ifs
      · rfl
      · exact segmentAfter_eq [] first rest

/-- The mirror computes the same value. -/
theorem engineValueAt_eq {lane : AutomationLaneDef} {elane : Engine.AutomationLaneDef ℚ}
    (henabled : elane.enabled = lane.enabled) (hpoints : elane.points = lane.points.map enginePoint) :
    engineValueAt elane t = automationValueAt lane t := by
  unfold engineValueAt Audio.automationValueAt automationValueAt
  rw [henabled, hpoints]
  split
  · rfl
  · cases lane.points with
    | nil => rfl
    | cons first rest =>
        simp only [List.map_cons, getLast_map_enginePoint, enginePoint_t, enginePoint_v]
        split_ifs
        · rfl
        · rfl
        · rw [@Audio.interpolate_eq ℚ ℚ exactFloats, segmentAfter_eq [] first rest]
          show _ = match segmentFrom (first :: rest) t 1 with
            | some (a, b) => _
            | none => _
          cases hsegment : segmentFrom (first :: rest) t 1 with
          | none =>
              simp only [List.nil_append, List.length_nil, Nat.zero_add, hsegment, Option.map_none,
                getLast_map_enginePoint, enginePoint_v]
          | some ab =>
              simp only [List.nil_append, List.length_nil, Nat.zero_add, hsegment, Option.map_some]
              split_ifs with hwidth
              · exact congrArg some (if_pos hwidth)
              · exact congrArg some (if_neg hwidth)

/-- For sorted points, a lane is read as its interpolant, by the web and by the
engine, and the line that is computed has a positive width. -/
theorem automationValueAt_interpolant (lane : AutomationLaneDef)
    (hsorted : Interpolant.Sorted pointTime lane.points) (t : Int) :
    (automationValueAt lane t = none ↔ lane.enabled = false ∨ lane.points = []) ∧
    (∀ v, automationValueAt lane t = some v ↔ lane.enabled = true ∧
      Interpolant.IsValue pointTime AutomationPointDef.v lane.points t v) ∧
    (∀ v, automationValueAt lane t = some v → ∃ a b,
      Interpolant.Neighbours pointTime lane.points t a b ∧ min a.v b.v ≤ v ∧ v ≤ max a.v b.v) ∧
    (∀ a b, segmentAt lane.points t = some (a, b) →
      Interpolant.Neighbours pointTime lane.points t a b ∧ 0 < b.t - a.t) ∧
    ∀ elane : Engine.AutomationLaneDef ℚ,
      elane.enabled = lane.enabled → elane.points = lane.points.map enginePoint →
        engineValueAt elane t = automationValueAt lane t ∧
        engineSegmentAt elane.points t =
          (segmentAt lane.points t).map (Prod.map enginePoint enginePoint) := by
  have hplays : ∀ v, automationValueAt lane t = some v →
      lane.enabled = true ∧ lane.points ≠ [] := by
    intro v hv
    constructor
    · by_contra hdisabled
      simp [automationValueAt, hdisabled] at hv
    · intro hempty
      simp [automationValueAt, hempty] at hv
  have hvalue : ∀ v, automationValueAt lane t = some v → ∃ a b,
      Interpolant.Neighbours pointTime lane.points t a b ∧
        v = Interpolant.lerp pointTime AutomationPointDef.v a b t := by
    intro v hv
    obtain ⟨henabled, hne⟩ := hplays v hv
    obtain ⟨a, b, hab, hline⟩ := automationValueAt_cases (t := t) henabled hne
    exact ⟨a, b, hab, Option.some.inj (hv.symm.trans hline)⟩
  refine ⟨⟨?_, ?_⟩, ?_, ?_, ?_, ?_⟩
  · intro habsent
    by_contra hplaying
    obtain ⟨henabled, hne⟩ := not_or.mp hplaying
    obtain ⟨a, b, -, hline⟩ := automationValueAt_cases (t := t) (eq_true_of_ne_false henabled) hne
    rw [habsent] at hline
    cases hline
  · rintro (hdisabled | hempty)
    · simp [automationValueAt, hdisabled]
    · simp [automationValueAt, hempty]
  · intro v
    constructor
    · intro hv
      exact ⟨(hplays v hv).1, hvalue v hv⟩
    · rintro ⟨henabled, hv⟩
      have hne : lane.points ≠ [] := by
        rintro hempty
        rw [hempty] at hv
        obtain ⟨a, b, hab, -⟩ := hv
        cases hab with
        | front hhead _ | back hhead _ _ _ | segment _ hhead _ _ _ _ _ => cases hhead
      obtain ⟨a, b, hab, hline⟩ := automationValueAt_cases (t := t) henabled hne
      rw [hline, Interpolant.IsValue.unique hsorted hv ⟨a, b, hab, rfl⟩]
  · intro v hv
    obtain ⟨a, b, hab, rfl⟩ := hvalue v hv
    exact ⟨a, b, hab, hab.lerp_mem⟩
  · intro a b hab
    obtain ⟨hneighbours, hwidth⟩ := segmentAt_spec hab
    exact ⟨hneighbours, sub_pos.mpr hwidth⟩
  · intro elane henabled hpoints
    rw [engineValueAt_eq henabled hpoints, hpoints, engineSegmentAt_map]
    exact ⟨rfl, rfl⟩

end Twins

/-- A step at 500: the curve goes on from the second of its points. -/
def stepLane : AutomationLaneDef where
  id := "lane"
  target := ⟨none, "gain"⟩
  points := [⟨100, 1 / 5⟩, ⟨500, 4 / 5⟩, ⟨500, 2 / 5⟩, ⟨900, 3 / 5⟩]

theorem automationValueAt_stepLane :
    Interpolant.IsValue pointTime AutomationPointDef.v stepLane.points (500 : Int) (2 / 5) ∧
      segmentAt stepLane.points 500 = some (⟨500, 2 / 5⟩, ⟨900, 3 / 5⟩) := by
  have hsorted : Interpolant.Sorted pointTime stepLane.points := by
    simp [Interpolant.Sorted, stepLane, pointTime]
  obtain ⟨-, hvalue, -⟩ := automationValueAt_interpolant stepLane hsorted 500
  refine ⟨((hvalue (2 / 5)).mp ?_).2, ?_⟩
  · decide +kernel
  · decide +kernel

end DawProject.Document
