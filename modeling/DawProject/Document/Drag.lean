import DawProject.Lib.Retrace
import DawProject.Document.Gesture
import DawProject.Document.Lanes
import DawProject.Document.Lookup

/-!
A point of a curve dragged or deleted, and the undo. A drag is one gesture; each
call moves the point from where the call before it left it, and its inverse
names the index where the point went. The group keeps the inverse of the first
call under each time and value that the point leaves, so when it leaves one
again the indices kept do not follow each other any more. A deleted point is
added again after the points of its time. The pointer handler of
`web/src/ui/automation_lane.ts` finds the point by the value it wrote last, which
is the point followed as long as no other point has that value.
-/

namespace DawProject.Document

open ListMerge (rank rank_le_length)
open Retrace

/-- What is written for a time and a value. -/
def pointOf (t : Int) (v : ℚ) : AutomationPointDef := ⟨clampT t, clampV v⟩

/-- The index of a point among the others. -/
def placeOf (others : List AutomationPointDef) (point : AutomationPointDef) : Nat :=
  rank AutomationPointDef.t point.t others

/-- A write of the point to the lane without it puts it back where it is. -/
structure Settled (points : List AutomationPointDef) (index : Nat) (point : AutomationPointDef) :
    Prop where
  t : 0 ≤ point.t
  v : 0 ≤ point.v ∧ point.v ≤ 1
  /-- The points of its time that follow are equal to it. -/
  last : ∀ q ∈ points.drop (index + 1), q.t = point.t → q = point

def ProjectDef.lanePoints (d : ProjectDef) (scope : Option String) (laneId : String) :
    Option (List AutomationPointDef) :=
  (d.findLane scope laneId).map AutomationLaneDef.points

def ProjectDef.withPoints (d : ProjectDef) (scope : Option String) (laneId : String)
    (points : List AutomationPointDef) : ProjectDef :=
  d.updateLane scope laneId fun l => { l with points := points }

section Drag

variable (scope : Option String) (laneId : String)

/-- The key under which a group records that the point leaves a value. -/
def leaveKey (point : AutomationPointDef) : String :=
  targetKey (.moveAutomationPoint scope laneId 0 point.t point.v)

def leaveOp (move : Nat × AutomationPointDef) : InverseOp :=
  .moveAutomationPoint scope laneId move.1 move.2.t move.2.v

/-- Calls that follow one point, each at the index where the one before put it. -/
def dragEdits (others : List AutomationPointDef) : Nat → List (Int × ℚ) → List Edit
  | _, [] => []
  | index, (t, v) :: calls =>
      moveAutomationPoint scope laneId index t v ::
        dragEdits others (placeOf others (pointOf t v)) calls

/-- The drag can be gone back by the inverses that the group keeps. -/
def DragBack (points : List AutomationPointDef) (index : Nat) (start : AutomationPointDef)
    (t : Int) (v : ℚ) (calls : List (Int × ℚ)) : Prop :=
  Settled points index start ∧
    Retraceable placeOf (leaveKey scope laneId) (points.eraseIdx index)
      [leaveKey scope laneId start] (placeOf (points.eraseIdx index) (pointOf t v)) (pointOf t v)
      (calls.map fun c => pointOf c.1 c.2)

end Drag

section Places

variable {others points : List AutomationPointDef} {point : AutomationPointDef} {index : Nat}

theorem placeOf_le (others : List AutomationPointDef) (point : AutomationPointDef) :
    placeOf others point ≤ others.length :=
  rank_le_length _ others

theorem pointOf_eq_self_iff :
    pointOf point.t point.v = point ↔ 0 ≤ point.t ∧ 0 ≤ point.v ∧ point.v ≤ 1 := by
  have hparts : pointOf point.t point.v = point ↔
      clampT point.t = point.t ∧ clampV point.v = point.v := by
    cases point
    simp [pointOf]
  rw [hparts, clampT, clampV, max_eq_right_iff]
  refine and_congr_right fun _ => ⟨fun h => ?_, fun ⟨hlow, hhigh⟩ => ?_⟩
  · rw [← h]
    exact ⟨le_max_left 0 _, max_le (by norm_num) (min_le_left 1 _)⟩
  · rw [min_eq_right hhigh, max_eq_right hlow]

theorem pointOf_pointOf (t : Int) (v : ℚ) :
    pointOf (pointOf t v).t (pointOf t v).v = pointOf t v := by
  rw [pointOf_eq_self_iff]
  exact ⟨le_max_left 0 t, le_max_left 0 _, max_le (by norm_num) (min_le_left 1 v)⟩

/-- The point written again among the others gives the points as they were. -/
theorem insertIdx_pointOf_eq_iff (hsorted : ListMerge.Ascending AutomationPointDef.t points)
    (hget : points[index]? = some point) :
    (points.eraseIdx index).insertIdx
        (placeOf (points.eraseIdx index) (pointOf point.t point.v)) (pointOf point.t point.v) =
      points ↔ Settled points index point := by
  have hself := hsorted.insertIdx_eraseIdx_iff hget
  constructor
  · intro hback
    have hindex : index ≤ (points.eraseIdx index).length := by
      obtain ⟨hlt, -⟩ := List.getElem?_eq_some_iff.mp hget
      rw [List.length_eraseIdx_of_lt hlt]
      omega
    have hsame : pointOf point.t point.v = point :=
      eq_of_insertIdx_eq (placeOf_le _ _) hindex (hback.trans (insertIdx_eraseIdx hget).symm)
    obtain ⟨ht, hv⟩ := pointOf_eq_self_iff.mp hsame
    rw [hsame] at hback
    exact ⟨ht, hv, hself.mp hback⟩
  · intro hsettled
    rw [pointOf_eq_self_iff.mpr ⟨hsettled.t, hsettled.v⟩]
    exact hself.mpr hsettled.last

end Places

section Writes

variable {d : ProjectDef} {scope : Option String} {laneId : String} {lane : AutomationLaneDef}
  {points others : List AutomationPointDef} {index : Nat} {old : AutomationPointDef}

theorem findLane_withPoints (hlane : d.findLane scope laneId = some lane) :
    (d.withPoints scope laneId points).findLane scope laneId =
      some { lane with points := points } :=
  findLane_points (g := fun _ => points) hlane

theorem withPoints_self (hlane : d.findLane scope laneId = some lane) :
    d.withPoints scope laneId lane.points = d := by
  apply updateLane_eq_self
  intro l hl
  obtain rfl := Option.some.inj (hlane.symm.trans hl)
  rfl

theorem lanePoints_withPoints (hlane : d.findLane scope laneId = some lane) :
    (d.withPoints scope laneId points).lanePoints scope laneId = some points := by
  rw [ProjectDef.lanePoints, findLane_withPoints hlane]
  rfl

/-- A call on a point of the lane. In place or not, the point ends at its place
among the others. -/
theorem moveAutomationPoint_withPoints (hlane : d.findLane scope laneId = some lane)
    (hget : points[index]? = some old) (t : Int) (v : ℚ) :
    moveAutomationPoint scope laneId index t v (d.withPoints scope laneId points) =
      .writes (leaveOp scope laneId (placeOf (points.eraseIdx index) (pointOf t v), old))
        (d.withPoints scope laneId (moveTo placeOf index (pointOf t v) points)) := by
  obtain ⟨hlt, -⟩ := List.getElem?_eq_some_iff.mp hget
  have hpoints : (if placeOf (points.eraseIdx index) (pointOf t v) = index then
        points.set index (pointOf t v)
      else (points.eraseIdx index).insertIdx (placeOf (points.eraseIdx index) (pointOf t v))
        (pointOf t v)) = moveTo placeOf index (pointOf t v) points := by
    rw [moveTo, if_pos hlt]
    split
    · rename_i hplace
      rw [hplace, List.insertIdx_eraseIdx_self (Nat.ne_of_lt hlt)]
    · rfl
  have hindex : ¬(index : Int) < 0 := by omega
  rw [moveAutomationPoint, findLane_withPoints hlane]
  simp only [Int.toNat_natCast, hget, if_neg hindex]
  rw [← hpoints]
  exact congrArg (Effect.writes _) (updateLane_updateLane fun _ => rfl)

theorem moveAutomationPoint_outside (hlane : d.findLane scope laneId = some lane)
    (hget : points[index]? = none) (t : Int) (v : ℚ) :
    moveAutomationPoint scope laneId index t v (d.withPoints scope laneId points) = .ignored := by
  rw [moveAutomationPoint, findLane_withPoints hlane]
  simp [hget]

/-- The moves replayed, in the order they are given. -/
theorem replayDoc_leaveOps (freshId : Nat → String)
    (hlane : d.findLane scope laneId = some lane) (moves : List (Nat × AutomationPointDef)) :
    replayDoc freshId (moves.map (leaveOp scope laneId)) (d.withPoints scope laneId points) =
      d.withPoints scope laneId
        (moves.foldl (fun l m => moveTo placeOf m.1 (pointOf m.2.t m.2.v) l) points) := by
  induction moves generalizing points with
  | nil => rfl
  | cons m moves ih =>
      have hmutator : mutatorOf (freshId (moves.map (leaveOp scope laneId)).length)
          (leaveOp scope laneId m) =
        moveAutomationPoint scope laneId m.1 m.2.t m.2.v := rfl
      rw [List.map_cons, List.foldl_cons, replayDoc, hmutator]
      cases hget : points[m.1]? with
      | none =>
          have hout : ¬m.1 < points.length := by
            rw [List.getElem?_eq_none_iff] at hget
            omega
          rw [moveAutomationPoint_outside hlane hget, moveTo, if_neg hout]
          exact ih
      | some old =>
          rw [moveAutomationPoint_withPoints hlane hget]
          exact ih

variable {point : AutomationPointDef}

/-- A call on the point that is followed. -/
theorem moveAutomationPoint_insertIdx (hlane : d.findLane scope laneId = some lane)
    (hindex : index ≤ others.length) (t : Int) (v : ℚ) :
    moveAutomationPoint scope laneId index t v
        (d.withPoints scope laneId (others.insertIdx index point)) =
      .writes (leaveOp scope laneId (placeOf others (pointOf t v), point))
        (d.withPoints scope laneId
          (others.insertIdx (placeOf others (pointOf t v)) (pointOf t v))) := by
  have hget : (others.insertIdx index point)[index]? = some point := by
    rw [List.getElem?_insertIdx_self, if_pos hindex]
  rw [moveAutomationPoint_withPoints hlane hget, moveTo_insertIdx hindex,
    List.eraseIdx_insertIdx_self]

variable (calls : List (Int × ℚ))

theorem editsDoc_dragEdits (hlane : d.findLane scope laneId = some lane)
    (hindex : index ≤ others.length) {t : Int} {v : ℚ} :
    editsDoc (dragEdits scope laneId others index ((t, v) :: calls))
        (d.withPoints scope laneId (others.insertIdx index point)) =
      d.withPoints scope laneId
        (others.insertIdx
          (placeOf others ((calls.map fun c => pointOf c.1 c.2).getLastD (pointOf t v)))
          ((calls.map fun c => pointOf c.1 c.2).getLastD (pointOf t v))) := by
  induction calls generalizing index point t v with
  | nil =>
      rw [dragEdits, editsDoc, moveAutomationPoint_insertIdx hlane hindex]
      rfl
  | cons c calls ih =>
      rw [dragEdits, editsDoc, moveAutomationPoint_insertIdx hlane hindex, List.map_cons,
        List.getLastD_cons]
      exact ih (placeOf_le others _)

/-- What the group keeps of the drag. -/
theorem ops_dragEdits (hlane : d.findLane scope laneId = some lane)
    (hindex : index ≤ others.length) (g : UndoGroup InverseOp) :
    ((editsCaptures (dragEdits scope laneId others index calls)
        (d.withPoints scope laneId (others.insertIdx index point))).foldl
      (UndoGroup.record targetKey) g).ops =
      g.ops ++ (keptMoves placeOf (leaveKey scope laneId) others g.seen point
        (calls.map fun c => pointOf c.1 c.2)).map (leaveOp scope laneId) := by
  induction calls generalizing index point g with
  | nil => exact (List.append_nil _).symm
  | cons c calls ih =>
      obtain ⟨t, v⟩ := c
      rw [dragEdits, editsCaptures, moveAutomationPoint_insertIdx hlane hindex, List.foldl_cons,
        ih (placeOf_le others _), List.map_cons, keptMoves]
      have hkey : targetKey (leaveOp scope laneId (placeOf others (pointOf t v), point)) =
          leaveKey scope laneId point := rfl
      rw [UndoGroup.record, hkey, List.contains_eq_mem]
      by_cases hseen : leaveKey scope laneId point ∈ g.seen
      · rw [if_pos hseen, if_pos (decide_eq_true hseen)]
      · rw [if_neg hseen, if_neg (by simp [hseen])]
        simp

end Writes

section Pointer

variable {d : ProjectDef} {trackId param : String} {track : TrackDef} {lane : AutomationLaneDef}
  {others points : List AutomationPointDef} {index : Nat} {last : AutomationPointDef}

/-- The curve of a parameter of the track itself. -/
def laneFor (track : TrackDef) (param : String) : Option AutomationLaneDef :=
  (track.automation.getD []).find? fun l =>
    l.target.processorId.getD "" == "" && l.target.param == param

/-- `onMove`: the index is found again by the value that was written last. -/
def onMove (trackId param : String) (last : AutomationPointDef) (t : Int) (v : ℚ) : Edit := fun d =>
  match (d.findTrack trackId).bind fun track => laneFor track param with
  | none => .ignored
  | some lane =>
      match lane.points.findIdx? fun q => decide (q = last) with
      | none => .ignored
      | some index => moveAutomationPoint (some trackId) lane.id index t v d

/-- The moves of the pointer, from the value of the point that was pressed. -/
def pointerMoves (trackId param : String) : AutomationPointDef → List (Int × ℚ) → List Edit
  | _, [] => []
  | last, (t, v) :: calls =>
      onMove trackId param last t v :: pointerMoves trackId param (pointOf t v) calls

theorem laneFor_withPoints (htrack : d.findTrack trackId = some track)
    (hlane : laneFor track param = some lane)
    (hid : d.findLane (some trackId) lane.id = some lane) :
    ((d.withPoints (some trackId) lane.id points).findTrack trackId).bind
        (fun track => laneFor track param) = some { lane with points := points } := by
  have hwritten : (d.withPoints (some trackId) lane.id points).findTrack trackId =
      some { track with
        automation := track.automation.map
          (Keyed.updateFirst (fun l => l.id == lane.id) fun l => { l with points := points }) } := by
    have hupdated := @findTrack_updateTrack d trackId (fun t =>
      { t with
        automation := t.automation.map
          (Keyed.updateFirst (fun l => l.id == lane.id) fun l => { l with points := points }) })
      fun _ => rfl
    rw [htrack] at hupdated
    exact hupdated
  rw [ProjectDef.findLane, lanesIn, htrack, Option.bind_some] at hid
  rw [hwritten, Option.bind_some, laneFor]
  unfold laneFor at hlane
  cases hlanes : track.automation with
  | none =>
      rw [hlanes] at hlane
      cases hlane
  | some lanes =>
      rw [hlanes] at hlane hid
      have hself := List.find?_some hlane
      exact Keyed.find?_updateFirst_of_same hid hlane hself

theorem onMove_insertIdx (htrack : d.findTrack trackId = some track)
    (hlane : laneFor track param = some lane)
    (hid : d.findLane (some trackId) lane.id = some lane) (hindex : index ≤ others.length)
    (hothers : ∀ q ∈ others, q ≠ last) (t : Int) (v : ℚ) :
    onMove trackId param last t v
        (d.withPoints (some trackId) lane.id (others.insertIdx index last)) =
      moveAutomationPoint (some trackId) lane.id index t v
        (d.withPoints (some trackId) lane.id (others.insertIdx index last)) := by
  have hfound : (others.insertIdx index last).findIdx? (fun q => decide (q = last)) = some index :=
    findIdx?_insertIdx (fun q hq => decide_eq_false (hothers q hq)) (decide_eq_true rfl) hindex
  rw [onMove, laneFor_withPoints htrack hlane hid]
  simp only [hfound]

/-- The pointer drags the point that was pressed, as long as it meets no value
that another point has. -/
theorem foldl_pointerMoves {p : Project} (htrack : d.findTrack trackId = some track)
    (hlane : laneFor track param = some lane)
    (hid : d.findLane (some trackId) lane.id = some lane) (hindex : index ≤ others.length)
    {calls : List (Int × ℚ)}
    (hothers : ∀ q ∈ others, q ∉ last :: calls.map fun c => pointOf c.1 c.2)
    (hdoc : p.doc = d.withPoints (some trackId) lane.id (others.insertIdx index last)) :
    (pointerMoves trackId param last calls).foldl Project.edit p =
      (dragEdits (some trackId) lane.id others index calls).foldl Project.edit p := by
  induction calls generalizing p index last with
  | nil => rfl
  | cons c calls ih =>
      obtain ⟨t, v⟩ := c
      have hlast : ∀ q ∈ others, q ≠ last := by
        rintro q hq rfl
        exact hothers q hq List.mem_cons_self
      have hmove := onMove_insertIdx htrack hlane hid hindex hlast t v
      rw [← hdoc] at hmove
      have hedit : p.edit (onMove trackId param last t v) =
          p.edit (moveAutomationPoint (some trackId) lane.id index t v) := by
        rw [Project.edit, Project.edit, hmove]
      rw [pointerMoves, dragEdits, List.foldl_cons, List.foldl_cons, hedit]
      apply ih (placeOf_le others _)
      · intro q hq hmem
        exact hothers q hq (List.mem_cons_of_mem last hmem)
      · rw [Project.edit, hdoc, moveAutomationPoint_insertIdx hid hindex]

theorem gesture_pointerMoves {p : Project} (hrest : p.AtRest)
    (htrack : p.doc.findTrack trackId = some track) (hlane : laneFor track param = some lane)
    (hid : p.doc.findLane (some trackId) lane.id = some lane)
    (hget : lane.points[index]? = some last) {calls : List (Int × ℚ)}
    (hothers : ∀ q ∈ lane.points.eraseIdx index,
      q ∉ last :: calls.map fun c => pointOf c.1 c.2) :
    p.gesture (pointerMoves trackId param last calls) =
      p.gesture (dragEdits (some trackId) lane.id (lane.points.eraseIdx index) index calls) := by
  obtain ⟨hlt, -⟩ := List.getElem?_eq_some_iff.mp hget
  have hindex : index ≤ (lane.points.eraseIdx index).length := by
    rw [List.length_eraseIdx_of_lt hlt]
    omega
  rw [Project.gesture, Project.gesture, foldl_pointerMoves htrack hlane hid hindex hothers]
  rw [(beginGroup_of_atRest hrest).1, insertIdx_eraseIdx hget, withPoints_self hid]

end Pointer

section Undo

variable {p : Project} {scope : Option String} {laneId : String} {lane : AutomationLaneDef}
  {start : AutomationPointDef} {index : Nat}

/-- The points after the undo of a drag: the last move is back to the start, from
where the first call put the point. -/
def undonePoints (scope : Option String) (laneId : String) (others : List AutomationPointDef)
    (start first : AutomationPointDef) (values : List AutomationPointDef) :
    List AutomationPointDef :=
  moveTo placeOf (placeOf others first) (pointOf start.t start.v)
    (replayMoves placeOf
      (keptMoves placeOf (leaveKey scope laneId) others [leaveKey scope laneId start] first values)
      (others.insertIdx (placeOf others (values.getLastD first)) (values.getLastD first)))

theorem undo_drag (hrest : p.AtRest) (hlane : p.doc.findLane scope laneId = some lane)
    (hget : lane.points[index]? = some start) (t : Int) (v : ℚ) (calls : List (Int × ℚ))
    (freshId : Nat → String) :
    ((p.gesture (dragEdits scope laneId (lane.points.eraseIdx index) index
        ((t, v) :: calls))).undo freshId).doc =
      p.doc.withPoints scope laneId
        (undonePoints scope laneId (lane.points.eraseIdx index) start (pointOf t v)
          (calls.map fun c => pointOf c.1 c.2)) := by
  obtain ⟨hlt, -⟩ := List.getElem?_eq_some_iff.mp hget
  generalize hothers : lane.points.eraseIdx index = others
  have hindex : index ≤ others.length := by
    rw [← hothers, List.length_eraseIdx_of_lt hlt]
    omega
  have hdoc : p.doc = p.doc.withPoints scope laneId (others.insertIdx index start) := by
    rw [← hothers, insertIdx_eraseIdx hget, withPoints_self hlane]
  have hkept : keptOps (editsCaptures (dragEdits scope laneId others index ((t, v) :: calls))
      p.doc) = leaveOp scope laneId (placeOf others (pointOf t v), start) ::
        (keptMoves placeOf (leaveKey scope laneId) others [leaveKey scope laneId start]
          (pointOf t v) (calls.map fun c => pointOf c.1 c.2)).map (leaveOp scope laneId) := by
    rw [hdoc, keptOps, ops_dragEdits _ hlane hindex]
    rfl
  have hsome : editsCaptures (dragEdits scope laneId others index ((t, v) :: calls)) p.doc ≠ [] := by
    intro hnone
    rw [keptOps_eq_nil_iff.mpr hnone] at hkept
    cases hkept
  have hlast : editsDoc (dragEdits scope laneId others index ((t, v) :: calls)) p.doc =
      p.doc.withPoints scope laneId (others.insertIdx
        (placeOf others ((calls.map fun c => pointOf c.1 c.2).getLastD (pointOf t v)))
        ((calls.map fun c => pointOf c.1 c.2).getLastD (pointOf t v))) := by
    conv_lhs => rw [hdoc]
    exact editsDoc_dragEdits calls hlane hindex
  rw [undo_gesture hrest hsome, hkept, hlast, ← List.map_cons, ← List.map_reverse,
    replayDoc_leaveOps freshId hlane, List.foldl_reverse, List.foldr_cons, undonePoints,
    replayMoves]
  -- The values that the calls wrote are in range.
  have hrange : ∀ m ∈ keptMoves placeOf (leaveKey scope laneId) others
      [leaveKey scope laneId start] (pointOf t v) (calls.map fun c => pointOf c.1 c.2),
      pointOf m.2.t m.2.v = m.2 := by
    intro m hm
    have hvalues : ∀ b ∈ pointOf t v :: calls.map fun c => pointOf c.1 c.2,
        (fun b => decide (pointOf b.t b.v = b)) b = true := by
      intro b hb
      apply decide_eq_true
      rcases List.mem_cons.mp hb with rfl | hb
      · exact pointOf_pointOf t v
      · obtain ⟨c, -, rfl⟩ := List.mem_map.mp hb
        exact pointOf_pointOf c.1 c.2
    exact of_decide_eq_true (vis_of_mem_keptMoves hvalues m hm)
  congr 2
  apply List.foldr_ext
  intro m hm l
  rw [hrange m hm]

/-- The undo of a drag that can be retraced. -/
theorem undonePoints_of_retraceable {points values : List AutomationPointDef}
    {first : AutomationPointDef} (hsorted : ListMerge.Ascending AutomationPointDef.t points)
    (hget : points[index]? = some start) (hsettled : Settled points index start)
    (hretrace : Retraceable placeOf (leaveKey scope laneId) (points.eraseIdx index)
      [leaveKey scope laneId start] (placeOf (points.eraseIdx index) first) first values) :
    undonePoints scope laneId (points.eraseIdx index) start first values = points := by
  obtain ⟨x, _, hback⟩ := replayMoves_of_retraceable placeOf_le hretrace
  rw [undonePoints, hback, moveTo_insertIdx (placeOf_le _ first)]
  exact (insertIdx_pointOf_eq_iff hsorted hget).mpr hsettled

/-- Where the drag visits no value that another point has, there is no other way
back. -/
theorem retraceable_of_undonePoints {points values : List AutomationPointDef}
    {first : AutomationPointDef} (hsorted : ListMerge.Ascending AutomationPointDef.t points)
    (hget : points[index]? = some start)
    (hothers : ∀ q ∈ points.eraseIdx index,
      q ∉ start :: pointOf start.t start.v :: first :: values)
    (hback : undonePoints scope laneId (points.eraseIdx index) start first values = points) :
    Settled points index start ∧
      Retraceable placeOf (leaveKey scope laneId) (points.eraseIdx index)
        [leaveKey scope laneId start] (placeOf (points.eraseIdx index) first) first values := by
  obtain ⟨hlt, -⟩ := List.getElem?_eq_some_iff.mp hget
  have hindex : index ≤ (points.eraseIdx index).length := by
    rw [List.length_eraseIdx_of_lt hlt]
    omega
  generalize hvisited : (fun q => decide (q ∈ start :: pointOf start.t start.v :: first :: values)) =
    visited
  have hunvisited : ∀ q ∈ points.eraseIdx index, visited q = false := by
    intro q hq
    rw [← hvisited]
    exact decide_eq_false (hothers q hq)
  have hall : ∀ q ∈ start :: pointOf start.t start.v :: first :: values, visited q = true := by
    intro q hq
    rw [← hvisited]
    exact decide_eq_true hq
  have hvalues : ∀ q ∈ first :: values, visited q = true :=
    fun q hq => hall q (List.mem_cons_of_mem _ (List.mem_cons_of_mem _ hq))
  have hself : points = (points.eraseIdx index).insertIdx index start :=
    (insertIdx_eraseIdx hget).symm
  obtain ⟨⟨y, hy, hfound⟩, hplaced⟩ := found_of_moveTo placeOf_le hunvisited (hall _ (by simp))
    hvalues hindex (hall start (by simp)) (hback.trans hself)
  refine ⟨(insertIdx_pointOf_eq_iff hsorted hget).mp (hplaced.trans hself.symm), ?_⟩
  exact retraceable_of_replayMoves placeOf_le hunvisited hvalues (placeOf_le _ first) hy hfound

theorem undo_delete (hrest : p.AtRest) (hlane : p.doc.findLane scope laneId = some lane)
    (hget : lane.points[index]? = some start) (freshId : Nat → String) :
    ((p.edit (deleteAutomationPoint scope laneId index)).undo freshId).doc =
      p.doc.withPoints scope laneId
        ((lane.points.eraseIdx index).insertIdx
          (placeOf (lane.points.eraseIdx index) (pointOf start.t start.v))
          (pointOf start.t start.v)) := by
  have hindex : ¬(index : Int) < 0 := by omega
  have hdoc : (p.doc.updateLane scope laneId fun l => { l with points := l.points.eraseIdx index }) =
      p.doc.withPoints scope laneId (lane.points.eraseIdx index) := by
    conv_lhs => rw [← withPoints_self hlane]
    exact updateLane_updateLane fun _ => rfl
  have hdelete : deleteAutomationPoint scope laneId index p.doc =
      .writes (.addAutomationPoint scope laneId start.t start.v)
        (p.doc.withPoints scope laneId (lane.points.eraseIdx index)) := by
    rw [deleteAutomationPoint, hlane]
    simp only [Int.toNat_natCast, hget, if_neg hindex, hdoc]
  rw [undo_edit hrest hdelete freshId]
  have hadd : mutatorOf (freshId 0) (.addAutomationPoint scope laneId start.t start.v) =
      addAutomationPoint scope laneId start.t start.v := rfl
  rw [hadd, addAutomationPoint, findLane_withPoints hlane]
  exact updateLane_updateLane fun _ => rfl

/-- A drag and a deletion, undone. -/
theorem lanePoints_undo_iff (hrest : p.AtRest) (hlane : p.doc.findLane scope laneId = some lane)
    (hsorted : lane.Sorted) (hget : lane.points[index]? = some start) (t : Int) (v : ℚ)
    (calls : List (Int × ℚ)) (freshId : Nat → String) :
    (DragBack scope laneId lane.points index start t v calls →
        ((p.gesture (dragEdits scope laneId (lane.points.eraseIdx index) index
          ((t, v) :: calls))).undo freshId).doc.lanePoints scope laneId = some lane.points) ∧
      ((∀ q ∈ lane.points.eraseIdx index, q ∉ start :: pointOf start.t start.v ::
          ((t, v) :: calls).map fun c => pointOf c.1 c.2) →
        (((p.gesture (dragEdits scope laneId (lane.points.eraseIdx index) index
            ((t, v) :: calls))).undo freshId).doc.lanePoints scope laneId = some lane.points ↔
          DragBack scope laneId lane.points index start t v calls)) ∧
      (((p.edit (deleteAutomationPoint scope laneId index)).undo freshId).doc.lanePoints scope
          laneId = some lane.points ↔
        Settled lane.points index start) := by
  have hdragged : DragBack scope laneId lane.points index start t v calls →
      undonePoints scope laneId (lane.points.eraseIdx index) start (pointOf t v)
        (calls.map fun c => pointOf c.1 c.2) = lane.points := by
    rintro ⟨hsettled, hretrace⟩
    exact undonePoints_of_retraceable hsorted hget hsettled hretrace
  rw [undo_drag hrest hlane hget, undo_delete hrest hlane hget, lanePoints_withPoints hlane,
    lanePoints_withPoints hlane, Option.some.injEq, Option.some.injEq]
  refine ⟨hdragged, fun hothers => ⟨fun hback => ?_, hdragged⟩, ?_⟩
  · exact retraceable_of_undonePoints hsorted hget hothers hback
  · exact insertIdx_pointOf_eq_iff hsorted hget

end Undo

section Curve

def laneOf (points : List AutomationPointDef) : AutomationLaneDef :=
  { id := "l", target := { param := "gain" }, points := points }

/-- A project that has one curve, on the master. -/
def curveAlone (points : List AutomationPointDef) : Project :=
  { doc := { automation := some [laneOf points] } }

def ramp : List AutomationPointDef := [⟨0, 0⟩, ⟨10, 1 / 2⟩, ⟨20, 1⟩]

/-- A point drawn over its neighbour and back, but not to where it has been. -/
theorem lanePoints_undo_ramp :
    (((curveAlone ramp).gesture
        (dragEdits none "l" (ramp.eraseIdx 0) 0 [(15, 1 / 4), (5, 1 / 4)])).undo
      fun _ => "n").doc.lanePoints none "l" = some ramp := by
  have hlane : (curveAlone ramp).doc.findLane none "l" = some (laneOf ramp) := rfl
  have hsorted : (laneOf ramp).Sorted := by
    unfold AutomationLaneDef.Sorted ListMerge.Ascending
    decide
  have hget : (laneOf ramp).points[0]? = some ⟨0, 0⟩ := rfl
  have hback : DragBack none "l" (laneOf ramp).points 0 ⟨0, 0⟩ 15 (1 / 4) [(5, 1 / 4)] :=
    ⟨⟨by decide, by decide +kernel, by decide +kernel⟩, by decide +kernel⟩
  exact (lanePoints_undo_iff ⟨rfl, rfl⟩ hlane hsorted hget 15 (1 / 4) [(5, 1 / 4)] fun _ => "n").1
    hback

/-- Drawn over the neighbour twice from the same value, the second crossing has
no inverse of its own, and the index of the first finds the neighbour. A point
deleted before one of its time is added again after it. -/
theorem not_lanePoints_undo :
    ((laneOf [⟨0, 0⟩, ⟨10, 1 / 2⟩]).Sorted ∧
      (((curveAlone [⟨0, 0⟩, ⟨10, 1 / 2⟩]).gesture
          (dragEdits none "l" [⟨10, 1 / 2⟩] 0 [(5, 0), (15, 0), (5, 0), (20, 0)])).undo
        fun _ => "n").doc.lanePoints none "l" = some [⟨0, 0⟩, ⟨15, 0⟩]) ∧
    (laneOf [⟨10, 0⟩, ⟨10, 1⟩]).Sorted ∧
      (((curveAlone [⟨10, 0⟩, ⟨10, 1⟩]).edit (deleteAutomationPoint none "l" 0)).undo
        fun _ => "n").doc.lanePoints none "l" = some [⟨10, 1⟩, ⟨10, 0⟩] := by
  unfold AutomationLaneDef.Sorted ListMerge.Ascending
  decide +kernel

end Curve

end DawProject.Document
