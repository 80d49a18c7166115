import DawProject.Document.Domains
import DawProject.Document.Lanes
import DawProject.Document.Lookup

/-!
The order of automation points when two peers work on a lane at once. The list
of points is merged by the ids of its elements; a point that is moved across a
neighbour is taken out and put in as a new one, a point that crosses none is
rewritten in place and keeps its id. Each peer keeps its own copy in order, but
a point that one peer has written and a point that the other has written were
never compared.
-/

namespace DawProject.Document

open Keyed
open ListMerge (Ascending rank ascending_congr rank_congr ids Merge)

/-- The time of a point, with the write that set it. -/
structure PointTime where
  write : OpId
  t : Int
deriving DecidableEq, Repr

abbrev LanePoint := OpId × PointTime

def pointT (p : LanePoint) : Int := p.2.t

/-- A peer's document and the points of a lane of the common document, gone once
the peer has removed the lane. -/
structure LaneReplica where
  doc : ProjectDef
  points : Option (List LanePoint)
  counter : Nat

/-- The document after some calls. -/
def ProjectDef.after (d : ProjectDef) (calls : List Mutator) : ProjectDef :=
  calls.foldl (fun d m => (m.edit d).result d) d

/-- The points of the common document. -/
def commonPoints (points : List AutomationPointDef) : List LanePoint :=
  points.mapIdx fun i p => (⟨none, i⟩, ⟨⟨none, i⟩, p.t⟩)

section Follow

variable (scope : Option String) (laneId : String)

/-- The call takes the lane out of its list, or its track out of the document. -/
def Mutator.removesLane : Mutator → Bool
  | .named _ (.deleteAutomationLane s l) => s == scope && l == laneId
  | .named _ (.deleteTrack t) => scope == some t
  | _ => false

/-- A new point takes the id of the write, a point rewritten in place keeps its
own. -/
def Mutator.onPoints (write : OpId) (ps : List LanePoint) : Mutator → List LanePoint
  | .named _ (.addAutomationPoint s l t _) =>
      if s = scope ∧ l = laneId then
        ps.insertIdx (rank pointT (clampT t) ps) (write, ⟨write, clampT t⟩)
      else ps
  | .named _ (.moveAutomationPoint s l index t _) =>
      if (s = scope ∧ l = laneId) ∧ ¬index < 0 then
        match ps[index.toNat]? with
        | none => ps
        | some old =>
            let newIndex := rank pointT (clampT t) (ps.eraseIdx index.toNat)
            if newIndex = index.toNat then
              if old.2.t = clampT t then ps
              else ps.set index.toNat (old.1, ⟨write, clampT t⟩)
            else (ps.eraseIdx index.toNat).insertIdx newIndex (write, ⟨write, clampT t⟩)
      else ps
  | .named _ (.deleteAutomationPoint s l index) =>
      if (s = scope ∧ l = laneId) ∧ ¬index < 0 then ps.eraseIdx index.toNat else ps
  | _ => ps

def LaneReplica.start (d : ProjectDef) : LaneReplica where
  doc := d
  points := (d.findLane scope laneId).map fun lane => commonPoints lane.points
  counter := 0

def LaneReplica.call (peer : Peer) (r : LaneReplica) (m : Mutator) : LaneReplica where
  doc := (m.edit r.doc).result r.doc
  points :=
    if m.removesLane scope laneId then none
    else r.points.map fun ps => m.onPoints scope laneId ⟨some peer, r.counter⟩ ps
  counter := r.counter + 1

def LaneReplica.calls (peer : Peer) (r : LaneReplica) (ms : List Mutator) : LaneReplica :=
  ms.foldl (LaneReplica.call scope laneId peer) r

/-- The lane as the two peers have it, and as it is once they are merged. -/
structure LaneMerge (d : ProjectDef) (first second : List Mutator) (xs ys zs : List LanePoint) :
    Prop where
  first : ((LaneReplica.start scope laneId d).calls scope laneId .first first).points = some xs
  second : ((LaneReplica.start scope laneId d).calls scope laneId .second second).points = some ys
  merged : ∃ base, (LaneReplica.start scope laneId d).points = some base ∧ Merge base xs ys zs

end Follow

/-- The lanes are in order in every document of the two peers, and once merged. -/
def SortedThroughout (d : ProjectDef) (first second : List Mutator) : Prop :=
  (∀ pre, pre <+: first → (d.after pre).Sorted) ∧ (∀ pre, pre <+: second → (d.after pre).Sorted) ∧
    ∀ scope laneId xs ys zs, LaneMerge scope laneId d first second xs ys zs →
      Ascending pointT zs

/-- No call puts a lane that is not in order into the document. -/
def PutsSorted (d : ProjectDef) (calls : List Mutator) : Prop :=
  ∀ pre m, pre ++ [m] <+: calls → ∀ lane ∈ m.puts (d.after pre), lane.Sorted

/-- A point that one peer has put or rewritten and a point that the other has
put or rewritten are merged in order. -/
def CrossesInOrder (d : ProjectDef) (first second : List Mutator) : Prop :=
  ∀ scope laneId xs ys zs, LaneMerge scope laneId d first second xs ys zs →
    ∀ p q, [p, q].Sublist zs → ListMerge.Crosses xs ys p q → pointT p ≤ pointT q

section Local

variable {d : ProjectDef}

theorem after_append (calls : List Mutator) (m : Mutator) :
    d.after (calls ++ [m]) = (m.edit (d.after calls)).result (d.after calls) := by
  rw [ProjectDef.after, List.foldl_append]
  rfl

/-- The lanes a call puts in are lanes of the document after it. -/
theorem hasLane_of_puts {m : Mutator} {lane : AutomationLaneDef} (hlane : lane ∈ m.puts d) :
    ((m.edit d).result d).HasLane lane := by
  have hinsert : ∀ {index : Int} {l : List AutomationLaneDef}, lane ∈ insertAt index lane l := by
    intro index l
    rw [insertAt]
    split
    · rename_i hin
      exact (List.mem_insertIdx (by omega)).mpr (Or.inl rfl)
    · exact List.mem_append_right _ List.mem_cons_self
  cases m with
  | named freshId op =>
      cases op with
      | addTrack track =>
          refine Or.inr ⟨track, ?_, hlane⟩
          exact List.mem_append_right _ List.mem_cons_self
      | restoreAutomationLane scope other index =>
          rw [Mutator.puts] at hlane
          rw [Mutator.edit, mutatorOf, restoreAutomationLane]
          split at hlane
          · cases hlane
          · rename_i hscope
            split at hlane
            · cases hlane
            · rename_i hnew
              obtain rfl := List.mem_singleton.mp hlane
              rw [if_neg hscope, if_neg hnew]
              cases scope with
              | none => exact Or.inl hinsert
              | some trackId =>
                  cases hfind : d.findTrack trackId with
                  | none => exact absurd ⟨rfl, by rw [Option.bind_some, hfind]; rfl⟩ hscope
                  | some t =>
                      refine Or.inr ⟨_, mem_updateFirst_of_find hfind, ?_⟩
                      exact hinsert
      | _ => cases hlane
  | addProcessor trackId proc index => cases hlane
  | addScene id name => cases hlane
  | addAutomationLane id scope target => cases hlane

/-- On one peer, the lanes are in order in every document exactly when no call
puts one in that is not. -/
theorem sorted_iff_putsSorted (hd : d.Sorted) (calls : List Mutator) :
    (∀ pre, pre <+: calls → (d.after pre).Sorted) ↔ PutsSorted d calls := by
  constructor
  · intro hall pre m hpre lane hlane
    have hafter := hall (pre ++ [m]) hpre
    rw [after_append] at hafter
    exact hafter lane (hasLane_of_puts hlane)
  · intro hputs pre
    induction pre using List.reverseRecOn with
    | nil => exact fun _ => hd
    | append_singleton pre m ih =>
        intro hpre
        have hbefore := ih ((List.prefix_append pre [m]).trans hpre)
        rw [after_append]
        exact (edit_sorted hbefore (hputs pre m hpre)).result hbefore

end Local

section Elsewhere

variable {d d' : ProjectDef} {scope : Option String} {laneId : String} {lane : AutomationLaneDef}

/-- A write elsewhere leaves the points of a lane. -/
theorem findLane_of_within {T : Set Target} (h : Within T d d')
    (htrack : ∀ trackId, scope = some trackId → Target.track trackId ∉ T)
    (hlane : Target.lane scope laneId ∉ T) (hpoints : Target.lanePoints scope laneId ∉ T)
    (hfind : d.findLane scope laneId = some lane) :
    ∃ lane', d'.findLane scope laneId = some lane' ∧ lane'.points = lane.points := by
  have hkept : ∀ {o o' : Option (List AutomationLaneDef)}, LanesWithin T scope o o' →
      find AutomationLaneDef.id laneId (o.getD []) = some lane →
        ∃ lane', find AutomationLaneDef.id laneId (o'.getD []) = some lane' ∧
          lane'.points = lane.points := by
    intro o o' hwithin hold
    have hrel := hwithin laneId hlane
    rw [hold] at hrel
    cases hnew : find AutomationLaneDef.id laneId (o'.getD []) with
    | none =>
        rw [hnew] at hrel
        cases hrel
    | some lane' =>
        rw [hnew] at hrel
        cases hrel with
        | some hleft => exact ⟨lane', rfl, hleft.points hpoints⟩
  rw [findLane_eq] at hfind ⊢
  cases scope with
  | none => exact hkept h.automation hfind
  | some trackId =>
      have hrel : Option.Rel (TrackWithin T trackId) (d.findTrack trackId)
          (d'.findTrack trackId) := h.tracks trackId (htrack trackId rfl)
      rw [lanesIn] at hfind ⊢
      cases hold : d.findTrack trackId with
      | none =>
          rw [hold] at hfind
          cases hfind
      | some t =>
          rw [hold] at hfind hrel
          cases hnew : d'.findTrack trackId with
          | none =>
              rw [hnew] at hrel
              cases hrel
          | some t' =>
              rw [hnew] at hrel
              cases hrel with
              | some hleft => exact hkept hleft.automation hfind

theorem findLane_of_within_lane {s : Option String} {id : String}
    (h : Within {Target.lane s id} d d') (hother : ¬(s = scope ∧ id = laneId))
    (hfind : d.findLane scope laneId = some lane) :
    ∃ lane', d'.findLane scope laneId = some lane' ∧ lane'.points = lane.points := by
  refine findLane_of_within h ?_ ?_ ?_ hfind
  · exact fun trackId _ hmem => nomatch hmem
  · intro hmem
    cases Set.mem_singleton_iff.mp hmem
    exact hother ⟨rfl, rfl⟩
  · exact fun hmem => nomatch hmem

theorem findLane_addTrack (track : TrackDef) (hfind : d.findLane scope laneId = some lane) :
    ({ d with tracks := d.tracks ++ [track] } : ProjectDef).findLane scope laneId = some lane := by
  cases scope with
  | none => exact hfind
  | some trackId =>
      obtain ⟨lanes, hlanes, hlane⟩ := Option.bind_eq_some_iff.mp hfind
      obtain ⟨t, ht, hauto⟩ := Option.bind_eq_some_iff.mp hlanes
      have hsame : ({ d with tracks := d.tracks ++ [track] } : ProjectDef).findTrack trackId =
          some t := by
        rw [ProjectDef.findTrack, List.find?_append]
        rw [ProjectDef.findTrack] at ht
        rw [ht]
        rfl
      rw [ProjectDef.findLane, lanesIn, hsame, Option.bind_some, hauto]
      exact hlane

/-- A lane is appended after the one that has its id. -/
theorem findLane_ensureLanes {f : List AutomationLaneDef → List AutomationLaneDef}
    (hf : ∀ lanes, find AutomationLaneDef.id laneId lanes = some lane →
      find AutomationLaneDef.id laneId (f lanes) = some lane)
    (hfind : d.findLane scope laneId = some lane) :
    (d.ensureLanes scope f).findLane scope laneId = some lane := by
  rw [findLane_eq] at hfind ⊢
  cases scope with
  | none => exact hf _ hfind
  | some trackId =>
      have htrack : (d.ensureLanes (some trackId) f).findTrack trackId =
          (d.findTrack trackId).map fun t =>
            { t with automation := some (f (t.automation.getD [])) } :=
        find_updateFirst_self fun _ => rfl
      rw [lanesIn] at hfind ⊢
      rw [htrack]
      cases hold : d.findTrack trackId with
      | none =>
          rw [hold] at hfind
          cases hfind
      | some t =>
          rw [hold] at hfind
          exact hf _ hfind

theorem addAutomationLane_findLane {id : String} {s : Option String} (target : AutomationTarget)
    (hfind : d.findLane scope laneId = some lane) :
    ∃ lane', ((addAutomationLane id s target d).result d).findLane scope laneId = some lane' ∧
      lane'.points = lane.points := by
  by_cases hsame : s = scope ∧ id = laneId
  · obtain ⟨rfl, rfl⟩ := hsame
    refine ⟨lane, ?_, rfl⟩
    rw [addAutomationLane]
    split
    · exact hfind
    · rw [Effect.result]
      apply findLane_ensureLanes _ hfind
      intro lanes hold
      rw [find] at hold ⊢
      rw [List.find?_append, hold]
      rfl
  · have hwithin := addAutomationLane_within (T := {Target.lane s id}) (d := d)
      (Set.mem_singleton _) target
    exact findLane_of_within_lane hwithin hsame hfind

theorem restoreAutomationLane_findLane {other : AutomationLaneDef} {s : Option String}
    (index : Int) (hfind : d.findLane scope laneId = some lane) :
    ∃ lane', ((restoreAutomationLane s other index d).result d).findLane scope laneId =
        some lane' ∧ lane'.points = lane.points := by
  by_cases hsame : s = scope ∧ other.id = laneId
  · -- A lane that has the id is there already.
    obtain ⟨rfl, rfl⟩ := hsame
    obtain ⟨lanes, hlanes, hlane⟩ := Option.bind_eq_some_iff.mp hfind
    have hany : (((lanesIn d s).getD []).any fun l => l.id == other.id) = true := by
      rw [hlanes, Option.getD_some, List.any_eq_true]
      exact ⟨lane, List.mem_of_find?_eq_some hlane, by simpa using key_of_find hlane⟩
    refine ⟨lane, ?_, rfl⟩
    rw [restoreAutomationLane, if_pos hany]
    split <;> exact hfind
  · have hwithin := restoreAutomationLane_within (T := {Target.lane s other.id}) (d := d)
      (Set.mem_singleton _) index
    exact findLane_of_within_lane hwithin hsame hfind

end Elsewhere

section Tracks

variable {d : ProjectDef} {scope : Option String} {laneId : String} {lane : AutomationLaneDef}
  {ps : List LanePoint} {points : List AutomationPointDef} {peer : Peer} {r : LaneReplica}

/-- The points of a replica have the times of the lane. -/
def Reads (ps : List LanePoint) (points : List AutomationPointDef) : Prop :=
  ps.map pointT = points.map AutomationPointDef.t

theorem reads_common (points : List AutomationPointDef) : Reads (commonPoints points) points := by
  apply List.ext_getElem
  · simp [commonPoints]
  · intro i hi hi'
    simp [commonPoints, pointT]

theorem Reads.insert (h : Reads ps points) (write : OpId) (t : Int) (v : ℚ) :
    Reads (ps.insertIdx (rank pointT t ps) (write, ⟨write, t⟩))
      (points.insertIdx (rank AutomationPointDef.t t points) ⟨t, v⟩) := by
  rw [Reads, List.map_insertIdx, List.map_insertIdx, rank_congr h]
  rw [Reads] at h
  rw [h]
  rfl

theorem Reads.eraseIdx (h : Reads ps points) (i : Nat) :
    Reads (ps.eraseIdx i) (points.eraseIdx i) := by
  rw [Reads] at h ⊢
  rw [← List.eraseIdx_map, ← List.eraseIdx_map, h]

theorem Reads.set (h : Reads ps points) {i : Nat} {old : LanePoint} (hold : ps[i]? = some old)
    (write : OpId) (t : Int) (v : ℚ) :
    Reads (if old.2.t = t then ps else ps.set i (old.1, ⟨write, t⟩)) (points.set i ⟨t, v⟩) := by
  rw [Reads] at h ⊢
  rw [List.map_set, ← h]
  split
  · rename_i hsame
    obtain ⟨hlt, heq⟩ := List.getElem?_eq_some_iff.mp hold
    have hin : i < (ps.map pointT).length := by rwa [List.length_map]
    have hget : (ps.map pointT)[i] = t := by
      rw [List.getElem_map, heq]
      exact hsame
    calc ps.map pointT = (ps.map pointT).set i (ps.map pointT)[i] :=
          (List.set_getElem_self hin).symm
      _ = (ps.map pointT).set i t := by rw [hget]
  · rw [List.map_set]
    rfl

/-- While the lane is there, its points follow the lane of the document. -/
def LaneReplica.Tracks (scope : Option String) (laneId : String) (r : LaneReplica) : Prop :=
  ∀ ps, r.points = some ps →
    ∃ lane, r.doc.findLane scope laneId = some lane ∧ Reads ps lane.points

theorem addAutomationPoint_follow (write : OpId) (freshId : String) (t : Int) (v : ℚ)
    (hfind : d.findLane scope laneId = some lane) (hps : Reads ps lane.points) :
    ∃ lane', ((addAutomationPoint scope laneId t v d).result d).findLane scope laneId =
        some lane' ∧
      Reads (Mutator.onPoints scope laneId write ps
        (.named freshId (.addAutomationPoint scope laneId t v))) lane'.points := by
  rw [addAutomationPoint, hfind]
  refine ⟨_, findLane_points hfind, ?_⟩
  rw [Mutator.onPoints, if_pos ⟨rfl, rfl⟩]
  exact hps.insert write (clampT t) (clampV v)

theorem moveAutomationPoint_follow (write : OpId) (freshId : String) (index t : Int) (v : ℚ)
    (hfind : d.findLane scope laneId = some lane) (hps : Reads ps lane.points) :
    ∃ lane', ((moveAutomationPoint scope laneId index t v d).result d).findLane scope laneId =
        some lane' ∧
      Reads (Mutator.onPoints scope laneId write ps
        (.named freshId (.moveAutomationPoint scope laneId index t v))) lane'.points := by
  rw [moveAutomationPoint, hfind, Mutator.onPoints]
  dsimp only
  by_cases hneg : index < 0
  · rw [if_pos hneg, if_neg fun h => h.2 hneg]
    exact ⟨lane, hfind, hps⟩
  · rw [if_neg hneg, if_pos ⟨⟨rfl, rfl⟩, hneg⟩]
    have hlength : ps.length = lane.points.length := by
      simpa using congrArg List.length hps
    cases hold : lane.points[index.toNat]? with
    | none =>
        have hnone : ps[index.toNat]? = none := by
          rw [List.getElem?_eq_none_iff] at hold ⊢
          omega
        rw [hnone]
        exact ⟨lane, hfind, hps⟩
    | some old =>
        obtain ⟨hlt, -⟩ := List.getElem?_eq_some_iff.mp hold
        have hsome : ps[index.toNat]? = some ps[index.toNat] :=
          List.getElem?_eq_getElem (by omega)
        rw [hsome]
        refine ⟨_, findLane_points hfind, ?_⟩
        have hrank : rank pointT (clampT t) (ps.eraseIdx index.toNat) =
            ((lane.points.eraseIdx index.toNat).filter fun p => decide (p.t ≤ clampT t)).length :=
          rank_congr (hps.eraseIdx index.toNat) (clampT t)
        rw [hrank]
        dsimp only
        split
        · exact hps.set hsome write (clampT t) (clampV v)
        · have hmoved := (hps.eraseIdx index.toNat).insert write (clampT t) (clampV v)
          rw [hrank] at hmoved
          exact hmoved

theorem deleteAutomationPoint_follow (write : OpId) (freshId : String) (index : Int)
    (hfind : d.findLane scope laneId = some lane) (hps : Reads ps lane.points) :
    ∃ lane', ((deleteAutomationPoint scope laneId index d).result d).findLane scope laneId =
        some lane' ∧
      Reads (Mutator.onPoints scope laneId write ps
        (.named freshId (.deleteAutomationPoint scope laneId index))) lane'.points := by
  rw [deleteAutomationPoint, hfind, Mutator.onPoints]
  dsimp only
  by_cases hneg : index < 0
  · rw [if_pos hneg, if_neg fun h => h.2 hneg]
    exact ⟨lane, hfind, hps⟩
  · rw [if_neg hneg, if_pos ⟨⟨rfl, rfl⟩, hneg⟩]
    have herase := hps.eraseIdx index.toNat
    split
    · rename_i hold
      rw [List.eraseIdx_of_length_le (List.getElem?_eq_none_iff.mp hold)] at herase
      exact ⟨lane, hfind, herase⟩
    · exact ⟨_, findLane_points hfind, herase⟩

/-- A call that names another lane leaves the points of this one. -/
theorem elsewhere_follow {op : InverseOp} (freshId : String)
    (htrack : ∀ trackId, scope = some trackId → Target.track trackId ∉ op.targets)
    (hlane : Target.lane scope laneId ∉ op.targets)
    (hpoints : Target.lanePoints scope laneId ∉ op.targets)
    (hfind : d.findLane scope laneId = some lane) :
    ∃ lane', ((mutatorOf freshId op d).result d).findLane scope laneId = some lane' ∧
      lane'.points = lane.points := by
  have hwithin := mutatorOf_within (T := {x | x ∈ op.targets}) (d := d) freshId op fun _ hx => hx
  exact findLane_of_within hwithin htrack hlane hpoints hfind

/-- So does one that touches the points of another lane. -/
theorem elsewhere_follow_point {op : InverseOp} (freshId : String) {s : Option String} {l : String}
    (htargets : op.targets = [Target.lanePoints s l]) (hother : ¬(s = scope ∧ l = laneId))
    (hfind : d.findLane scope laneId = some lane) :
    ∃ lane', ((mutatorOf freshId op d).result d).findLane scope laneId = some lane' ∧
      lane'.points = lane.points := by
  apply elsewhere_follow freshId _ _ _ hfind
  · simp [htargets]
  · simp [htargets]
  · simpa [htargets, eq_comm] using hother

theorem mutatorOf_follow (write : OpId) (freshId : String) (op : InverseOp)
    (hkept : (Mutator.named freshId op).removesLane scope laneId = false)
    (hfind : d.findLane scope laneId = some lane) (hps : Reads ps lane.points) :
    ∃ lane', ((mutatorOf freshId op d).result d).findLane scope laneId = some lane' ∧
      Reads (Mutator.onPoints scope laneId write ps (.named freshId op)) lane'.points := by
  have hleft : (∃ lane', ((mutatorOf freshId op d).result d).findLane scope laneId = some lane' ∧
      lane'.points = lane.points) →
        ∃ lane', ((mutatorOf freshId op d).result d).findLane scope laneId = some lane' ∧
          Reads ps lane'.points := by
    rintro ⟨lane', hfind', heq⟩
    exact ⟨lane', hfind', by rwa [heq]⟩
  cases op with
  | addAutomationPoint s l t v =>
      by_cases hsame : s = scope ∧ l = laneId
      · obtain ⟨rfl, rfl⟩ := hsame
        exact addAutomationPoint_follow write freshId t v hfind hps
      · rw [Mutator.onPoints, if_neg hsame]
        exact hleft (elsewhere_follow_point freshId rfl hsame hfind)
  | moveAutomationPoint s l index t v =>
      by_cases hsame : s = scope ∧ l = laneId
      · obtain ⟨rfl, rfl⟩ := hsame
        exact moveAutomationPoint_follow write freshId index t v hfind hps
      · rw [Mutator.onPoints, if_neg fun h => hsame h.1]
        exact hleft (elsewhere_follow_point freshId rfl hsame hfind)
  | deleteAutomationPoint s l index =>
      by_cases hsame : s = scope ∧ l = laneId
      · obtain ⟨rfl, rfl⟩ := hsame
        exact deleteAutomationPoint_follow write freshId index hfind hps
      · rw [Mutator.onPoints, if_neg fun h => hsame h.1]
        exact hleft (elsewhere_follow_point freshId rfl hsame hfind)
  | addTrack track => exact hleft ⟨lane, findLane_addTrack track hfind, rfl⟩
  | restoreAutomationLane s other index =>
      exact hleft (restoreAutomationLane_findLane index hfind)
  | deleteTrack trackId =>
      apply hleft
      apply elsewhere_follow freshId _ _ _ hfind
      · intro t hscope hmem
        obtain rfl : t = trackId := by simpa [InverseOp.targets] using hmem
        rw [Mutator.removesLane, hscope, beq_self_eq_true] at hkept
        cases hkept
      · simp [InverseOp.targets]
      · simp [InverseOp.targets]
  | deleteAutomationLane s l =>
      apply hleft
      apply elsewhere_follow freshId _ _ _ hfind
      · simp [InverseOp.targets]
      · simp only [InverseOp.targets, List.mem_singleton, Target.lane.injEq]
        rintro ⟨rfl, rfl⟩
        simp [Mutator.removesLane] at hkept
      · simp [InverseOp.targets]
  | _ =>
      apply hleft
      apply elsewhere_follow freshId _ _ _ hfind <;> simp [InverseOp.targets]

theorem edit_follow (write : OpId) {m : Mutator} (hkept : m.removesLane scope laneId = false)
    (hfind : d.findLane scope laneId = some lane) (hps : Reads ps lane.points) :
    ∃ lane', ((m.edit d).result d).findLane scope laneId = some lane' ∧
      Reads (m.onPoints scope laneId write ps) lane'.points := by
  cases m with
  | named freshId op => exact mutatorOf_follow write freshId op hkept hfind hps
  | addProcessor trackId proc index =>
      have hwithin := addProcessor_within (T := {Target.processor trackId proc.id}) (d := d)
        (Set.mem_singleton _) index
      obtain ⟨lane', hfind', heq⟩ :=
        findLane_of_within hwithin (by simp) (by simp) (by simp) hfind
      exact ⟨lane', hfind', by rwa [heq]⟩
  | addScene id name => exact ⟨lane, hfind, hps⟩
  | addAutomationLane id s target =>
      obtain ⟨lane', hfind', heq⟩ := addAutomationLane_findLane target hfind
      exact ⟨lane', hfind', by rwa [heq]⟩

theorem laneTracks_start (scope : Option String) (laneId : String) (d : ProjectDef) :
    (LaneReplica.start scope laneId d).Tracks scope laneId := by
  intro ps hps
  obtain ⟨lane, hlane, rfl⟩ := Option.map_eq_some_iff.mp hps
  exact ⟨lane, hlane, reads_common lane.points⟩

theorem LaneReplica.Tracks.call (h : r.Tracks scope laneId) (m : Mutator) :
    (r.call scope laneId peer m).Tracks scope laneId := by
  intro ps hps
  dsimp only [LaneReplica.call] at hps
  split at hps
  · cases hps
  · rename_i hkept
    obtain ⟨before, hbefore, rfl⟩ := Option.map_eq_some_iff.mp hps
    obtain ⟨lane, hlane, hreads⟩ := h before hbefore
    exact edit_follow _ (Bool.not_eq_true _ ▸ hkept) hlane hreads

theorem LaneReplica.Tracks.calls (h : r.Tracks scope laneId) (ms : List Mutator) :
    (r.calls scope laneId peer ms).Tracks scope laneId := by
  induction ms generalizing r with
  | nil => exact h
  | cons m ms ih => exact ih (h.call m)

theorem doc_calls (ms : List Mutator) :
    (r.calls scope laneId peer ms).doc = r.doc.after ms := by
  induction ms generalizing r with
  | nil => rfl
  | cons m ms ih => exact @ih (r.call scope laneId peer m)

/-- The points of a replica are in order as those of its document. -/
theorem ascending_of_tracks (h : r.Tracks scope laneId) (hdoc : r.doc.Sorted)
    (hps : r.points = some ps) : Ascending pointT ps := by
  obtain ⟨lane, hlane, hreads⟩ := h ps hps
  exact (ascending_congr hreads).mpr (hdoc lane (hasLane_of_findLane hlane))

end Tracks

section Merged

/-- Two peers start from a document whose lanes are in order and call any
mutators. All lanes are in order throughout, and once they are merged, exactly
when no call puts in a lane that is not in order and, in every merged lane, the
points that one peer has written come in order with those that the other has. -/
theorem sorted_iff_of_calls (d : ProjectDef) (hd : d.Sorted) (first second : List Mutator) :
    SortedThroughout d first second ↔
      PutsSorted d first ∧ PutsSorted d second ∧ CrossesInOrder d first second := by
  rw [SortedThroughout, sorted_iff_putsSorted hd, sorted_iff_putsSorted hd]
  refine and_congr_right fun hfirst => and_congr_right fun hsecond => ?_
  have hdoc : ∀ {calls}, PutsSorted d calls → (d.after calls).Sorted := fun hputs =>
    (sorted_iff_putsSorted hd _).mpr hputs _ List.prefix_rfl
  have hmerged : ∀ scope laneId xs ys zs, LaneMerge scope laneId d first second xs ys zs →
      (Ascending pointT zs ↔
        ∀ p q, [p, q].Sublist zs → ListMerge.Crosses xs ys p q → pointT p ≤ pointT q) := by
    intro scope laneId xs ys zs hlane
    have hstart := laneTracks_start scope laneId d
    have hxs : Ascending pointT xs := by
      have hcalls : ((LaneReplica.start scope laneId d).calls scope laneId .first first).Tracks
          scope laneId := hstart.calls first
      apply ascending_of_tracks hcalls _ hlane.first
      rw [doc_calls]
      exact hdoc hfirst
    have hys : Ascending pointT ys := by
      have hcalls : ((LaneReplica.start scope laneId d).calls scope laneId .second second).Tracks
          scope laneId := hstart.calls second
      apply ascending_of_tracks hcalls _ hlane.second
      rw [doc_calls]
      exact hdoc hsecond
    obtain ⟨base, -, hmerge⟩ := hlane.merged
    exact hmerge.pairwise_iff hxs hys
  constructor
  · intro hall scope laneId xs ys zs hlane
    exact (hmerged scope laneId xs ys zs hlane).mp (hall scope laneId xs ys zs hlane)
  · intro hcross scope laneId xs ys zs hlane
    exact (hmerged scope laneId xs ys zs hlane).mpr (hcross scope laneId xs ys zs hlane)

/-- A gain curve of the master from one point to another. -/
def oneCurve : ProjectDef where
  automation := some
    [{ id := "l", target := { param := "gain" }, points := [⟨0, 0⟩, ⟨100, 1⟩] }]

def dragPoint (index t : Int) (v : ℚ) : Mutator :=
  .named "n" (.moveAutomationPoint none "l" index t v)

theorem oneCurve_sorted : oneCurve.Sorted := by
  rintro lane (hmaster | ⟨t, ht, -⟩)
  · cases List.mem_singleton.mp hmaster
    exact List.pairwise_pair.mpr (by decide)
  · cases ht

theorem putsSorted_drag (d : ProjectDef) (index t : Int) (v : ℚ) :
    PutsSorted d [dragPoint index t v] := by
  intro pre m hpre lane hlane
  have hm : m ∈ [dragPoint index t v] := hpre.subset (List.mem_append_right pre List.mem_cons_self)
  rw [List.mem_singleton.mp hm] at hlane
  cases hlane

theorem sorted_iff_of_calls_drags :
    oneCurve.Sorted ∧
      (SortedThroughout oneCurve [dragPoint 0 90 0] [dragPoint 1 95 1] ↔
        PutsSorted oneCurve [dragPoint 0 90 0] ∧ PutsSorted oneCurve [dragPoint 1 95 1] ∧
          CrossesInOrder oneCurve [dragPoint 0 90 0] [dragPoint 1 95 1]) :=
  ⟨oneCurve_sorted,
    sorted_iff_of_calls oneCurve oneCurve_sorted [dragPoint 0 90 0] [dragPoint 1 95 1]⟩

/-- The points at 0 and 100 after one peer has dragged the first to 90 and the
other the second to 10. -/
def draggedBoth : List LanePoint :=
  [(⟨none, 0⟩, ⟨⟨some .first, 0⟩, 90⟩), (⟨none, 1⟩, ⟨⟨some .second, 0⟩, 10⟩)]

theorem laneMerge_draggedBoth :
    LaneMerge none "l" oneCurve [dragPoint 0 90 0] [dragPoint 1 10 1]
      [(⟨none, 0⟩, ⟨⟨some .first, 0⟩, 90⟩), (⟨none, 1⟩, ⟨⟨none, 1⟩, 100⟩)]
      [(⟨none, 0⟩, ⟨⟨none, 0⟩, 0⟩), (⟨none, 1⟩, ⟨⟨some .second, 0⟩, 10⟩)] draggedBoth where
  first := rfl
  second := rfl
  merged := by
    refine ⟨commonPoints [⟨0, 0⟩, ⟨100, 1⟩], rfl, ?_⟩
    exact
      { nodup := by decide
        members := fun i => by simp [ids, draggedBoth, commonPoints]
        record := by decide
        written := by decide
        inFirst := fun i j _ _ hij => hij
        inSecond := fun i j _ _ hij => hij }

/-- Each drag crosses no neighbour and is written in place. -/
theorem not_sorted_calls_dragged :
    ¬∀ (d : ProjectDef) (first second : List Mutator), d.Sorted → PutsSorted d first →
      PutsSorted d second → SortedThroughout d first second := by
  intro hall
  have hsorted := (hall oneCurve [dragPoint 0 90 0] [dragPoint 1 10 1] oneCurve_sorted
    (putsSorted_drag _ _ _ _) (putsSorted_drag _ _ _ _)).2.2 _ _ _ _ _ laneMerge_draggedBoth
  have hbad : pointT (⟨none, 0⟩, ⟨⟨some .first, 0⟩, 90⟩) ≤
      pointT (⟨none, 1⟩, ⟨⟨some .second, 0⟩, 10⟩) :=
    List.pairwise_pair.mp (ListMerge.ascending_iff.mp hsorted)
  exact absurd hbad (by decide)

end Merged

end DawProject.Document
