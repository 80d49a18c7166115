import DawProject.Audio.Automation
import DawProject.Engine.Stem

/-!
A stem and the live mixer, `renderTrackStem` of
`engine/src/render/stem_render.cpp`. The reduced document takes the gain and the
pan out of the track and keeps its curves, so it changes with a curve of the
gain or of the pan, which the reader of the stem plays as well.
-/

namespace DawProject.Engine

open Floats

variable {F D : Type}

/-- A curve of the gain or of the pan of the track. -/
def AutomationLaneDef.isMixer (lane : AutomationLaneDef F) : Bool :=
  lane.processor_id == "" && (lane.param == "gain" || lane.param == "pan")

/-- Two states of a track that differ in its gain, its pan and their curves. -/
structure MixerAlike (track track' : TrackDef F) : Prop where
  rest : track' =
    { track with gain := track'.gain, pan := track'.pan, automation := track'.automation }
  devices : track'.automation.filter (fun lane => !lane.isMixer) =
    track.automation.filter (fun lane => !lane.isMixer)

/-- Two states of a project that differ in the mixer of one track, the first of
its id. -/
structure ProjectAlike (project project' : ProjectDef F) (track track' : TrackDef F) : Prop where
  rest : project' = { project with tracks := project'.tracks }
  tracks : ∃ before after, project.tracks = before ++ track :: after ∧
    project'.tracks = before ++ track' :: after ∧ ∀ t ∈ before, t.id ≠ track.id
  alike : MixerAlike track track'

/-- Two curves that are written alike: a text ends at its first NUL. -/
structure LaneAlike (lane lane' : AutomationLaneDef F) : Prop where
  id : cStr lane.id = cStr lane'.id
  enabled : lane.enabled = lane'.enabled
  time_base_ticks : lane.time_base_ticks = lane'.time_base_ticks
  param : cStr lane.param = cStr lane'.param
  ofTrack : lane.processor_id = "" ↔ lane'.processor_id = ""
  processor_id : cStr lane.processor_id = cStr lane'.processor_id
  points : lane.points = lane'.points

section Written

variable [Floats F D]

theorem widen_injective : Function.Injective (widen : F → D) := by
  intro x y hxy
  rw [← narrow_widen x, ← narrow_widen y, hxy]

theorem writePoint_injective : Function.Injective (writePoint : AutomationPointDef F → AmValue D) := by
  rintro ⟨t, v⟩ ⟨t', v'⟩ hsame
  simp only [writePoint, AmValue.map.injEq, List.cons.injEq, Prod.mk.injEq, AmValue.int.injEq,
    AmValue.f64.injEq, true_and, and_true] at hsame
  obtain ⟨rfl, hv⟩ := hsame
  rw [widen_injective hv]

/-- A field of a known place in a map is written alike. -/
theorem field_eq_iff {p q : Prop} [Decidable p] [Decidable q] (key : String) (x y : AmValue D) :
    field p key x = field q key y ↔ (p ↔ q) ∧ (p → x = y) := by
  unfold field
  by_cases hp : p <;> by_cases hq : q <;> simp [hp, hq]

theorem writeLane_eq_iff (lane lane' : AutomationLaneDef F) :
    (writeLane lane : AmValue D) = writeLane lane' ↔ LaneAlike lane lane' := by
  have hpoints : lane.points.map (writePoint (D := D)) = lane'.points.map writePoint ↔
      lane.points = lane'.points := (List.map_injective_iff.mpr writePoint_injective).eq_iff
  constructor
  · intro hsame
    simp only [writeLane, AmValue.map.injEq, List.cons_append, List.nil_append, List.cons.injEq,
      Prod.mk.injEq, AmValue.str.injEq, AmValue.bool.injEq, true_and] at hsame
    obtain ⟨hid, henabled, htail⟩ := hsame
    have hends : lane.time_base_ticks = lane'.time_base_ticks ∧
        field (lane.processor_id ≠ "") "processorId" (.str (cStr lane.processor_id) : AmValue D) =
          field (lane'.processor_id ≠ "") "processorId" (.str (cStr lane'.processor_id)) ∧
        cStr lane.param = cStr lane'.param ∧ lane.points = lane'.points := by
      cases hbase : lane.time_base_ticks <;> cases hbase' : lane'.time_base_ticks <;>
        simp [field, hbase, hbase', hpoints] at htail ⊢ <;>
        simp [htail]
    obtain ⟨hbase, hfield, hparam, hpts⟩ := hends
    obtain ⟨htrack, hprocessor⟩ := (field_eq_iff _ _ _).mp hfield
    refine ⟨hid, henabled, hbase, hparam, not_iff_not.mp htrack, ?_, hpts⟩
    by_cases hempty : lane.processor_id = ""
    · rw [hempty, (not_iff_not.mp htrack).mp hempty]
    · exact AmValue.str.inj (hprocessor hempty)
  · rintro ⟨hid, henabled, hbase, hparam, htrack, hprocessor, hpts⟩
    simp only [writeLane, hid, henabled, hbase, hparam, htrack, hprocessor, hpts, field,
      ne_eq]

theorem writeLanes_eq_iff (lanes lanes' : List (AutomationLaneDef F)) :
    lanes.map (writeLane (D := D)) = lanes'.map writeLane ↔
      List.Forall₂ LaneAlike lanes lanes' := by
  rw [← List.forall₂_eq_eq_eq, List.forall₂_map_left_iff, List.forall₂_map_right_iff]
  simp only [writeLane_eq_iff]

/-- The curves of a track are written whole. -/
theorem writeTrack_eq_iff (track : TrackDef F) (lanes lanes' : List (AutomationLaneDef F)) :
    (writeTrack { track with automation := lanes } : AmValue D) =
        writeTrack { track with automation := lanes' } ↔
      List.Forall₂ LaneAlike lanes lanes' := by
  have hnil : lanes.map (writeLane (D := D)) = lanes'.map writeLane →
      (lanes = [] ↔ lanes' = []) := by
    intro hlanes
    rw [← List.map_eq_nil_iff (f := writeLane (D := D)), hlanes, List.map_eq_nil_iff]
  rw [← writeLanes_eq_iff (D := D)]
  simp only [writeTrack, AmValue.map.injEq, List.append_cancel_left_eq]
  rw [field_eq_iff]
  constructor
  · rintro ⟨hempty, hlanes⟩
    by_cases hfirst : lanes = []
    · rw [hfirst, (not_iff_not.mp hempty).mp hfirst]
    · exact AmValue.list.inj (hlanes hfirst)
  · intro hlanes
    exact ⟨not_congr (hnil hlanes), fun _ => congrArg AmValue.list hlanes⟩

theorem addTrack_create_injective [OfNat F 1] (sample_rate : Nat) (track track' : TrackDef F) :
    (addTrack (create (F := F) sample_rate) track : AmValue D) =
        addTrack (create (F := F) sample_rate) track' ↔
      (writeTrack track : AmValue D) = writeTrack track' := by
  simp [addTrack, create, AmValue.pushTo]

variable [OfNat F 0] [OfNat F 1]

/-- Only the curves of the reduced track remain of its mixer. -/
theorem reduceTrack_of_alike {track track' : TrackDef F} (halike : MixerAlike track track')
    (node_index : Nat) :
    reduceTrack track' node_index =
      { reduceTrack track node_index with automation := track'.automation } := by
  rw [halike.rest]
  rfl

/-- The track is found in either project. -/
theorem reducedDocument_of_alike {project project' : ProjectDef F} {track track' : TrackDef F}
    (halike : ProjectAlike project project' track track') (node_id : String) (node_index : Nat)
    (hnode : track.chain.findIdx? (fun node => node.id == node_id) = some node_index) :
    (reducedDocument project track.id node_id : Except String (AmValue D)) =
        .ok (addTrack (create (F := F) project.sample_rate) (reduceTrack track node_index)) ∧
      (reducedDocument project' track.id node_id : Except String (AmValue D)) =
        .ok (addTrack (create (F := F) project.sample_rate) (reduceTrack track' node_index)) := by
  obtain ⟨before, after, htracks, htracks', hfirst⟩ := halike.tracks
  have hskip : before.find? (fun t => t.id == track.id) = none := by
    rw [List.find?_eq_none]
    intro t ht
    simp [hfirst t ht]
  have hid : track'.id = track.id := by rw [halike.alike.rest]
  have hchain : track'.chain = track.chain := by rw [halike.alike.rest]
  have hrate : project'.sample_rate = project.sample_rate := by rw [halike.rest]
  have hfind : project.tracks.find? (fun t => t.id == track.id) = some track := by
    rw [htracks, List.find?_append, hskip, Option.none_or]
    simp
  have hfind' : project'.tracks.find? (fun t => t.id == track.id) = some track' := by
    rw [htracks', List.find?_append, hskip, Option.none_or]
    simp [hid]
  constructor
  · simp only [reducedDocument, hfind, hnode]
  · simp only [reducedDocument, hfind', hchain, hnode, hrate]

/-- The stem is independent of the live mixer exactly as far as the curves are
the same. -/
theorem reducedDocument_eq_iff {project project' : ProjectDef F} {track track' : TrackDef F}
    (halike : ProjectAlike project project' track track') {node_id : String}
    (hnode : ∃ node ∈ track.chain, node.id = node_id) :
    (reducedDocument project track.id node_id : Except String (AmValue D)) =
        reducedDocument project' track.id node_id ↔
      List.Forall₂ LaneAlike track.automation track'.automation := by
  obtain ⟨node_index, hindex⟩ : ∃ node_index,
      track.chain.findIdx? (fun node => node.id == node_id) = some node_index := by
    apply Option.isSome_iff_exists.mp
    rw [List.findIdx?_isSome, List.any_eq_true]
    obtain ⟨node, hmem, hid⟩ := hnode
    exact ⟨node, hmem, by simp [hid]⟩
  obtain ⟨hfirst, hsecond⟩ := reducedDocument_of_alike (D := D) halike node_id node_index hindex
  rw [hfirst, hsecond, Except.ok.injEq, addTrack_create_injective,
    reduceTrack_of_alike halike.alike]
  exact writeTrack_eq_iff (reduceTrack track node_index) track.automation track'.automation

end Written

section Played

variable [Floats F D] [Sub F] [Mul F] [OfNat F 0] [OfNat F 1] [OfNat F 2]
  [Add D] [Sub D] [Mul D] [Div D]

/-- The renderer of a stem plays the track at gain 1 and pan 0, but for the
curves of the track, which the reader of the stem applies again. -/
theorem applied_of_rendered (sample_rate : Nat) (track : TrackDef F) (node_index : Nat) :
    ∃ stem played, renderedProject (addTrack (create (F := F) sample_rate : AmValue D)
        (reduceTrack track node_index)) = some stem ∧ stem.tracks = [played] ∧
      ∀ position, Audio.appliedGain played position =
          (match Audio.laneValueFor (track.automation.map (echoLane (D := D))) "gain" position with
            | some v => Audio.mapGain v
            | none => 1) ∧
        Audio.appliedPan played position =
          (match Audio.laneValueFor (track.automation.map (echoLane (D := D))) "pan" position with
            | some v => Audio.mapPan v
            | none => 0) := by
  refine ⟨_, _, renderedProject_create sample_rate (reduceTrack track node_index),
    congrArg ProjectDef.tracks (getDocument_addTrack_create _ _), ?_⟩
  intro position
  rw [readTrack_writeTrack]
  exact ⟨rfl, rfl⟩

end Played

/-- A track whose gain is 1 by hand, with and without a curve that holds it at
the mapped value 2. -/
def mixedTrack (gain : ℚ) (automation : List (AutomationLaneDef ℚ)) : TrackDef ℚ where
  id := "t"
  gain := gain
  pan := 0
  chain := [{ id := "p", type := "vst3" }]
  automation := automation

def loudLane : AutomationLaneDef ℚ where
  id := "l"
  param := "gain"
  points := [⟨0, 1⟩]

def mixedProject (track : TrackDef ℚ) : ProjectDef ℚ where
  master_gain := 1
  tracks := [track]

theorem projectAlike_mixed (gain gain' : ℚ) (lanes lanes' : List (AutomationLaneDef ℚ))
    (hlanes : lanes'.filter (fun lane => !lane.isMixer) = lanes.filter fun lane => !lane.isMixer) :
    ProjectAlike (mixedProject (mixedTrack gain lanes)) (mixedProject (mixedTrack gain' lanes'))
      (mixedTrack gain lanes) (mixedTrack gain' lanes') :=
  ⟨rfl, ⟨[], [], rfl, rfl, nofun⟩, rfl, hlanes⟩

/-- The gain alone does not matter. -/
theorem reducedDocument_eq_gain :
    (reducedDocument (mixedProject (mixedTrack 1 [])) "t" "p" : Except String (AmValue ℚ)) =
      reducedDocument (mixedProject (mixedTrack 2 [])) "t" "p" :=
  (reducedDocument_eq_iff (projectAlike_mixed 1 2 [] [] rfl)
    ⟨{ id := "p", type := "vst3" }, List.mem_singleton_self _, rfl⟩).mpr .nil

/-- A curve that doubles the gain stays in the reduced document, and the
renderer of the stem applies it. -/
theorem not_reducedDocument_eq_loudLane :
    ¬∀ (project project' : ProjectDef ℚ) (track track' : TrackDef ℚ),
      ProjectAlike project project' track track' →
      (reducedDocument project track.id "p" : Except String (AmValue ℚ)) =
        reducedDocument project' track.id "p" := by
  intro hall
  have halike := projectAlike_mixed 1 1 [] [loudLane] rfl
  have hsame := hall _ _ _ _ halike
  obtain ⟨hfirst, hsecond⟩ := reducedDocument_of_alike (D := ℚ) halike "p" 0 rfl
  rw [hfirst, hsecond, Except.ok.injEq, addTrack_create_injective,
    reduceTrack_of_alike halike.alike] at hsame
  cases (writeTrack_eq_iff (reduceTrack (mixedTrack 1 []) 0) [] [loudLane]).mp hsame

end DawProject.Engine
