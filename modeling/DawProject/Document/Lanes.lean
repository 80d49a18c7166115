import DawProject.Lib.ListMerge
import DawProject.Document.Frame

/-!
The order of automation points on one peer. The points of a lane are put in
order of `t` where they are written and are not put in order again when the
curve is read. Every mutator keeps all lanes in order; a lane that a call brings
along is in order in the document if it was so before.
-/

namespace DawProject.Document

open Keyed
open ListMerge (Ascending rank)

/-- A lane of the master or of a track. -/
def ProjectDef.HasLane (d : ProjectDef) (lane : AutomationLaneDef) : Prop :=
  lane ∈ d.automation.getD [] ∨ ∃ t ∈ d.tracks, lane ∈ t.automation.getD []

/-- What `automationValueAt` requires of a lane. -/
def AutomationLaneDef.Sorted (lane : AutomationLaneDef) : Prop :=
  Ascending AutomationPointDef.t lane.points

def ProjectDef.Sorted (d : ProjectDef) : Prop := ∀ lane, d.HasLane lane → lane.Sorted

/-- The lanes that a call is given. -/
def InverseOp.lanes : InverseOp → List AutomationLaneDef
  | .addTrack track => track.automation.getD []
  | .restoreAutomationLane _ lane _ => [lane]
  | _ => []

/-- The lanes that a call puts into the document. -/
def Mutator.puts (d : ProjectDef) : Mutator → List AutomationLaneDef
  | .named _ (.addTrack track) => track.automation.getD []
  | .named _ (.restoreAutomationLane scope lane _) =>
      if scope.isSome ∧ (scope.bind d.findTrack).isNone then []
      else if ((lanesIn d scope).getD []).any fun l => l.id == lane.id then []
      else [lane]
  | _ => []

/-- The lanes of the document are those there were, and the inverse brings none. -/
def Effect.Still (d : ProjectDef) : Effect → Prop
  | .writes inverse doc => (∀ lane, doc.HasLane lane → d.HasLane lane) ∧ inverse.lanes = []
  | _ => True

/-- Every lane is in order, those that the inverse would bring back among them. -/
def Effect.Sorted : Effect → Prop
  | .writes inverse doc => doc.Sorted ∧ ∀ lane ∈ inverse.lanes, lane.Sorted
  | _ => True

section Lookup

variable {d : ProjectDef} {inverse : InverseOp} {trackId clipId : String} {scope : Option String}
  {lane : AutomationLaneDef} {lanes : List AutomationLaneDef}

theorem hasLane_of_lanesIn (hlanes : lanesIn d scope = some lanes) (hlane : lane ∈ lanes) :
    d.HasLane lane := by
  cases scope with
  | none =>
      rw [lanesIn] at hlanes
      left
      rwa [hlanes]
  | some trackId =>
      obtain ⟨t, hfind, ht⟩ := Option.bind_eq_some_iff.mp hlanes
      refine Or.inr ⟨t, List.mem_of_find?_eq_some hfind, ?_⟩
      rwa [ht]

theorem hasLane_of_findLane {laneId : String} (hfind : d.findLane scope laneId = some lane) :
    d.HasLane lane := by
  obtain ⟨lanes, hlanes, hlane⟩ := Option.bind_eq_some_iff.mp hfind
  exact hasLane_of_lanesIn hlanes (List.mem_of_find?_eq_some hlane)

theorem hasLane_of_lanesIn_getD (hlane : lane ∈ (lanesIn d scope).getD []) : d.HasLane lane := by
  cases hlanes : lanesIn d scope with
  | none =>
      rw [hlanes] at hlane
      cases hlane
  | some lanes =>
      rw [hlanes] at hlane
      exact hasLane_of_lanesIn hlanes hlane

theorem hasLane_updateTrack {f : TrackDef → TrackDef} (hf : ∀ t, (f t).automation = t.automation)
    (h : (d.updateTrack trackId f).HasLane lane) : d.HasLane lane := by
  rcases h with hmaster | ⟨t, ht, hlane⟩
  · exact Or.inl hmaster
  · rcases mem_updateFirst ht with hold | ⟨before, hbefore, rfl⟩
    · exact Or.inr ⟨t, hold, hlane⟩
    · rw [hf] at hlane
      exact Or.inr ⟨before, List.mem_of_find?_eq_some hbefore, hlane⟩

theorem hasLane_ensureV2 (h : (ensureV2 d).HasLane lane) : d.HasLane lane := by
  rw [ensureV2] at h
  split at h <;> exact h

theorem hasLane_bumped {musical : Prop} [Decidable musical]
    (h : (if musical then ensureV2 d else d).HasLane lane) : d.HasLane lane := by
  split at h
  · exact hasLane_ensureV2 h
  · exact h

/-- A write of lanes where they are, or where they are created. -/
theorem hasLane_setLanes {f : Option (List AutomationLaneDef) → Option (List AutomationLaneDef)}
    (h : (d.updateTrack trackId fun t => { t with automation := f t.automation }).HasLane lane) :
    d.HasLane lane ∨ ∃ t, d.findTrack trackId = some t ∧ lane ∈ (f t.automation).getD [] := by
  rcases h with hmaster | ⟨t, ht, hlane⟩
  · exact Or.inl (Or.inl hmaster)
  · rcases mem_updateFirst ht with hold | ⟨before, hbefore, rfl⟩
    · exact Or.inl (Or.inr ⟨t, hold, hlane⟩)
    · exact Or.inr ⟨before, hbefore, hlane⟩

theorem hasLane_updateLanes {f : List AutomationLaneDef → List AutomationLaneDef}
    (h : (d.updateLanes scope f).HasLane lane) :
    d.HasLane lane ∨ ∃ lanes, lanesIn d scope = some lanes ∧ lane ∈ f lanes := by
  have hmap : ∀ {lanes : Option (List AutomationLaneDef)}, lane ∈ (lanes.map f).getD [] →
      ∃ old, lanes = some old ∧ lane ∈ f old := by
    intro lanes hlane
    cases lanes with
    | none => cases hlane
    | some old => exact ⟨old, rfl, hlane⟩
  cases scope with
  | none =>
      rcases h with hmaster | htrack
      · exact Or.inr (hmap hmaster)
      · exact Or.inl (Or.inr htrack)
  | some trackId =>
      rcases hasLane_setLanes h with hold | ⟨t, hfind, hlane⟩
      · exact Or.inl hold
      · obtain ⟨old, hold, hnew⟩ := hmap hlane
        refine Or.inr ⟨old, ?_, hnew⟩
        rw [lanesIn, hfind, Option.bind_some, hold]

theorem hasLane_ensureLanes {f : List AutomationLaneDef → List AutomationLaneDef}
    (h : (d.ensureLanes scope f).HasLane lane) :
    d.HasLane lane ∨ lane ∈ f ((lanesIn d scope).getD []) := by
  cases scope with
  | none =>
      rcases h with hmaster | htrack
      · exact Or.inr hmaster
      · exact Or.inl (Or.inr htrack)
  | some trackId =>
      rcases hasLane_setLanes (f := fun lanes => some (f (lanes.getD []))) h with
        hold | ⟨t, hfind, hlane⟩
      · exact Or.inl hold
      · right
        rw [lanesIn, hfind, Option.bind_some]
        exact hlane

theorem mem_insertAt {α : Type} {a b : α} {l : List α} {index : Int}
    (h : b ∈ insertAt index a l) : b = a ∨ b ∈ l := by
  rw [insertAt] at h
  split at h
  · exact List.eq_or_mem_of_mem_insertIdx h
  · rcases List.mem_append.mp h with hold | hnew
    · exact Or.inr hold
    · exact Or.inl (List.mem_singleton.mp hnew)

theorem still_updateTrack {f : TrackDef → TrackDef} (hf : ∀ t, (f t).automation = t.automation)
    (hinverse : inverse.lanes = []) : (Effect.writes inverse (d.updateTrack trackId f)).Still d :=
  ⟨fun _ => hasLane_updateTrack hf, hinverse⟩

/-- A clip or a processor of a track is rewritten. -/
theorem still_updateClip {f : ClipDef → ClipDef} (hinverse : inverse.lanes = []) :
    (Effect.writes inverse (d.updateClip trackId clipId f)).Still d :=
  still_updateTrack (fun _ => rfl) hinverse

/-- A write after the lazy bump. -/
theorem still_bumped {f : TrackDef → TrackDef} (hf : ∀ t, (f t).automation = t.automation)
    (musical : Prop) [Decidable musical] (hinverse : inverse.lanes = []) :
    (Effect.writes inverse ((if musical then ensureV2 d else d).updateTrack trackId f)).Still d :=
  ⟨fun _ hlane => hasLane_bumped (hasLane_updateTrack hf hlane), hinverse⟩

end Lookup

section Still

variable {d : ProjectDef} {trackId clipId processorId key : String}

theorem setTrackGain_still (gain : ℚ) : (setTrackGain trackId gain d).Still d := by
  rw [setTrackGain]
  split
  · trivial
  · exact still_updateTrack (fun _ => rfl) rfl

theorem setTrackPan_still (pan : ℚ) : (setTrackPan trackId pan d).Still d := by
  rw [setTrackPan]
  split
  · trivial
  · exact still_updateTrack (fun _ => rfl) rfl

theorem setTrackOrder_still (order : ℚ) : (setTrackOrder trackId order d).Still d := by
  rw [setTrackOrder]
  split
  · trivial
  · split
    · trivial
    · refine still_updateTrack (fun _ => rfl) ?_
      split <;> rfl

theorem clearTrackOrder_still : (clearTrackOrder trackId d).Still d := by
  rw [clearTrackOrder]
  split
  · trivial
  · exact still_updateTrack (fun _ => rfl) rfl

theorem renameTrack_still (name : String) : (renameTrack trackId name d).Still d := by
  dsimp only [renameTrack]
  generalize shownName name = next
  split
  · trivial
  · split
    · trivial
    · exact still_updateTrack (fun _ => rfl) rfl

theorem setTempoMilliBpm_still (milliBpm : Int) : (setTempoMilliBpm milliBpm d).Still d := by
  dsimp only [setTempoMilliBpm]
  split
  · trivial
  · exact ⟨fun _ => hasLane_ensureV2, rfl⟩

theorem setProcessorBypass_still (bypass : Bool) :
    (setProcessorBypass trackId processorId bypass d).Still d := by
  rw [setProcessorBypass]
  split
  · trivial
  · exact still_updateTrack (fun _ => rfl) rfl

theorem setProcessorParam_still (value : ℚ) :
    (setProcessorParam trackId processorId key value d).Still d := by
  rw [setProcessorParam]
  split
  · trivial
  · refine still_updateTrack (fun _ => rfl) ?_
    split <;> rfl

theorem removeProcessorParam_still :
    (removeProcessorParam trackId processorId key d).Still d := by
  rw [removeProcessorParam]
  split
  · trivial
  · exact still_updateTrack (fun _ => rfl) rfl

theorem addProcessor_still (proc : ProcessorDef) (index : Option Int) :
    (addProcessor trackId proc index d).Still d := by
  rw [addProcessor]
  split
  · trivial
  · split
    · trivial
    · exact still_updateTrack (fun _ => rfl) rfl

theorem removeProcessor_still : (removeProcessor trackId processorId d).Still d := by
  rw [removeProcessor]
  split
  · trivial
  · split
    · trivial
    · exact still_updateTrack (fun _ => rfl) rfl

theorem moveProcessor_still (toIndex : Int) :
    (moveProcessor trackId processorId toIndex d).Still d := by
  rw [moveProcessor]
  split
  · trivial
  · split
    · trivial
    · dsimp only
      split
      · trivial
      · exact still_updateTrack (fun _ => rfl) rfl

theorem renameClip_still (name : String) : (renameClip trackId clipId name d).Still d := by
  dsimp only [renameClip]
  generalize shownName name = next
  split
  · trivial
  · split
    · trivial
    · exact still_updateClip rfl

theorem setClipTiming_still (timing : ClipTiming) :
    (setClipTiming trackId clipId timing d).Still d := by
  dsimp only [setClipTiming]
  split
  · trivial
  · apply still_bumped
    · exact fun _ => rfl
    · rfl

theorem setClipStart_still (startSample : Int) :
    (setClipStart trackId clipId startSample d).Still d := by
  rw [setClipStart]
  split
  · trivial
  · split
    · split
      · trivial
      · exact setClipTiming_still _
    · exact still_updateClip rfl

theorem setClipBounds_still (bounds : ClipBounds) :
    (setClipBounds trackId clipId bounds d).Still d := by
  rw [setClipBounds]
  split
  · trivial
  · split
    · split
      · trivial
      · exact setClipTiming_still _
    · exact still_updateClip rfl

theorem setClipFades_still (fadeInSamples fadeOutSamples : Int) :
    (setClipFades trackId clipId fadeInSamples fadeOutSamples d).Still d := by
  rw [setClipFades]
  split
  · trivial
  · exact still_updateClip rfl

theorem deleteClip_still : (deleteClip trackId clipId d).Still d := by
  rw [deleteClip]
  split
  · trivial
  · exact still_updateTrack (fun _ => rfl) rfl

theorem addClip_still (clip : ClipDef) : (addClip trackId clip d).Still d := by
  dsimp only [addClip]
  split
  · trivial
  · apply still_bumped
    · exact fun _ => rfl
    · rfl

theorem setClipScene_still (sceneId : String) :
    (setClipScene trackId clipId sceneId d).Still d := by
  rw [setClipScene]
  split
  · trivial
  · split
    · trivial
    · exact still_updateClip rfl

theorem toggleNote_still (freshId : String) (note : NoteDef) :
    (toggleNote freshId trackId clipId note d).Still d := by
  rw [toggleNote]
  split
  · trivial
  · split
    · exact still_updateClip rfl
    · apply still_bumped
      · exact fun _ => rfl
      · rfl

theorem updateNote_still (noteId : String) (patch : NotePatch) :
    (updateNote trackId clipId noteId patch d).Still d := by
  rw [updateNote]
  split
  · trivial
  · exact still_updateClip rfl

theorem renameScene_still (sceneId name : String) : (renameScene sceneId name d).Still d := by
  dsimp only [renameScene]
  generalize shownName name = next
  split
  · trivial
  · split
    · trivial
    · exact ⟨fun _ hlane => hlane, rfl⟩

theorem deleteScene_still (sceneId : String) : (deleteScene sceneId d).Still d := by
  rw [deleteScene]
  split
  · trivial
  · refine ⟨fun lane hlane => ?_, rfl⟩
    rcases hlane with hmaster | ⟨t, ht, hlane⟩
    · exact Or.inl hmaster
    · obtain ⟨before, hbefore, rfl⟩ := List.mem_map.mp ht
      exact Or.inr ⟨before, hbefore, hlane⟩

theorem hasLane_foldl_placeBack {clips : List PlacedClip} {lane : AutomationLaneDef}
    (h : (clips.foldl ProjectDef.placeBack d).HasLane lane) : d.HasLane lane := by
  induction clips generalizing d with
  | nil => exact h
  | cons placed clips ih =>
      refine hasLane_updateTrack (fun t => ?_) (ih h)
      split <;> rfl

theorem restoreScene_still (scene : SceneDef) (index : Int) (clips : List PlacedClip) :
    (restoreScene scene index clips d).Still d := by
  rw [restoreScene]
  split
  · trivial
  · refine ⟨fun lane hlane => ?_, rfl⟩
    have hscenes := hasLane_foldl_placeBack hlane
    exact hscenes

end Still

section Sorted

variable {d : ProjectDef} {inverse : InverseOp} {trackId laneId : String} {scope : Option String}

theorem Effect.Still.sorted {e : Effect} (h : e.Still d) (hd : d.Sorted) : e.Sorted := by
  cases e with
  | throws message => trivial
  | ignored => trivial
  | writes inverse doc =>
      refine ⟨fun lane hlane => hd lane (h.1 lane hlane), ?_⟩
      rw [h.2]
      exact List.forall_mem_nil _

theorem sorted_updateLane {f : AutomationLaneDef → AutomationLaneDef} (hd : d.Sorted)
    (hf : ∀ lane, d.findLane scope laneId = some lane → (f lane).Sorted) :
    (d.updateLane scope laneId f).Sorted := by
  intro lane hlane
  rcases hasLane_updateLanes hlane with hold | ⟨lanes, hlanes, hmem⟩
  · exact hd lane hold
  · rcases mem_updateFirst hmem with hold | ⟨before, hbefore, rfl⟩
    · exact hd lane (hasLane_of_lanesIn hlanes hold)
    · apply hf before
      rw [ProjectDef.findLane, hlanes, Option.bind_some]
      exact hbefore

theorem addTrack_sorted {track : TrackDef} (hd : d.Sorted)
    (htrack : ∀ lane ∈ track.automation.getD [], lane.Sorted) : (addTrack track d).Sorted := by
  refine ⟨fun lane hlane => ?_, List.forall_mem_nil _⟩
  rcases hlane with hmaster | ⟨t, ht, hlane⟩
  · exact hd lane (Or.inl hmaster)
  · rcases List.mem_append.mp ht with hold | hnew
    · exact hd lane (Or.inr ⟨t, hold, hlane⟩)
    · rw [List.mem_singleton.mp hnew] at hlane
      exact htrack lane hlane

theorem deleteTrack_sorted (hd : d.Sorted) : (deleteTrack trackId d).Sorted := by
  rw [deleteTrack]
  split
  · trivial
  · rename_i track hfind
    refine ⟨fun lane hlane => ?_, fun lane hlane => ?_⟩
    · rcases hlane with hmaster | ⟨t, ht, hlane⟩
      · exact hd lane (Or.inl hmaster)
      · exact hd lane (Or.inr ⟨t, List.mem_of_mem_eraseP ht, hlane⟩)
    · exact hd lane (Or.inr ⟨track, List.mem_of_find?_eq_some hfind, hlane⟩)

theorem addAutomationLane_sorted (hd : d.Sorted) (target : AutomationTarget) :
    (addAutomationLane laneId scope target d).Sorted := by
  rw [addAutomationLane]
  split
  · trivial
  · refine ⟨fun lane hlane => ?_, List.forall_mem_nil _⟩
    rcases hasLane_ensureLanes hlane with hold | hmem
    · exact hd lane hold
    · rcases List.mem_append.mp hmem with hold | hnew
      · exact hd lane (hasLane_of_lanesIn_getD hold)
      · rw [List.mem_singleton.mp hnew]
        exact List.Pairwise.nil

theorem deleteAutomationLane_sorted (hd : d.Sorted) :
    (deleteAutomationLane scope laneId d).Sorted := by
  rw [deleteAutomationLane]
  split
  · trivial
  · rename_i lane hfind
    refine ⟨fun other hother => ?_, fun other hother => ?_⟩
    · rcases hasLane_updateLanes hother with hold | ⟨lanes, hlanes, hmem⟩
      · exact hd other hold
      · exact hd other (hasLane_of_lanesIn hlanes (List.mem_of_mem_eraseP hmem))
    · rw [List.mem_singleton.mp hother]
      exact hd lane (hasLane_of_findLane hfind)

theorem restoreAutomationLane_sorted {lane : AutomationLaneDef} {index : Int} (hd : d.Sorted)
    (hputs : ∀ l ∈ Mutator.puts d (.named "" (.restoreAutomationLane scope lane index)), l.Sorted) :
    (restoreAutomationLane scope lane index d).Sorted := by
  rw [Mutator.puts] at hputs
  rw [restoreAutomationLane]
  split
  · trivial
  · rename_i hscope
    split
    · trivial
    · rename_i hnew
      rw [if_neg hscope, if_neg hnew] at hputs
      refine ⟨fun other hother => ?_, List.forall_mem_nil _⟩
      rcases hasLane_ensureLanes hother with hold | hmem
      · exact hd other hold
      · rcases mem_insertAt hmem with rfl | hold
        · exact hputs other List.mem_cons_self
        · exact hd other (hasLane_of_lanesIn_getD hold)

theorem setAutomationLaneEnabled_sorted (hd : d.Sorted) (enabled : Bool) :
    (setAutomationLaneEnabled scope laneId enabled d).Sorted := by
  rw [setAutomationLaneEnabled]
  split
  · trivial
  · refine ⟨sorted_updateLane hd fun lane hfind => ?_, List.forall_mem_nil _⟩
    exact hd lane (hasLane_of_findLane hfind)

theorem addAutomationPoint_sorted (hd : d.Sorted) (t : Int) (v : ℚ) :
    (addAutomationPoint scope laneId t v d).Sorted := by
  rw [addAutomationPoint]
  split
  · trivial
  · rename_i lane hfind
    refine ⟨sorted_updateLane hd fun other hother => ?_, List.forall_mem_nil _⟩
    obtain rfl := Option.some.inj (hfind.symm.trans hother)
    exact (hd lane (hasLane_of_findLane hfind)).insert ⟨clampT t, clampV v⟩

theorem moveAutomationPoint_sorted (hd : d.Sorted) (index t : Int) (v : ℚ) :
    (moveAutomationPoint scope laneId index t v d).Sorted := by
  rw [moveAutomationPoint]
  split
  · trivial
  · rename_i lane hfind
    split
    · trivial
    · split
      · trivial
      · rename_i old hold
        refine ⟨sorted_updateLane hd fun other hother => ?_, List.forall_mem_nil _⟩
        obtain rfl := Option.some.inj (hfind.symm.trans hother)
        have hsorted := hd lane (hasLane_of_findLane hfind)
        have hmoved : Ascending AutomationPointDef.t ((lane.points.eraseIdx index.toNat).insertIdx
            (rank AutomationPointDef.t (clampT t) (lane.points.eraseIdx index.toNat))
            ⟨clampT t, clampV v⟩) :=
          (hsorted.eraseIdx index.toNat).insert ⟨clampT t, clampV v⟩
        -- In place or not, the point ends at its rank among the others.
        split
        · rename_i heq
          obtain ⟨hlt, -⟩ := List.getElem?_eq_some_iff.mp hold
          have hrank : rank AutomationPointDef.t (clampT t) (lane.points.eraseIdx index.toNat) =
              index.toNat := heq
          rw [hrank, List.insertIdx_eraseIdx_self hlt.ne] at hmoved
          exact hmoved
        · exact hmoved

theorem deleteAutomationPoint_sorted (hd : d.Sorted) (index : Int) :
    (deleteAutomationPoint scope laneId index d).Sorted := by
  rw [deleteAutomationPoint]
  split
  · trivial
  · split
    · trivial
    · split
      · trivial
      · refine ⟨sorted_updateLane hd fun lane hfind => ?_, List.forall_mem_nil _⟩
        exact (hd lane (hasLane_of_findLane hfind)).eraseIdx index.toNat

theorem mutatorOf_sorted (hd : d.Sorted) (freshId : String) {op : InverseOp}
    (hputs : ∀ lane ∈ Mutator.puts d (.named freshId op), lane.Sorted) :
    (mutatorOf freshId op d).Sorted := by
  cases op with
  | setTrackGain trackId gain => exact (setTrackGain_still gain).sorted hd
  | setTrackPan trackId pan => exact (setTrackPan_still pan).sorted hd
  | setTrackOrder trackId order => exact (setTrackOrder_still order).sorted hd
  | clearTrackOrder trackId => exact clearTrackOrder_still.sorted hd
  | renameTrack trackId name => exact (renameTrack_still name).sorted hd
  | renameClip trackId clipId name => exact (renameClip_still name).sorted hd
  | setMasterGain gain => exact ⟨hd, List.forall_mem_nil _⟩
  | setTempo milliBpm => exact (setTempoMilliBpm_still milliBpm).sorted hd
  | setProcessorBypass trackId processorId bypass =>
      exact (setProcessorBypass_still bypass).sorted hd
  | setProcessorParam trackId processorId key value =>
      exact (setProcessorParam_still value).sorted hd
  | removeProcessorParam trackId processorId key => exact removeProcessorParam_still.sorted hd
  | setClipStart trackId clipId startSample => exact (setClipStart_still startSample).sorted hd
  | setClipBounds trackId clipId bounds => exact (setClipBounds_still bounds).sorted hd
  | setClipTiming trackId clipId timing => exact (setClipTiming_still timing).sorted hd
  | setClipFades trackId clipId fadeIn fadeOut =>
      exact (setClipFades_still fadeIn fadeOut).sorted hd
  | addClip trackId clip => exact (addClip_still clip).sorted hd
  | deleteClip trackId clipId => exact deleteClip_still.sorted hd
  | setClipScene trackId clipId sceneId => exact (setClipScene_still sceneId).sorted hd
  | addTrack track => exact addTrack_sorted hd hputs
  | deleteTrack trackId => exact deleteTrack_sorted hd
  | addProcessor trackId proc index => exact (addProcessor_still proc (some index)).sorted hd
  | removeProcessor trackId processorId => exact removeProcessor_still.sorted hd
  | moveProcessor trackId processorId toIndex => exact (moveProcessor_still toIndex).sorted hd
  | toggleNote trackId clipId note => exact (toggleNote_still freshId note).sorted hd
  | updateNote trackId clipId noteId patch => exact (updateNote_still noteId patch).sorted hd
  | renameScene sceneId name => exact (renameScene_still sceneId name).sorted hd
  | deleteScene sceneId => exact (deleteScene_still sceneId).sorted hd
  | restoreScene scene index clips => exact (restoreScene_still scene index clips).sorted hd
  | deleteAutomationLane scope laneId => exact deleteAutomationLane_sorted hd
  | restoreAutomationLane scope lane index => exact restoreAutomationLane_sorted hd hputs
  | setAutomationLaneEnabled scope laneId enabled =>
      exact setAutomationLaneEnabled_sorted hd enabled
  | addAutomationPoint scope laneId t v => exact addAutomationPoint_sorted hd t v
  | moveAutomationPoint scope laneId index t v => exact moveAutomationPoint_sorted hd index t v
  | deleteAutomationPoint scope laneId index => exact deleteAutomationPoint_sorted hd index

/-- A call keeps all lanes in order, and so does the call of the inverse it
captures. -/
theorem edit_sorted (hd : d.Sorted) {m : Mutator} (hputs : ∀ lane ∈ m.puts d, lane.Sorted) :
    (m.edit d).Sorted := by
  cases m with
  | named freshId op => exact mutatorOf_sorted hd freshId hputs
  | addProcessor trackId proc index => exact (addProcessor_still proc index).sorted hd
  | addScene id name => exact ⟨hd, List.forall_mem_nil _⟩
  | addAutomationLane id scope target => exact addAutomationLane_sorted hd target

theorem Effect.Sorted.result {e : Effect} (he : e.Sorted) (hd : d.Sorted) :
    (e.result d).Sorted := by
  cases e with
  | throws message => exact hd
  | ignored => exact hd
  | writes inverse doc => exact he.1

end Sorted

end DawProject.Document
