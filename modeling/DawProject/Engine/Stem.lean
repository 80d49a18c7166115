import DawProject.Document.Resolve
import DawProject.Engine.RoundTrip

/-!
The reduced document of a stem, `renderTrackStem` of
`engine/src/render/stem_render.cpp`: the track up to one node of its chain is
written to a new document, which the renderer reads and resolves. The result
keeps the timeline of the project exactly when nothing in the track is
musical, up to the positions that resolve to 0, no clip is a session slot, and
the project plays at the default tempo.
-/

namespace DawProject.Engine

open Floats

section Resolution

variable {F : Type}

/-- The positions of a note, as the resolution sees them. -/
def NoteDef.positions (n : NoteDef) : Document.Engine.NoteDef where
  start_sample := n.start_sample
  length_samples := n.length_samples
  start_tick := n.start_tick
  length_tick := n.length_tick

def ClipDef.positions (clip : ClipDef) : Document.Engine.ClipDef where
  start_sample := clip.start_sample
  length_samples := clip.length_samples
  notes := clip.notes.map NoteDef.positions
  start_tick := clip.start_tick
  length_tick := clip.length_tick

/-- The tempo register of the document, or 120 beats per minute. -/
def ProjectDef.tempo (doc : ProjectDef F) : Int :=
  if doc.tempo_milli_bpm > 0 then doc.tempo_milli_bpm else 120000

-- The position of a tick, by the table of the document.
variable (at_ : Int → Option Int)

def resolveNote (start_tick cs : Int) (n : NoteDef) : Option NoteDef :=
  (Document.Engine.resolveNote at_ start_tick cs n.positions).map fun resolved =>
    { n with
      start_sample := resolved.start_sample
      length_samples := resolved.length_samples }

def resolveClip (clip : ClipDef) : Option ClipDef :=
  if clip.positions.isMusical then do
    let cs ← at_ clip.start_tick
    let length ← Document.Engine.resolveLength at_ cs clip.positions
    let notes ← clip.notes.mapM (resolveNote at_ clip.start_tick cs)
    return { clip with start_sample := cs, length_samples := length, notes := notes }
  else some clip

def resolvePoint (pt : AutomationPointDef F) : Option (AutomationPointDef F) := do
  let t ← at_ pt.t
  return { pt with t := t }

def resolveLane (lane : AutomationLaneDef F) : Option (AutomationLaneDef F) :=
  if lane.time_base_ticks then do
    let points ← lane.points.mapM (resolvePoint at_)
    return { lane with points := points }
  else some lane

def resolveTrack (track : TrackDef F) : Option (TrackDef F) := do
  let clips ← track.clips.mapM (resolveClip at_)
  let automation ← track.automation.mapM (resolveLane at_)
  return { track with clips := clips, automation := automation }

/-- `resolveMusicalTime` over the whole document. -/
def resolveMusicalTime (doc : ProjectDef F) : Option (ProjectDef F) :=
  if doc.schema_version < 2 then some doc
  else do
    let map := Tempo.Engine.effectiveMap doc.tempo doc.tempo_map
    let sr : Int := doc.sample_rate
    let S ← Tempo.Engine.buildBoundaryTable map sr
    let at_ := Tempo.Engine.samplesAtTick map S sr
    let tracks ← doc.tracks.mapM (resolveTrack at_)
    let automation ← doc.automation.mapM (resolveLane at_)
    return { doc with tracks := tracks, automation := automation }

end Resolution

section Reduction

variable {F D : Type} [Floats F D] [OfNat F 0] [OfNat F 1]

/-- The track up to and including a node of its chain, without its gain and
its pan. -/
def reduceTrack (track : TrackDef F) (node_index : Nat) : TrackDef F :=
  { track with gain := 1, pan := 0, chain := track.chain.take (node_index + 1) }

/-- The document that `renderTrackStem` hands to the renderer. -/
def reducedDocument (project : ProjectDef F) (track_id node_id : String) :
    Except String (AmValue D) :=
  match project.tracks.find? fun track => track.id == track_id with
  | none => .error ("track not found: " ++ track_id)
  | some track =>
      match track.chain.findIdx? fun node => node.id == node_id with
      | none => .error ("node not found: " ++ node_id)
      | some node_index =>
          .ok (addTrack (create (F := F) project.sample_rate) (reduceTrack track node_index))

/-- What the renderer plays: the document, read and resolved. -/
def renderedProject (doc : AmValue D) : Option (ProjectDef F) :=
  resolveMusicalTime (getDocument doc)

end Reduction

section Timeline

variable {F : Type}

def KeepsNote (n stem : NoteDef) : Prop :=
  stem.start_sample = n.start_sample ∧ stem.length_samples = n.length_samples

/-- A clip of the timeline keeps its positions and those of its notes, and a
session slot stays one. -/
structure KeepsClip (clip stem : ClipDef) : Prop where
  start_sample : clip.scene_id = "" → stem.start_sample = clip.start_sample
  length_samples : clip.scene_id = "" → stem.length_samples = clip.length_samples
  notes : clip.scene_id = "" → List.Forall₂ KeepsNote clip.notes stem.notes
  slot : clip.scene_id ≠ "" → stem.scene_id ≠ ""

/-- The stem plays the clips of the track where the project has them, at the
tempo of the project. -/
structure KeepsTimeline (project : ProjectDef F) (track : TrackDef F) (stem : ProjectDef F) :
    Prop where
  tracks : ∃ played, stem.tracks = [played] ∧ List.Forall₂ KeepsClip track.clips played.clips
  tempo : stem.tempo = project.tempo

/-- A position in ticks that resolved to sample 0. -/
def AtZero (tick samples : Int) : Prop := tick ≥ 0 → samples = 0

/-- A clip whose positions are all absolute, or 0. -/
structure AbsoluteClip (clip : ClipDef) : Prop where
  scene_id : clip.scene_id = ""
  start : AtZero clip.start_tick clip.start_sample
  length : AtZero clip.length_tick clip.length_samples
  notes : ∀ n ∈ clip.notes, AtZero n.start_tick n.start_sample ∧
    AtZero n.length_tick n.length_samples

theorem samplesField_eq_iff (tick samples : Int) :
    samplesField tick samples = samples ↔ AtZero tick samples := by
  rw [samplesField, AtZero]
  split
  · rename_i hneg
    constructor
    · intro _ hpos
      omega
    · intro _
      rfl
  · rename_i hpos
    constructor
    · intro hzero _
      exact hzero.symm
    · intro hzero
      exact (hzero (by omega)).symm

theorem keepsNote_normaliseNote (n : NoteDef) :
    KeepsNote n (normaliseNote n) ↔
      AtZero n.start_tick n.start_sample ∧ AtZero n.length_tick n.length_samples :=
  and_congr (samplesField_eq_iff _ _) (samplesField_eq_iff _ _)

theorem keepsClip_echoClip (clip : ClipDef) :
    KeepsClip clip (echoClip clip) ↔ AbsoluteClip clip := by
  have hnotes : List.Forall₂ KeepsNote clip.notes (echoClip clip).notes ↔
      ∀ n ∈ clip.notes, AtZero n.start_tick n.start_sample ∧
        AtZero n.length_tick n.length_samples := by
    rw [show (echoClip clip).notes = clip.notes.map normaliseNote from rfl,
      List.forall₂_map_right_iff, List.forall₂_same]
    exact forall₂_congr fun n _ => keepsNote_normaliseNote n
  constructor
  · rintro ⟨hstart, hlength, hkeep, hslot⟩
    have hscene : clip.scene_id = "" := by
      by_contra hne
      exact hslot hne rfl
    exact ⟨hscene, (samplesField_eq_iff _ _).mp (hstart hscene),
      (samplesField_eq_iff _ _).mp (hlength hscene), hnotes.mp (hkeep hscene)⟩
  · rintro ⟨hscene, hstart, hlength, hn⟩
    exact ⟨fun _ => (samplesField_eq_iff _ _).mpr hstart,
      fun _ => (samplesField_eq_iff _ _).mpr hlength, fun _ => hnotes.mpr hn,
      fun hne => absurd hscene hne⟩

end Timeline

section Stem

variable {F D : Type} [Floats F D] [OfNat F 0] [OfNat F 1]

/-- The reduced document is of version 1, so the resolution leaves it as it
was read. -/
theorem renderedProject_create (sample_rate : Nat) (track : TrackDef F) :
    renderedProject (F := F) (addTrack (create (F := F) sample_rate) track) =
      some (getDocument (addTrack (create (F := F) sample_rate) track) : ProjectDef F) := by
  rw [renderedProject, resolveMusicalTime, if_pos]
  rw [getDocument_addTrack_create]
  exact Nat.one_lt_two

theorem clips_readTrack_reduceTrack (track : TrackDef F) (node_index : Nat) :
    (readTrack (writeTrack (reduceTrack track node_index)) : TrackDef F).clips =
      track.clips.map echoClip := by
  rw [readTrack_writeTrack]
  rfl

theorem tempo_addTrack_create (sample_rate : Nat) (track : TrackDef F) :
    (getDocument (addTrack (create (F := F) sample_rate) track) : ProjectDef F).tempo = 120000 := by
  rw [getDocument_addTrack_create]
  rfl

/-- A stem keeps the timeline of a track exactly when the clips of the track
are absolute and the project plays at 120 beats per minute. -/
theorem stem_keepsTimeline_iff (project : ProjectDef F) (track : TrackDef F)
    (track_id node_id : String) (node_index : Nat)
    (htrack : project.tracks.find? (fun t => t.id == track_id) = some track)
    (hnode : track.chain.findIdx? (fun node => node.id == node_id) = some node_index) :
    ∃ (doc : AmValue D) (stem : ProjectDef F),
      reducedDocument project track_id node_id = .ok doc ∧ renderedProject doc = some stem ∧
        (KeepsTimeline project track stem ↔
          (∀ clip ∈ track.clips, AbsoluteClip clip) ∧ project.tempo = 120000) := by
  refine ⟨_, _, ?_, renderedProject_create project.sample_rate (reduceTrack track node_index), ?_⟩
  · simp only [reducedDocument, htrack, hnode]
  have hclips : List.Forall₂ KeepsClip track.clips (track.clips.map echoClip) ↔
      ∀ clip ∈ track.clips, AbsoluteClip clip := by
    rw [List.forall₂_map_right_iff, List.forall₂_same]
    exact forall₂_congr fun clip _ => keepsClip_echoClip clip
  constructor
  · rintro ⟨⟨played, hplayed, hkeeps⟩, htempo⟩
    rw [getDocument_addTrack_create, List.singleton_inj] at hplayed
    rw [← hplayed, clips_readTrack_reduceTrack] at hkeeps
    rw [tempo_addTrack_create] at htempo
    exact ⟨hclips.mp hkeeps, htempo.symm⟩
  · rintro ⟨habsolute, htempo⟩
    refine ⟨⟨_, congrArg ProjectDef.tracks (getDocument_addTrack_create _ _), ?_⟩, ?_⟩
    · rw [clips_readTrack_reduceTrack]
      exact hclips.mpr habsolute
    · rw [tempo_addTrack_create, htempo]

end Stem

section Example

/-- A track with one clip at the second beat, in ticks or in samples. -/
def beatTrack (start_tick start_sample : Int) : TrackDef ℚ where
  id := "t"
  gain := 1
  pan := 0
  clips :=
    [{ id := "c", asset_hash := "a", start_tick := start_tick, start_sample := start_sample
       length_samples := 48000 }]
  chain := [{ id := "p", type := "vst3" }]

def beatProject (start_tick start_sample : Int) : ProjectDef ℚ where
  schema_version := 2
  master_gain := 1
  tracks := [beatTrack start_tick start_sample]

/-- A clip in samples keeps its position. -/
theorem stem_keepsTimeline_absolute :
    ∃ (doc : AmValue ℚ) (stem : ProjectDef ℚ),
      reducedDocument (beatProject (-1) 24000) "t" "p" = .ok doc ∧
        renderedProject doc = some stem ∧
        KeepsTimeline (beatProject (-1) 24000) (beatTrack (-1) 24000) stem := by
  obtain ⟨doc, stem, hdoc, hstem, hkeeps⟩ := stem_keepsTimeline_iff
    (beatProject (-1) 24000) (beatTrack (-1) 24000) "t" "p" 0 rfl rfl
  refine ⟨doc, stem, hdoc, hstem, hkeeps.mpr ⟨?_, rfl⟩⟩
  intro clip hclip
  rw [List.mem_singleton.mp hclip]
  exact ⟨rfl, fun htick => absurd htick (by decide), fun htick => absurd htick (by decide), nofun⟩

/-- A clip at a tick that resolves to sample 24000 plays at sample 0 in the
stem. -/
theorem not_stem_keepsTimeline_beat :
    ∃ (doc : AmValue ℚ) (stem : ProjectDef ℚ),
      resolveMusicalTime (beatProject 960 0) = some (beatProject 960 24000) ∧
        reducedDocument (beatProject 960 24000) "t" "p" = .ok doc ∧
        renderedProject doc = some stem ∧
        ¬ KeepsTimeline (beatProject 960 24000) (beatTrack 960 24000) stem := by
  refine ⟨_, _, by decide, rfl,
    renderedProject_create 48000 (reduceTrack (beatTrack 960 24000) 0), ?_⟩
  rintro ⟨⟨played, hplayed, hkeeps⟩, -⟩
  rw [getDocument_addTrack_create, List.singleton_inj] at hplayed
  rw [← hplayed, clips_readTrack_reduceTrack] at hkeeps
  obtain ⟨hclip, -⟩ := List.forall₂_cons.mp hkeeps
  exact absurd (hclip.start_sample rfl) (by decide)

end Example

end DawProject.Engine
