import DawProject.Lib.Walk
import DawProject.Engine.Stem

/-!
The validator of the engine, `engine/src/document/schema.cpp`, on the document
as it is read and resolved. It returns its messages as one text, empty for a
sound document. `shown` is the text of a number.
-/

namespace DawProject.Validate.Engine

open DawProject.Engine (ClipDef ProcessorDef TrackDef ProjectDef)
open Walk (walk checkId expect Fresh)

def SCHEMA_VERSION : Nat := 2

variable {F D : Type} [OfNat F 0] [OfNat F 1] [OrderedFloats F D] (shown : F → String)

/-- A small number as it is written in the source. -/
def lit (F : Type) {D : Type} [OfNat F 0] [OfNat F 1] [OrderedFloats F D] (k : Int) : F :=
  Floats.narrow (Floats.ofInt F k)

/-- `x < lo || x > hi`. -/
def outside (lo hi : Int) (x : F) : Bool :=
  OrderedFloats.lt x (lit F lo) || OrderedFloats.lt (lit F hi) x

/-- The checks of a clip but for its id. -/
def clipFaults (track_id : String) (clip : ClipDef) : List String :=
  let label := "Track " ++ track_id ++ " clip " ++ clip.id
  expect (!(clip.start_tick ≠ -1 && clip.start_tick < 0)) (label ++ " has negative start tick") ++
    expect (!(clip.length_tick ≠ -1 && clip.length_tick ≤ 0))
      (label ++ " has invalid length tick") ++
    expect (!(clip.start_sample < 0)) (label ++ " has negative start sample") ++
    expect (!(clip.length_samples ≤ 0)) (label ++ " has invalid length") ++
    expect (!(clip.offset_samples < 0)) (label ++ " has negative offset")

/-- One turn over the clips of a track; the ids seen are those of all tracks. -/
def clipStep (track_id : String) (j : Nat) (clip_ids : List String) (clip : ClipDef) :
    List String × List String :=
  let id := checkId "" ("Track " ++ track_id ++ " clip " ++ toString j ++ " has empty ID")
    ("Clip ID " ++ clip.id ++ " is duplicated") clip_ids clip.id
  (id.1 ++ clipFaults track_id clip, id.2)

def deviceFaults (track_id : String) (j : Nat) (proc : ProcessorDef F) : List String :=
  expect (proc.id ≠ "")
      ("Track " ++ track_id ++ " processor " ++ toString j ++ " has empty ID") ++
    expect (proc.type ≠ "")
      ("Track " ++ track_id ++ " processor " ++ proc.id ++ " has empty type")

def levelFaults (track : TrackDef F) : List String :=
  expect (!outside 0 2 track.gain)
      ("Track " ++ track.id ++ " has invalid gain " ++ shown track.gain ++
        " (must be 0.0-2.0)") ++
    expect (!outside (-1) 1 track.pan)
      ("Track " ++ track.id ++ " has invalid pan " ++ shown track.pan ++
        " (must be -1.0..1.0)")

/-- One turn over the tracks, with the ids of tracks and of clips seen. -/
def trackStep (i : Nat) (seen : List String × List String) (track : TrackDef F) :
    List String × (List String × List String) :=
  let id := checkId "" ("Track " ++ toString i ++ " has empty ID")
    ("Track ID " ++ track.id ++ " is duplicated") seen.1 track.id
  let clips := walk (clipStep track.id) 0 seen.2 track.clips
  let devices := (track.chain.mapIdx fun j proc => deviceFaults track.id j proc).flatten
  (id.1 ++ levelFaults shown track ++ clips.1 ++ devices, (id.2, clips.2))

def documentFaults (doc : ProjectDef F) : List String :=
  expect (doc.schema_version ≠ 0) "Schema version must be >= 1" ++
    expect (!(doc.schema_version > SCHEMA_VERSION))
      ("Schema version " ++ toString doc.schema_version ++ " is not supported (max: " ++
        toString SCHEMA_VERSION ++ ")") ++
    expect (doc.sample_rate ≠ 0) "Sample rate must be > 0" ++
    (walk (trackStep shown) 0 ([], []) doc.tracks).1

/-- The messages, each with its full stop. -/
def validateDocument (doc : ProjectDef F) : String :=
  String.join ((documentFaults shown doc).map fun fault => fault ++ ". ")

section Sound

/-- What the engine requires of a clip, its id apart. -/
structure SoundClip (clip : ClipDef) : Prop where
  start_tick : clip.start_tick = -1 ∨ 0 ≤ clip.start_tick
  length_tick : clip.length_tick = -1 ∨ 0 < clip.length_tick
  start_sample : 0 ≤ clip.start_sample
  length_samples : 0 < clip.length_samples
  offset_samples : 0 ≤ clip.offset_samples

/-- What the engine requires of a track, its id and its clips apart. -/
structure SoundTrack (track : TrackDef F) : Prop where
  gain : outside 0 2 track.gain = false
  pan : outside (-1) 1 track.pan = false
  devices : ∀ proc ∈ track.chain, proc.id ≠ "" ∧ proc.type ≠ ""

theorem clipFaults_eq_nil_iff {track_id : String} {clip : ClipDef} :
    clipFaults track_id clip = [] ↔ SoundClip clip := by
  simp only [clipFaults, List.append_eq_nil_iff, Walk.expect_eq_nil_iff, Bool.not_eq_true',
    Bool.and_eq_false_iff, decide_eq_false_iff_not, not_not, not_lt, not_le, and_assoc]
  constructor
  · rintro ⟨a, b, c, d, e⟩
    exact ⟨a, b, c, d, e⟩
  · rintro ⟨a, b, c, d, e⟩
    exact ⟨a, b, c, d, e⟩

omit [OfNat F 0] [OfNat F 1] [OrderedFloats F D] in
theorem deviceFaults_eq_nil_iff (track_id : String) (j : Nat) (proc : ProcessorDef F) :
    deviceFaults track_id j proc = [] ↔ proc.id ≠ "" ∧ proc.type ≠ "" := by
  simp [deviceFaults]

theorem clipStep_eq_nil_iff (track_id : String) (j : Nat) (clip_ids : List String)
    (clip : ClipDef) : (clipStep track_id j clip_ids clip).1 = [] ↔
      (clip.id ≠ "" ∧ clip.id ∉ clip_ids) ∧ SoundClip clip := by
  rw [clipStep, List.append_eq_nil_iff, Walk.checkId_eq_nil_iff, clipFaults_eq_nil_iff]

theorem clipStep_state (track_id : String) (j : Nat) (clip_ids : List String) (clip : ClipDef)
    (hnone : (clipStep track_id j clip_ids clip).1 = []) :
    (clipStep track_id j clip_ids clip).2 = clip.id :: clip_ids := by
  rw [clipStep, List.append_eq_nil_iff] at hnone
  exact Walk.checkId_seen hnone.1

theorem walk_clips_eq_nil_iff {track_id : String} {clip_ids : List String}
    {clips : List ClipDef} : (walk (clipStep track_id) 0 clip_ids clips).1 = [] ↔
      Fresh "" clip_ids (clips.map ClipDef.id) ∧ ∀ clip ∈ clips, SoundClip clip := by
  rw [Walk.walk_eq_nil_iff (clipStep_eq_nil_iff track_id) (clipStep_state track_id),
    Walk.accepted_iff_fresh]

theorem walk_clips_state {track_id : String} {clip_ids : List String} {clips : List ClipDef}
    (hnone : (walk (clipStep track_id) 0 clip_ids clips).1 = []) :
    (walk (clipStep track_id) 0 clip_ids clips).2 =
      (clips.map ClipDef.id).foldl (fun seen id => id :: seen) clip_ids := by
  rw [Walk.walk_state (clipStep_state track_id) hnone, List.foldl_map]

theorem trackStep_eq_nil_iff (i : Nat) (seen : List String × List String) (track : TrackDef F) :
    (trackStep shown i seen track).1 = [] ↔
      (track.id ≠ "" ∧ track.id ∉ seen.1) ∧ SoundTrack track ∧
        Fresh "" seen.2 (track.clips.map ClipDef.id) ∧ ∀ clip ∈ track.clips, SoundClip clip := by
  have hsound : SoundTrack track ↔
      (outside 0 2 track.gain = false ∧ outside (-1) 1 track.pan = false) ∧
        ∀ proc ∈ track.chain, proc.id ≠ "" ∧ proc.type ≠ "" :=
    ⟨fun ⟨a, b, c⟩ => ⟨⟨a, b⟩, c⟩, fun ⟨⟨a, b⟩, c⟩ => ⟨a, b, c⟩⟩
  have hlevel : levelFaults shown track = [] ↔
      outside 0 2 track.gain = false ∧ outside (-1) 1 track.pan = false := by
    simp [levelFaults]
  rw [trackStep, List.append_eq_nil_iff, List.append_eq_nil_iff, List.append_eq_nil_iff,
    Walk.checkId_eq_nil_iff, hlevel, walk_clips_eq_nil_iff,
    Walk.flatten_mapIdx_eq_nil_iff (deviceFaults_eq_nil_iff _), hsound]
  tauto

theorem trackStep_state (i : Nat) (seen : List String × List String) (track : TrackDef F)
    (hnone : (trackStep shown i seen track).1 = []) :
    (trackStep shown i seen track).2 = (track.id :: seen.1,
      (track.clips.map ClipDef.id).foldl (fun seen id => id :: seen) seen.2) := by
  rw [trackStep, List.append_eq_nil_iff, List.append_eq_nil_iff, List.append_eq_nil_iff] at hnone
  exact Prod.ext (Walk.checkId_seen hnone.1.1.1) (walk_clips_state hnone.1.2)

theorem report_eq_empty_iff {faults : List String} :
    String.join (faults.map fun fault => fault ++ ". ") = "" ↔ faults = [] := by
  cases faults with
  | nil => simp
  | cons fault faults =>
      refine iff_of_false (fun hempty => ?_) nofun
      have hlength := congrArg String.length hempty
      rw [List.map_cons, String.join_cons, String.length_append, String.length_append] at hlength
      have hstop : (". " : String).length = 2 := rfl
      have hnone : ("" : String).length = 0 := rfl
      omega

/-- The engine finds no fault in a document when every field is sound, and no id
is empty or comes twice. -/
theorem validateDocument_eq_empty_iff {doc : ProjectDef F} :
    validateDocument shown doc = "" ↔
      (doc.schema_version ≠ 0 ∧ doc.schema_version ≤ 2) ∧ doc.sample_rate ≠ 0 ∧
        Fresh "" [] (doc.tracks.map TrackDef.id) ∧
        Fresh "" [] (doc.tracks.flatMap fun track => track.clips.map ClipDef.id) ∧
        ∀ track ∈ doc.tracks, SoundTrack track ∧ ∀ clip ∈ track.clips, SoundClip clip := by
  rw [validateDocument, report_eq_empty_iff, documentFaults, List.append_eq_nil_iff,
    Walk.walk_eq_nil_iff (trackStep_eq_nil_iff shown) (trackStep_state shown),
    Walk.accepted_iff_fresh_parts]
  simp [SCHEMA_VERSION, and_assoc]

end Sound

end DawProject.Validate.Engine
