import DawProject.Engine.Schema
import DawProject.Engine.Tree

/-!
The document of the engine, `engine/src/document/automerge_document.cpp`:
`create`, `addTrack` and `getDocument`. The writer leaves out what is absent,
and the fields of one time domain exclude those of the other; the reader starts
from the defaults of the schema.
-/

namespace DawProject.Engine

open Floats

/-- A text as its C string: it ends at the first NUL. -/
def cStr (s : String) : String := String.ofList (s.toList.takeWhile fun c => c != Char.ofNat 0)

section Write

variable {F D : Type} [Floats F D]

def writePoint (pt : AutomationPointDef F) : AmValue D :=
  .map [("t", .int pt.t), ("v", .f64 (widen pt.v))]

/-- `writeAutomationLanes`, one curve. -/
def writeLane (lane : AutomationLaneDef F) : AmValue D :=
  .map <|
    [("id", .str (cStr lane.id)), ("enabled", .bool lane.enabled)] ++
    field lane.time_base_ticks "timeBase" (.str "ticks") ++
    [("target", .map <|
        [("param", .str (cStr lane.param))] ++
        field (lane.processor_id ≠ "") "processorId" (.str (cStr lane.processor_id))),
      ("points", .list (lane.points.map writePoint))]

def writeNote (n : NoteDef) : AmValue D :=
  .map <|
    [("pitch", .int n.pitch.toNat), ("velocity", .int n.velocity.toNat)] ++
    field (n.start_tick < 0) "startSample" (.int n.start_sample) ++
    field (n.length_tick < 0) "lengthSamples" (.int n.length_samples) ++
    field (n.start_tick ≥ 0) "startTick" (.int n.start_tick) ++
    field (n.length_tick ≥ 0) "lengthTick" (.int n.length_tick)

/-- A clip of `addTrack`. The scene of a session slot is not written. -/
def writeClip (clip : ClipDef) : AmValue D :=
  .map <|
    [("id", .str (cStr clip.id)), ("assetHash", .str (cStr clip.asset_hash))] ++
    field (clip.start_tick < 0) "startSample" (.int clip.start_sample) ++
    field (clip.length_tick < 0) "lengthSamples" (.int clip.length_samples) ++
    [("offsetSamples", .int clip.offset_samples)] ++
    field (clip.fade_in_samples ≠ 0) "fadeInSamples" (.int clip.fade_in_samples) ++
    field (clip.fade_out_samples ≠ 0) "fadeOutSamples" (.int clip.fade_out_samples) ++
    field (clip.start_tick ≥ 0) "startTick" (.int clip.start_tick) ++
    field (clip.length_tick ≥ 0) "lengthTick" (.int clip.length_tick) ++
    field (clip.notes ≠ []) "notes" (.list (clip.notes.map writeNote))

def writeParam (p : String × F) : AmValue D :=
  .map [("key", .str (cStr p.1)), ("value", .f64 (widen p.2))]

def writeProcessor (proc : ProcessorDef F) : AmValue D :=
  .map <|
    [("id", .str (cStr proc.id)), ("type", .str (cStr proc.type))] ++
    field (proc.uid ≠ "") "uid" (.str (cStr proc.uid)) ++
    [("bypass", .bool proc.bypass)] ++
    field (proc.state_hash ≠ "") "stateHash" (.str (cStr proc.state_hash)) ++
    field (proc.state_hash ≠ "") "stateVersion" (.int proc.state_version) ++
    field (proc.stem_hash ≠ "") "stemHash" (.str (cStr proc.stem_hash)) ++
    field (proc.stem_hash ≠ "") "stemKey" (.str (cStr proc.stem_key)) ++
    field (proc.stem_hash ≠ "") "stemLatencySamples" (.int proc.stem_latency_samples) ++
    [("params", .list (proc.params.map writeParam))]

def writeTrack (track : TrackDef F) : AmValue D :=
  .map <|
    [("id", .str (cStr track.id)), ("name", .str (cStr track.name)),
      ("gain", .f64 (widen track.gain)), ("pan", .f64 (widen track.pan)),
      ("clips", .list (track.clips.map writeClip)),
      ("chain", .list (track.chain.map writeProcessor))] ++
    field (track.automation ≠ []) "automation" (.list (track.automation.map writeLane))

/-- `create`: an empty document of version 1. -/
def create [OfNat F 1] (sample_rate : Nat) : AmValue D :=
  .map
    [("schemaVersion", .uint 1), ("sampleRate", .uint sample_rate),
      ("masterGain", .f64 (widen (1 : F))), ("tracks", .list [])]

def addTrack (doc : AmValue D) (track : TrackDef F) : AmValue D :=
  doc.pushTo "tracks" (writeTrack track)

end Write

section Read

variable {F D : Type} [Floats F D]

/-- `itemToDouble`: an integer is read as the double nearest to it. -/
def itemToDouble (F : Type) {D : Type} [Floats F D] : AmValue D → Option D
  | .f64 value => some value
  | .int value => some (ofInt F value)
  | .uint value => some (ofInt F value)
  | _ => none

def getDouble (F : Type) {D : Type} [Floats F D] (v : AmValue D) (key : String) : Option D :=
  (v.get key).bind (itemToDouble F)

/-- `itemToUint`: a negative integer is not read. -/
def itemToUint : AmValue D → Option Nat
  | .uint value => some value
  | .int value => if value ≥ 0 then some value.toNat else none
  | _ => none

/-- A field of 32 bits without sign. -/
def getUint32 (v : AmValue D) (key : String) : Option Nat :=
  ((v.get key).bind itemToUint).map fun value => value % 4294967296

def readPoint [OfNat F 0] (v : AmValue D) : AutomationPointDef F where
  t := ((getDouble F v "t").map (toInt F)).getD 0
  v := ((getDouble F v "v").map narrow).getD 0

/-- `readAutomationLanes`, one curve. -/
def readLane [OfNat F 0] (v : AmValue D) : AutomationLaneDef F where
  id := (v.getStr "id").getD ""
  processor_id := ((v.get "target").bind fun target => target.getStr "processorId").getD ""
  param := ((v.get "target").bind fun target => target.getStr "param").getD ""
  enabled := (v.getBool "enabled").getD true
  points := ((v.getItems "points").filter AmValue.isMap).map readPoint
  time_base_ticks := ((v.getStr "timeBase").map fun base => base == "ticks").getD false

def readAutomationLanes [OfNat F 0] (v : AmValue D) : List (AutomationLaneDef F) :=
  ((v.getItems "automation").filter AmValue.isMap).map readLane

def readNote (v : AmValue D) : NoteDef where
  pitch := ((v.getInt "pitch").map UInt8.ofInt).getD 60
  velocity := ((v.getInt "velocity").map UInt8.ofInt).getD 100
  start_sample := (v.getInt "startSample").getD 0
  length_samples := (v.getInt "lengthSamples").getD 0
  start_tick := (v.getInt "startTick").getD (-1)
  length_tick := (v.getInt "lengthTick").getD (-1)

def readClip (v : AmValue D) : ClipDef where
  id := (v.getStr "id").getD ""
  asset_hash := (v.getStr "assetHash").getD ""
  start_sample := (v.getInt "startSample").getD 0
  length_samples := (v.getInt "lengthSamples").getD 0
  offset_samples := (v.getInt "offsetSamples").getD 0
  fade_in_samples := (v.getInt "fadeInSamples").getD 0
  fade_out_samples := (v.getInt "fadeOutSamples").getD 0
  scene_id := (v.getStr "sceneId").getD ""
  start_tick := (v.getInt "startTick").getD (-1)
  length_tick := (v.getInt "lengthTick").getD (-1)
  notes := ((v.getItems "notes").filter AmValue.isMap).map readNote

/-- One parameter of a chain: a pair without a key is skipped. -/
def readParam [OfNat F 0] (params : List (String × F)) (v : AmValue D) : List (String × F) :=
  let key := (v.getStr "key").getD ""
  let value : F := ((getDouble F v "value").map narrow).getD 0
  if key = "" then params else setParam params key value

def readProcessor [OfNat F 0] (v : AmValue D) : ProcessorDef F where
  id := (v.getStr "id").getD ""
  type := (v.getStr "type").getD ""
  uid := (v.getStr "uid").getD ""
  bypass := (v.getBool "bypass").getD false
  state_hash := (v.getStr "stateHash").getD ""
  state_version := (v.getInt "stateVersion").getD 0
  stem_hash := (v.getStr "stemHash").getD ""
  stem_key := (v.getStr "stemKey").getD ""
  stem_latency_samples := (v.getInt "stemLatencySamples").getD 0
  params := ((v.getItems "params").filter AmValue.isMap).foldl readParam []

def readTrack [OfNat F 0] [OfNat F 1] (v : AmValue D) : TrackDef F where
  id := (v.getStr "id").getD ""
  name := (v.getStr "name").getD ""
  gain := ((getDouble F v "gain").map narrow).getD 1
  pan := ((getDouble F v "pan").map narrow).getD 0
  clips := (v.getItems "clips").map readClip
  chain := ((v.getItems "chain").filter AmValue.isMap).map readProcessor
  automation := readAutomationLanes v

def readTempoPoint (v : AmValue D) : Tempo.TempoPoint where
  tick := (v.getInt "tick").getD 0
  milliBpm := (v.getInt "milliBpm").getD 120000

/-- `getDocument`. -/
def getDocument [OfNat F 0] [OfNat F 1] (doc : AmValue D) : ProjectDef F where
  schema_version := (getUint32 doc "schemaVersion").getD 1
  sample_rate := (getUint32 doc "sampleRate").getD 48000
  master_gain := ((getDouble F doc "masterGain").map narrow).getD 1
  tracks := (doc.getItems "tracks").map readTrack
  automation := readAutomationLanes doc
  tempo_milli_bpm := (doc.getInt "tempoMilliBpm").getD 0
  tempo_map := ((doc.getItems "tempoMap").filter AmValue.isMap).map readTempoPoint

end Read

end DawProject.Engine
