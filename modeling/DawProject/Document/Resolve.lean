import DawProject.Tempo.Engine
import DawProject.Document.Schema

/-!
The document as the engine reads it, `readDocument` of
`engine/src/document/automerge_document.cpp` over the fields of
`engine/src/document/schema.h`, and the resolution of its musical positions,
`engine/src/document/resolve_time.cpp`. An absent tick reads as the sentinel
-1 and an absent tempo as 0. A resolution is undefined when one of its sums
leaves the 64-bit integers.
-/

namespace DawProject.Document.Engine

open Machine
open Tempo (TempoPoint)

structure NoteDef where
  start_sample : Int := 0
  length_samples : Int := 0
  start_tick : Int := -1
  length_tick : Int := -1
deriving DecidableEq, Repr

structure ClipDef where
  start_sample : Int := 0
  length_samples : Int := 0
  notes : List NoteDef := []
  start_tick : Int := -1
  length_tick : Int := -1
deriving DecidableEq, Repr

def ClipDef.isMusical (clip : ClipDef) : Bool := decide (clip.start_tick ≥ 0)

structure AutomationLaneDef where
  points : List Int := []
  time_base_ticks : Bool := false
deriving DecidableEq, Repr

structure TrackDef where
  clips : List ClipDef := []
  automation : List AutomationLaneDef := []
deriving DecidableEq, Repr

structure ProjectDef where
  schema_version : Nat := 1
  sample_rate : Nat := 48000
  tracks : List TrackDef := []
  automation : List AutomationLaneDef := []
  tempo_milli_bpm : Int := 0
  tempo_map : List TempoPoint := []
deriving DecidableEq, Repr

/-- `itemToUint` and the cast to 32 bits: a negative integer is not read. -/
def readUint (default_ : Nat) (item : Int) : Nat :=
  if item ≥ 0 then item.toNat % 4294967296 else default_

def readNote (n : Document.NoteDef) : NoteDef where
  start_sample := n.startSample.getD 0
  length_samples := n.lengthSamples.getD 0
  start_tick := n.startTick.getD (-1)
  length_tick := n.lengthTick.getD (-1)

def readClip (c : Document.ClipDef) : ClipDef where
  start_sample := c.startSample.getD 0
  length_samples := c.lengthSamples.getD 0
  notes := (c.notes.getD []).map readNote
  start_tick := c.startTick.getD (-1)
  length_tick := c.lengthTick.getD (-1)

def readAutomationLanes (lanes : Option (List Document.AutomationLaneDef)) :
    List AutomationLaneDef :=
  (lanes.getD []).map fun lane =>
    { points := lane.points.map AutomationPointDef.t
      time_base_ticks := lane.timeBase == some "ticks" }

def readTrack (t : Document.TrackDef) : TrackDef where
  clips := t.clips.map readClip
  automation := readAutomationLanes t.automation

def readDocument (d : Document.ProjectDef) : ProjectDef where
  schema_version := readUint 1 d.schemaVersion
  sample_rate := readUint 48000 d.sampleRate
  tracks := d.tracks.map readTrack
  automation := readAutomationLanes d.automation
  tempo_milli_bpm := d.tempoMilliBpm.getD 0
  tempo_map := d.tempoMap.getD []

def docTempoMap (doc : ProjectDef) : List TempoPoint :=
  let reg := if doc.tempo_milli_bpm > 0 then doc.tempo_milli_bpm else 120000
  Tempo.Engine.effectiveMap reg doc.tempo_map

section Resolution

-- The position of a tick, by the table of the document.
variable (at_ : Int → Option Int)

/-- A note of a clip at `start_tick`, which is sample `cs` of the timeline. -/
def resolveNote (start_tick cs : Int) (n : NoteDef) : Option NoteDef :=
  if n.start_tick < 0 then some n
  else do
    let abs_tick ← int64.fit (start_tick + n.start_tick)
    let abs_start ← at_ abs_tick
    let start ← int64.fit (abs_start - cs)
    if n.length_tick ≥ 0 then do
      let stop_tick ← int64.fit (abs_tick + n.length_tick)
      let stop ← at_ stop_tick
      let length ← int64.fit (stop - abs_start)
      return { n with start_sample := start, length_samples := length }
    else return { n with start_sample := start }

/-- The length of a clip that starts at sample `cs` is a difference of
positions. -/
def resolveLength (cs : Int) (clip : ClipDef) : Option Int :=
  if clip.length_tick ≥ 0 then do
    let stop_tick ← int64.fit (clip.start_tick + clip.length_tick)
    let stop ← at_ stop_tick
    int64.fit (stop - cs)
  else some clip.length_samples

def resolveClip (clip : ClipDef) : Option ClipDef :=
  if clip.isMusical then do
    let cs ← at_ clip.start_tick
    let length ← resolveLength at_ cs clip
    let notes ← clip.notes.mapM (resolveNote at_ clip.start_tick cs)
    return { clip with start_sample := cs, length_samples := length, notes := notes }
  else some clip

def resolveLane (lane : AutomationLaneDef) : Option AutomationLaneDef :=
  if lane.time_base_ticks then do
    let points ← lane.points.mapM at_
    return { lane with points := points }
  else some lane

def resolveTrack (track : TrackDef) : Option TrackDef := do
  let clips ← track.clips.mapM (resolveClip at_)
  let automation ← track.automation.mapM (resolveLane at_)
  return { track with clips := clips, automation := automation }

end Resolution

/-- A version 1 document is left as it is. -/
def resolveMusicalTime (doc : ProjectDef) : Option ProjectDef :=
  if doc.schema_version < 2 then some doc
  else do
    let map := docTempoMap doc
    let sr : Int := doc.sample_rate
    let S ← Tempo.Engine.buildBoundaryTable map sr
    let at_ := Tempo.Engine.samplesAtTick map S sr
    let tracks ← doc.tracks.mapM (resolveTrack at_)
    let automation ← doc.automation.mapM (resolveLane at_)
    return { doc with tracks := tracks, automation := automation }

end DawProject.Document.Engine
