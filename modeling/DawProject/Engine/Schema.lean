import DawProject.Lib.Floats
import DawProject.Tempo.Table

/-!
The track of a document as the engine holds it, `engine/src/document/schema.h`.
Positions are 64-bit integers of the document; `F` is the single-precision
type of gains, pans, parameter values and automation values. An empty string,
a tick of -1 and a position of 0 stand for an absent field.
-/

namespace DawProject.Engine

structure AutomationPointDef (F : Type) where
  t : Int := 0
  v : F
deriving DecidableEq, Repr

/-- A curve from time to value attached to a parameter. `v` is normalised to
the interval from 0 to 1. -/
structure AutomationLaneDef (F : Type) where
  id : String := ""
  /-- Empty for a parameter of the track, or of the master. -/
  processor_id : String := ""
  param : String := ""
  enabled : Bool := true
  points : List (AutomationPointDef F) := []
  /-- The times of the points are ticks. -/
  time_base_ticks : Bool := false
deriving DecidableEq, Repr

/-- A plugin or a built-in of a chain, with its parameters in the order of the
document. -/
structure ProcessorDef (F : Type) where
  id : String := ""
  type : String := ""
  uid : String := ""
  bypass : Bool := false
  params : List (String × F) := []
  state_hash : String := ""
  state_version : Int := 0
  stem_hash : String := ""
  stem_key : String := ""
  stem_latency_samples : Int := 0
deriving DecidableEq, Repr

/-- `setParam` of the schema: overwrite in place or append. -/
def setParam {F : Type} (params : List (String × F)) (key : String) (value : F) :
    List (String × F) :=
  if params.any (fun p => p.1 == key) then
    params.map fun p => if p.1 == key then (p.1, value) else p
  else params ++ [(key, value)]

/-- A note of a clip. Its positions are relative to the start of the clip. -/
structure NoteDef where
  pitch : UInt8 := 60
  velocity : UInt8 := 100
  start_sample : Int := 0
  length_samples : Int := 0
  start_tick : Int := -1
  length_tick : Int := -1
deriving DecidableEq, Repr

structure ClipDef where
  id : String := ""
  asset_hash : String := ""
  start_sample : Int := 0
  length_samples : Int := 0
  offset_samples : Int := 0
  fade_in_samples : Int := 0
  fade_out_samples : Int := 0
  notes : List NoteDef := []
  /-- Not empty for a slot of the session, which the timeline ignores. -/
  scene_id : String := ""
  start_tick : Int := -1
  length_tick : Int := -1
deriving DecidableEq, Repr

structure TrackDef (F : Type) where
  id : String := ""
  name : String := ""
  gain : F
  pan : F
  clips : List ClipDef := []
  chain : List (ProcessorDef F) := []
  automation : List (AutomationLaneDef F) := []
deriving DecidableEq, Repr

structure ProjectDef (F : Type) where
  schema_version : Nat := 1
  sample_rate : Nat := 48000
  master_gain : F
  tracks : List (TrackDef F) := []
  /-- The curves of the master. -/
  automation : List (AutomationLaneDef F) := []
  /-- In thousandths of a beat per minute, 0 when the document has none. -/
  tempo_milli_bpm : Int := 0
  tempo_map : List Tempo.TempoPoint := []
deriving DecidableEq, Repr

end DawProject.Engine
