import Mathlib.Data.Rat.Defs
import DawProject.Tempo.Web

/-!
The project document as the web edits it, `web/src/document/schema.ts`.
Positions, lengths and ticks are integers; gains, pans, orders and parameter
values are rationals, the finite numbers of the language. An absent field is
`none`.
-/

namespace DawProject.Document

open Tempo (TempoPoint)

structure NoteDef where
  id : Option String := none
  pitch : Int
  velocity : Int
  startSample : Option Int := none
  lengthSamples : Option Int := none
  startTick : Option Int := none
  lengthTick : Option Int := none
deriving DecidableEq, Repr

structure ClipDef where
  id : String
  name : Option String := none
  assetHash : String := ""
  startSample : Option Int := none
  lengthSamples : Option Int := none
  offsetSamples : Option Int := some 0
  fadeInSamples : Option Int := none
  fadeOutSamples : Option Int := none
  notes : Option (List NoteDef) := none
  sceneId : Option String := none
  startTick : Option Int := none
  lengthTick : Option Int := none
deriving DecidableEq, Repr

structure ProcessorParam where
  key : String
  value : ℚ
deriving DecidableEq, Repr

structure ProcessorDef where
  id : String
  type : String
  uid : Option String := none
  name : Option String := none
  bypass : Bool := false
  params : List ProcessorParam := []
  stateHash : Option String := none
  stateVersion : Option Int := none
  stemHash : Option String := none
  stemKey : Option String := none
  stemLatencySamples : Option Int := none
deriving DecidableEq, Repr

structure AutomationTarget where
  processorId : Option String := none
  param : String
deriving DecidableEq, Repr

structure AutomationPointDef where
  t : Int
  v : ℚ
deriving DecidableEq, Repr

structure AutomationLaneDef where
  id : String
  target : AutomationTarget
  points : List AutomationPointDef := []
  enabled : Bool := true
  /-- `'ticks'` for a musical lane. -/
  timeBase : Option String := none
deriving DecidableEq, Repr

structure TrackDef where
  id : String
  name : String
  gain : ℚ := 1
  kind : Option String := none
  pan : Option ℚ := none
  order : Option ℚ := none
  clips : List ClipDef := []
  chain : List ProcessorDef := []
  automation : Option (List AutomationLaneDef) := none
deriving DecidableEq, Repr

structure SceneDef where
  id : String
  name : String
deriving DecidableEq, Repr

structure ProjectDef where
  schemaVersion : Int := 1
  sampleRate : Int := 48000
  masterGain : Option ℚ := none
  tracks : List TrackDef := []
  scenes : Option (List SceneDef) := none
  automation : Option (List AutomationLaneDef) := none
  tempoMilliBpm : Option Int := none
  tempoMap : Option (List TempoPoint) := none
deriving DecidableEq, Repr

/-- The presence of a tick makes a clip musical, never its value. -/
def isMusicalClip (clip : ClipDef) : Bool := clip.startTick.isSome

def effectiveTempoMap (doc : ProjectDef) : List TempoPoint :=
  Tempo.Web.effectiveMap (doc.tempoMilliBpm.getD 120000) (doc.tempoMap.getD [])

/-- The lazy bump to version 2, before the first musical write. -/
def ensureV2 (doc : ProjectDef) : ProjectDef :=
  if doc.schemaVersion < 2 then { doc with schemaVersion := 2 } else doc

end DawProject.Document
