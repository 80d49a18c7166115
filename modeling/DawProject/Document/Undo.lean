import DawProject.Document.Schema

/-!
The undo journal, `web/src/document/undo.ts`: the typed inverses a mutator
captures before it applies, the key of the target each restores, and the two
stacks of entries. The journal is generic in what it records; the code records
an `InverseOp` under its `targetKey`.
-/

namespace DawProject.Document

/-- The time fields a clip has; an absent one is to be removed. -/
structure ClipTiming where
  startSample : Option Int := none
  lengthSamples : Option Int := none
  offsetSamples : Option Int := none
  startTick : Option Int := none
  lengthTick : Option Int := none
deriving DecidableEq, Repr

/-- The offset is undefined where the clip captured had none. -/
structure ClipBounds where
  startSample : Int
  lengthSamples : Int
  offsetSamples : Option Int
deriving DecidableEq, Repr

structure NotePatch where
  pitch : Option Int := none
  velocity : Option Int := none
  startSample : Option Int := none
  lengthSamples : Option Int := none
  startTick : Option Int := none
  lengthTick : Option Int := none
deriving DecidableEq, Repr

/-- A clip and the track it goes back to. -/
structure PlacedClip where
  trackId : String
  clip : ClipDef
deriving DecidableEq, Repr

/-- A track of `none` stands for the lanes of the master. -/
inductive InverseOp where
  | setTrackGain (trackId : String) (gain : ℚ)
  | setTrackPan (trackId : String) (pan : ℚ)
  | setTrackOrder (trackId : String) (order : ℚ)
  | clearTrackOrder (trackId : String)
  | renameTrack (trackId name : String)
  | renameClip (trackId clipId name : String)
  | setMasterGain (gain : ℚ)
  | setTempo (milliBpm : Int)
  | setProcessorBypass (trackId processorId : String) (bypass : Bool)
  | setProcessorParam (trackId processorId key : String) (value : ℚ)
  | removeProcessorParam (trackId processorId key : String)
  | setClipStart (trackId clipId : String) (startSample : Int)
  | setClipBounds (trackId clipId : String) (bounds : ClipBounds)
  | setClipTiming (trackId clipId : String) (timing : ClipTiming)
  | setClipFades (trackId clipId : String) (fadeInSamples fadeOutSamples : Int)
  | addClip (trackId : String) (clip : ClipDef)
  | deleteClip (trackId clipId : String)
  | setClipScene (trackId clipId sceneId : String)
  | addTrack (track : TrackDef)
  | deleteTrack (trackId : String)
  | addProcessor (trackId : String) (proc : ProcessorDef) (index : Int)
  | removeProcessor (trackId processorId : String)
  | moveProcessor (trackId processorId : String) (toIndex : Int)
  | toggleNote (trackId clipId : String) (note : NoteDef)
  | updateNote (trackId clipId noteId : String) (patch : NotePatch)
  | renameScene (sceneId name : String)
  | deleteScene (sceneId : String)
  | restoreScene (scene : SceneDef) (index : Int) (clips : List PlacedClip)
  | deleteAutomationLane (trackId : Option String) (laneId : String)
  | restoreAutomationLane (trackId : Option String) (lane : AutomationLaneDef) (index : Int)
  | setAutomationLaneEnabled (trackId : Option String) (laneId : String) (enabled : Bool)
  | addAutomationPoint (trackId : Option String) (laneId : String) (t : Int) (v : ℚ)
  | moveAutomationPoint (trackId : Option String) (laneId : String) (index t : Int) (v : ℚ)
  | deleteAutomationPoint (trackId : Option String) (laneId : String) (index : Int)
deriving DecidableEq, Repr

/-- How an absent number prints inside a key. -/
def undefinedOr (n : Option Int) : String :=
  match n with
  | some n => toString n
  | none => "undefined"

open InverseOp in
/-- The target a capture restores. Inside a group only the first capture under
a key is kept. -/
def targetKey : InverseOp → String
  | setTrackGain trackId _ => s!"gain:{trackId}"
  | setTrackPan trackId _ => s!"pan:{trackId}"
  | setTrackOrder trackId _ => s!"order:{trackId}"
  | clearTrackOrder trackId => s!"order:{trackId}"
  | renameTrack trackId _ => s!"trackname:{trackId}"
  | renameClip trackId clipId _ => s!"clipname:{trackId}:{clipId}"
  | setMasterGain _ => "master"
  | setTempo _ => "tempo"
  | setProcessorBypass trackId processorId _ => s!"byp:{trackId}:{processorId}"
  | setProcessorParam trackId processorId key _ => s!"param:{trackId}:{processorId}:{key}"
  | removeProcessorParam trackId processorId key => s!"param:{trackId}:{processorId}:{key}"
  | setClipStart trackId clipId _ => s!"clipstart:{trackId}:{clipId}"
  | setClipBounds trackId clipId _ => s!"clipbounds:{trackId}:{clipId}"
  | setClipTiming trackId clipId _ => s!"clipstart:{trackId}:{clipId}"
  | setClipFades trackId clipId _ _ => s!"clipfades:{trackId}:{clipId}"
  | addClip trackId clip => s!"clip:{trackId}:{clip.id}"
  | deleteClip trackId clipId => s!"clip:{trackId}:{clipId}"
  | setClipScene trackId clipId _ => s!"clipscene:{trackId}:{clipId}"
  | addTrack track => s!"track:{track.id}"
  | deleteTrack trackId => s!"track:{trackId}"
  | addProcessor trackId proc _ => s!"proc:{trackId}:{proc.id}"
  | removeProcessor trackId processorId => s!"proc:{trackId}:{processorId}"
  | moveProcessor trackId processorId _ => s!"procmove:{trackId}:{processorId}"
  | toggleNote trackId clipId note =>
      let start := undefinedOr (note.startTick.orElse fun _ => note.startSample)
      s!"note:{trackId}:{clipId}:{note.pitch}:{start}"
  | updateNote trackId clipId noteId _ => s!"noteid:{trackId}:{clipId}:{noteId}"
  | renameScene sceneId _ => s!"scenename:{sceneId}"
  | deleteScene sceneId => s!"scene:{sceneId}"
  | restoreScene scene _ _ => s!"scene:{scene.id}"
  | deleteAutomationLane trackId laneId =>
      let scope := trackId.getD "master"
      s!"alane:{scope}:{laneId}"
  | restoreAutomationLane trackId lane _ =>
      let scope := trackId.getD "master"
      s!"alane:{scope}:{lane.id}"
  | setAutomationLaneEnabled trackId laneId _ =>
      let scope := trackId.getD "master"
      s!"alaneon:{scope}:{laneId}"
  | addAutomationPoint trackId laneId t v =>
      let scope := trackId.getD "master"
      s!"apoint:{scope}:{laneId}:{t}:{v}"
  | moveAutomationPoint trackId laneId _ t v =>
      let scope := trackId.getD "master"
      s!"apoint:{scope}:{laneId}:{t}:{v}"
  | deleteAutomationPoint trackId laneId index =>
      let scope := trackId.getD "master"
      s!"apoint-i:{scope}:{laneId}:{index}"

def MAX_ENTRIES : Nat := 100

/-- The inverses of one gesture, oldest first, and the keys already seen. -/
structure UndoGroup (α : Type) where
  ops : List α := []
  seen : List String := []

/-- The first capture of a target is the one an open group keeps. -/
def UndoGroup.record {α : Type} (key : α → String) (g : UndoGroup α) (op : α) : UndoGroup α :=
  if g.seen.contains (key op) then g else ⟨g.ops ++ [op], key op :: g.seen⟩

inductive Route where
  | normal
  | toRedo
  | toUndo
deriving DecidableEq, Repr

/-- The stacks hold their newest entry first. -/
structure UndoJournal (α : Type) where
  undoStack : List (UndoGroup α) := []
  redoStack : List (UndoGroup α) := []
  grouping : Option (UndoGroup α) := none
  route : Route := .normal

namespace UndoJournal

variable {α : Type}

/-- `push`, then `shift` beyond the cap: the oldest entry is lost. -/
def pushCapped (stack : List (UndoGroup α)) (g : UndoGroup α) : List (UndoGroup α) :=
  if (g :: stack).length > MAX_ENTRIES then (g :: stack).dropLast else g :: stack

/-- The entry goes to the stack the route names. -/
def push (j : UndoJournal α) (g : UndoGroup α) : UndoJournal α :=
  if j.route = .toRedo then { j with redoStack := pushCapped j.redoStack g }
  else { j with undoStack := pushCapped j.undoStack g }

section Capture

variable (key : α → String)

/-- The inverse of a mutation about to be applied. Outside a replay it
invalidates the redo stack. -/
def capture (j : UndoJournal α) (op : α) : UndoJournal α :=
  let j := if j.route = .normal then { j with redoStack := [] } else j
  match j.grouping with
  | some g => { j with grouping := some (g.record key op) }
  | none => j.push ⟨[op], [key op]⟩

end Capture

/-- A begin inside an open group keeps the outer gesture. -/
def beginGroup (j : UndoJournal α) : UndoJournal α :=
  match j.grouping with
  | some _ => j
  | none => { j with grouping := some {} }

def endGroup (j : UndoJournal α) : UndoJournal α :=
  let closed := { j with grouping := none }
  match j.grouping with
  | none => closed
  | some g => if g.ops = [] then closed else closed.push g

/-- The entry to revert, in the order of its replay. -/
def popUndo (j : UndoJournal α) : Option (List α × UndoJournal α) :=
  match j.undoStack with
  | [] => none
  | g :: rest => some (g.ops.reverse, { j with undoStack := rest })

def popRedo (j : UndoJournal α) : Option (List α × UndoJournal α) :=
  match j.redoStack with
  | [] => none
  | g :: rest => some (g.ops.reverse, { j with redoStack := rest })

/-- `routeReplay` up to the call of its argument. -/
def enterReplay (j : UndoJournal α) (direction : Route) : UndoJournal α :=
  { j with route := direction }.beginGroup

/-- The `finally` of `routeReplay`. -/
def leaveReplay (j : UndoJournal α) : UndoJournal α := { j.endGroup with route := .normal }

end UndoJournal

end DawProject.Document
