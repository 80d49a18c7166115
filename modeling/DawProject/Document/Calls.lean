import DawProject.Document.Project

/-!
The project as a machine, `Project` of `web/src/document/project.ts`: its
mutators, the gestures that group their captures, and undo and redo, which
replay what was captured.
-/

namespace DawProject.Document

/-- The mutator that `replay` calls for an inverse. A note born without an id
takes `freshId`. -/
def mutatorOf (freshId : String) : InverseOp → Edit
  | .setTrackGain trackId gain => setTrackGain trackId gain
  | .setTrackPan trackId pan => setTrackPan trackId pan
  | .setTrackOrder trackId order => setTrackOrder trackId order
  | .clearTrackOrder trackId => clearTrackOrder trackId
  | .renameTrack trackId name => renameTrack trackId name
  | .renameClip trackId clipId name => renameClip trackId clipId name
  | .setMasterGain gain => setMasterGain gain
  | .setTempo milliBpm => setTempoMilliBpm milliBpm
  | .setProcessorBypass trackId processorId bypass =>
      setProcessorBypass trackId processorId bypass
  | .setProcessorParam trackId processorId key value =>
      setProcessorParam trackId processorId key value
  | .removeProcessorParam trackId processorId key => removeProcessorParam trackId processorId key
  | .setClipStart trackId clipId startSample => setClipStart trackId clipId startSample
  | .setClipBounds trackId clipId bounds => setClipBounds trackId clipId bounds
  | .setClipTiming trackId clipId timing => setClipTiming trackId clipId timing
  | .setClipFades trackId clipId fadeInSamples fadeOutSamples =>
      setClipFades trackId clipId fadeInSamples fadeOutSamples
  | .addClip trackId clip => addClip trackId clip
  | .deleteClip trackId clipId => deleteClip trackId clipId
  | .setClipScene trackId clipId sceneId => setClipScene trackId clipId sceneId
  | .addTrack track => addTrack track
  | .deleteTrack trackId => deleteTrack trackId
  | .addProcessor trackId proc index => addProcessor trackId proc (some index)
  | .removeProcessor trackId processorId => removeProcessor trackId processorId
  | .moveProcessor trackId processorId toIndex => moveProcessor trackId processorId toIndex
  | .toggleNote trackId clipId note => toggleNote freshId trackId clipId note
  | .updateNote trackId clipId noteId patch => updateNote trackId clipId noteId patch
  | .renameScene sceneId name => renameScene sceneId name
  | .deleteScene sceneId => deleteScene sceneId
  | .restoreScene scene index clips => restoreScene scene index clips
  | .deleteAutomationLane trackId laneId => deleteAutomationLane trackId laneId
  | .restoreAutomationLane trackId lane index => restoreAutomationLane trackId lane index
  | .setAutomationLaneEnabled trackId laneId enabled =>
      setAutomationLaneEnabled trackId laneId enabled
  | .addAutomationPoint trackId laneId t v => addAutomationPoint trackId laneId t v
  | .moveAutomationPoint trackId laneId index t v => moveAutomationPoint trackId laneId index t v
  | .deleteAutomationPoint trackId laneId index => deleteAutomationPoint trackId laneId index

/-- A captured inverse and the gesture it belongs to; what a replay captures
belongs to none. -/
structure Captured where
  op : InverseOp
  gesture : Option Nat
deriving DecidableEq

def Captured.key (c : Captured) : String := targetKey c.op

/-- A project. `gestures`, `captured` and `entries` are history that no step
reads: how many gestures were begun, the captures made outside a replay, and
the entries pushed on a stack. -/
structure Project where
  doc : ProjectDef
  journal : UndoJournal Captured := {}
  gestures : Nat := 0
  captured : List Captured := []
  entries : List (UndoGroup Captured) := []

namespace Project

/-- A capture outside a group is a gesture of its own. -/
def capture (p : Project) (op : InverseOp) : Project :=
  match p.journal.route, p.journal.grouping with
  | .normal, some _ =>
      let c : Captured := ⟨op, some p.gestures⟩
      { p with
        journal := p.journal.capture Captured.key c
        captured := p.captured ++ [c] }
  | .normal, none =>
      let c : Captured := ⟨op, some (p.gestures + 1)⟩
      { p with
        journal := p.journal.capture Captured.key c
        gestures := p.gestures + 1
        captured := p.captured ++ [c]
        entries := p.entries ++ [⟨[c], [c.key]⟩] }
  | _, some _ => { p with journal := p.journal.capture Captured.key ⟨op, none⟩ }
  | _, none =>
      let c : Captured := ⟨op, none⟩
      { p with
        journal := p.journal.capture Captured.key c
        entries := p.entries ++ [⟨[c], [c.key]⟩] }

def beginGroup (p : Project) : Project :=
  { p with
    journal := p.journal.beginGroup
    gestures := if p.journal.grouping.isSome then p.gestures else p.gestures + 1 }

def endGroup (p : Project) : Project :=
  { p with
    journal := p.journal.endGroup
    entries := p.entries ++ p.journal.grouping.toList.filter fun g => g.ops ≠ [] }

/-- A call of a mutator. One that throws has written nothing. -/
def edit (p : Project) (e : Edit) : Project :=
  match e p.doc with
  | .throws _ => p
  | .ignored => p
  | .writes inverse doc => { p.capture inverse with doc := doc }

/-- `replay`: a mutator that throws ends it. -/
def replay (freshId : Nat → String) : List Captured → Project → Project
  | [], p => p
  | c :: ops, p =>
      match mutatorOf (freshId ops.length) c.op p.doc with
      | .throws _ => p
      | .ignored => replay freshId ops p
      | .writes inverse doc => replay freshId ops { p.capture inverse with doc := doc }

/-- `routeReplay` of a replay. -/
def routeReplay (p : Project) (direction : Route) (freshId : Nat → String) (ops : List Captured) :
    Project :=
  let q := replay freshId ops { p with journal := p.journal.enterReplay direction }
  { q.endGroup with journal := q.journal.leaveReplay }

def undo (p : Project) (freshId : Nat → String) : Project :=
  match p.journal.popUndo with
  | none => p
  | some (ops, journal) => { p with journal := journal }.routeReplay .toRedo freshId ops

def redo (p : Project) (freshId : Nat → String) : Project :=
  match p.journal.popRedo with
  | none => p
  | some (ops, journal) => { p with journal := journal }.routeReplay .toUndo freshId ops

end Project

/-- What is called on a project. A mutator that groups its captures is its
edits between a `beginGroup` and an `endGroup`. -/
inductive Call where
  | beginGroup
  | endGroup
  | edit (e : Edit)
  | undo (freshId : Nat → String)
  | redo (freshId : Nat → String)

def Project.step (p : Project) : Call → Project
  | .beginGroup => p.beginGroup
  | .endGroup => p.endGroup
  | .edit e => p.edit e
  | .undo freshId => p.undo freshId
  | .redo freshId => p.redo freshId

def Project.run (p : Project) (calls : List Call) : Project := calls.foldl Project.step p

end DawProject.Document
