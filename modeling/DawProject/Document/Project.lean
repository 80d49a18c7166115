import DawProject.Lib.Keyed
import DawProject.Document.Geometry
import DawProject.Document.Undo

/-!
The mutators of the document, `web/src/document/project.ts`. Each is given by
what it does to the document it is called on: it throws, it is ignored (its
target is gone, or the call changes nothing), or it writes and captures the
inverse of the write first. Positions and indices are integers, on which
`Math.round` is the identity.
-/

namespace DawProject.Document

open Keyed
open Tempo (clampMilliBpm MAX_TICK)

inductive Effect where
  | throws (message : String)
  | ignored
  | writes (inverse : InverseOp) (doc : ProjectDef)

abbrev Edit := ProjectDef → Effect

def clampTick (n : Int) : Int := max 0 (min MAX_TICK n)

/-- `t` of an automation point: an integer from 0 on. -/
def clampT (t : Int) : Int := max 0 t

/-- `v` of an automation point, normalised. -/
def clampV (v : ℚ) : ℚ := max 0 (min 1 v)

section Names

/-- The white space `trim` removes. -/
def isSpace (c : Char) : Bool :=
  [9, 10, 11, 12, 13, 32, 0xa0, 0x1680, 0x2028, 0x2029, 0x202f, 0x205f, 0x3000, 0xfeff].contains
      c.toNat ||
    (decide (0x2000 ≤ c.toNat) && decide (c.toNat ≤ 0x200a))

/-- The first `n` units of UTF-16. A pair the cut would split is left out. -/
def sliceUnits : Nat → List Char → List Char
  | _, [] => []
  | n, c :: cs =>
      let units := if c.toNat ≥ 0x10000 then 2 else 1
      if units ≤ n then c :: sliceUnits (n - units) cs else []

/-- `name.trim().slice(0, 64)`. -/
def shownName (name : String) : String :=
  let trimmed := ((name.toList.dropWhile isSpace).reverse.dropWhile isSpace).reverse
  String.ofList (sliceUnits 64 trimmed)

end Names

section Lookup

variable (d : ProjectDef)

def ProjectDef.findTrack (trackId : String) : Option TrackDef :=
  d.tracks.find? fun t => t.id == trackId

def ProjectDef.findClip (trackId clipId : String) : Option ClipDef :=
  (d.findTrack trackId).bind fun t => t.clips.find? fun c => c.id == clipId

def ProjectDef.findProcessor (trackId processorId : String) : Option ProcessorDef :=
  (d.findTrack trackId).bind fun t => t.chain.find? fun p => p.id == processorId

def ProjectDef.findScene (sceneId : String) : Option SceneDef :=
  (d.scenes.getD []).find? fun s => s.id == sceneId

/-- The lanes of a track, or of the master. -/
def lanesIn (trackId : Option String) : Option (List AutomationLaneDef) :=
  match trackId with
  | none => d.automation
  | some trackId => (d.findTrack trackId).bind TrackDef.automation

def ProjectDef.findLane (trackId : Option String) (laneId : String) :
    Option AutomationLaneDef :=
  (lanesIn d trackId).bind fun lanes => lanes.find? fun l => l.id == laneId

def ProjectDef.updateTrack (trackId : String) (f : TrackDef → TrackDef) : ProjectDef :=
  { d with tracks := updateFirst (fun t => t.id == trackId) f d.tracks }

def ProjectDef.updateClip (trackId clipId : String) (f : ClipDef → ClipDef) : ProjectDef :=
  d.updateTrack trackId fun t =>
    { t with clips := updateFirst (fun c => c.id == clipId) f t.clips }

def ProjectDef.updateProcessor (trackId processorId : String)
    (f : ProcessorDef → ProcessorDef) : ProjectDef :=
  d.updateTrack trackId fun t =>
    { t with chain := updateFirst (fun p => p.id == processorId) f t.chain }

/-- A write on the lanes that are there. -/
def ProjectDef.updateLanes (trackId : Option String)
    (f : List AutomationLaneDef → List AutomationLaneDef) : ProjectDef :=
  match trackId with
  | none => { d with automation := d.automation.map f }
  | some trackId => d.updateTrack trackId fun t => { t with automation := t.automation.map f }

/-- `ensureLanes`: the list is created where it is absent. -/
def ProjectDef.ensureLanes (trackId : Option String)
    (f : List AutomationLaneDef → List AutomationLaneDef) : ProjectDef :=
  match trackId with
  | none => { d with automation := some (f (d.automation.getD [])) }
  | some trackId =>
      d.updateTrack trackId fun t => { t with automation := some (f (t.automation.getD [])) }

def ProjectDef.updateLane (trackId : Option String) (laneId : String)
    (f : AutomationLaneDef → AutomationLaneDef) : ProjectDef :=
  d.updateLanes trackId (updateFirst (fun l => l.id == laneId) f)

end Lookup

/-- `splice(index, 0, a)` at an index inside the list, `push` elsewhere. -/
def insertAt {α : Type} (index : Int) (a : α) (l : List α) : List α :=
  if 0 ≤ index ∧ index ≤ l.length then l.insertIdx index.toNat a else l ++ [a]

section Tracks

def setTrackGain (trackId : String) (gain : ℚ) : Edit := fun d =>
  match d.findTrack trackId with
  | none => .ignored
  | some track =>
      .writes (.setTrackGain trackId track.gain)
        (d.updateTrack trackId fun t => { t with gain := max 0 (min 2 gain) })

def setTrackPan (trackId : String) (pan : ℚ) : Edit := fun d =>
  match d.findTrack trackId with
  | none => .ignored
  | some track =>
      .writes (.setTrackPan trackId (track.pan.getD 0))
        (d.updateTrack trackId fun t => { t with pan := some (max (-1) (min 1 pan)) })

/-- The inverse of a first order removes the field. -/
def setTrackOrder (trackId : String) (order : ℚ) : Edit := fun d =>
  match d.findTrack trackId with
  | none => .ignored
  | some track =>
      if track.order = some order then .ignored
      else
        .writes
          (match track.order with
            | none => .clearTrackOrder trackId
            | some before => .setTrackOrder trackId before)
          (d.updateTrack trackId fun t => { t with order := some order })

def clearTrackOrder (trackId : String) : Edit := fun d =>
  match (d.findTrack trackId).bind TrackDef.order with
  | none => .ignored
  | some order =>
      .writes (.setTrackOrder trackId order)
        (d.updateTrack trackId fun t => { t with order := none })

def renameTrack (trackId name : String) : Edit := fun d =>
  let next := shownName name
  match d.findTrack trackId with
  | none => .ignored
  | some track =>
      if next = "" ∨ next = track.name then .ignored
      else
        .writes (.renameTrack trackId track.name)
          (d.updateTrack trackId fun t => { t with name := next })

def addTrack (track : TrackDef) : Edit := fun d =>
  .writes (.deleteTrack track.id) { d with tracks := d.tracks ++ [track] }

def deleteTrack (trackId : String) : Edit := fun d =>
  match d.findTrack trackId with
  | none => .ignored
  | some track =>
      .writes (.addTrack track) { d with tracks := d.tracks.eraseP fun t => t.id == trackId }

end Tracks

section Root

def setMasterGain (gain : ℚ) : Edit := fun d =>
  .writes (.setMasterGain (d.masterGain.getD 1)) { d with masterGain := some (max 0 (min 2 gain)) }

def setTempoMilliBpm (milliBpm : Int) : Edit := fun d =>
  let next := clampMilliBpm milliBpm
  if d.tempoMilliBpm = some next then .ignored
  else
    .writes (.setTempo (d.tempoMilliBpm.getD 120000)) { ensureV2 d with tempoMilliBpm := some next }

end Root

section Processors

def setProcessorBypass (trackId processorId : String) (bypass : Bool) : Edit := fun d =>
  match d.findProcessor trackId processorId with
  | none => .ignored
  | some proc =>
      .writes (.setProcessorBypass trackId processorId proc.bypass)
        (d.updateProcessor trackId processorId fun p => { p with bypass := bypass })

/-- The inverse of a new key is a removal. -/
def setProcessorParam (trackId processorId key : String) (value : ℚ) : Edit := fun d =>
  match d.findProcessor trackId processorId with
  | none => .ignored
  | some proc =>
      .writes
        (match proc.params.find? fun p => p.key == key with
          | some existing => .setProcessorParam trackId processorId key existing.value
          | none => .removeProcessorParam trackId processorId key)
        (d.updateProcessor trackId processorId fun p =>
          { p with
            params :=
              if p.params.any fun x => x.key == key then
                updateFirst (fun x => x.key == key) (fun x => { x with value := value }) p.params
              else p.params ++ [⟨key, value⟩] })

def removeProcessorParam (trackId processorId key : String) : Edit := fun d =>
  match (d.findProcessor trackId processorId).bind fun p => p.params.find? fun x => x.key == key with
  | none => .ignored
  | some existing =>
      .writes (.setProcessorParam trackId processorId key existing.value)
        (d.updateProcessor trackId processorId fun p =>
          { p with params := p.params.eraseP fun x => x.key == key })

/-- A device whose id is already in the chain is not added. -/
def addProcessor (trackId : String) (proc : ProcessorDef) (index : Option Int) : Edit := fun d =>
  match d.findTrack trackId with
  | none => .ignored
  | some track =>
      if track.chain.any fun p => p.id == proc.id then .ignored
      else
        .writes (.removeProcessor trackId proc.id)
          (d.updateTrack trackId fun t =>
            { t with
              chain :=
                match index with
                | some index => insertAt index proc t.chain
                | none => t.chain ++ [proc] })

def removeProcessor (trackId processorId : String) : Edit := fun d =>
  match d.findTrack trackId with
  | none => .ignored
  | some track =>
      match track.chain.find? fun p => p.id == processorId with
      | none => .ignored
      | some proc =>
          .writes
            (.addProcessor trackId proc (track.chain.findIdx fun p => p.id == processorId))
            (d.updateTrack trackId fun t =>
              { t with chain := t.chain.eraseP fun p => p.id == processorId })

/-- `toIndex` is the index the device ends at, after its removal. -/
def moveProcessor (trackId processorId : String) (toIndex : Int) : Edit := fun d =>
  match d.findTrack trackId with
  | none => .ignored
  | some track =>
      match track.chain.find? fun p => p.id == processorId with
      | none => .ignored
      | some copy =>
          let from_ : Int := track.chain.findIdx fun p => p.id == processorId
          let to_ : Int := max 0 (min (track.chain.length - 1) toIndex)
          if to_ = from_ then .ignored
          else
            .writes (.moveProcessor trackId processorId from_)
              (d.updateTrack trackId fun t =>
                let chain := t.chain.eraseP fun p => p.id == processorId
                let at_ : Int := max 0 (min chain.length to_)
                { t with chain := chain.insertIdx at_.toNat copy })

end Processors

section Clips

/-- An empty name removes the field. -/
def renameClip (trackId clipId name : String) : Edit := fun d =>
  let next := shownName name
  match d.findClip trackId clipId with
  | none => .ignored
  | some clip =>
      if next = clip.name.getD "" then .ignored
      else
        .writes (.renameClip trackId clipId (clip.name.getD ""))
          (d.updateClip trackId clipId fun c =>
            { c with name := if next = "" then none else some next })

/-- The photo of the time fields a clip has. -/
def timingOf (clip : ClipDef) : ClipTiming where
  startSample := clip.startSample
  lengthSamples := clip.lengthSamples
  offsetSamples := clip.offsetSamples
  startTick := clip.startTick
  lengthTick := clip.lengthTick

/-- Present fields are written, absent ones removed. -/
def ClipDef.setTiming (c : ClipDef) (timing : ClipTiming) : ClipDef :=
  { c with
    startSample := timing.startSample.map (max 0)
    lengthSamples := timing.lengthSamples.map (max 0)
    offsetSamples := timing.offsetSamples.map (max 0)
    startTick := timing.startTick.map (max 0)
    lengthTick := timing.lengthTick.map (max 0) }

def setClipTiming (trackId clipId : String) (timing : ClipTiming) : Edit := fun d =>
  match d.findClip trackId clipId with
  | none => .ignored
  | some clip =>
      let bumped := if timing.startTick.isSome || timing.lengthTick.isSome then ensureV2 d else d
      .writes (.setClipTiming trackId clipId (timingOf clip))
        (bumped.updateClip trackId clipId fun c => c.setTiming timing)

/-- A musical clip moves in ticks. -/
def setClipStart (trackId clipId : String) (startSample : Int) : Edit := fun d =>
  match d.findClip trackId clipId with
  | none => .ignored
  | some clip =>
      if isMusicalClip clip then
        match sampleToTick d startSample with
        | .error message => .throws message
        | .ok tick =>
            setClipTiming trackId clipId
              { timingOf clip with startTick := some (clampTick tick) } d
      else
        .writes (.setClipStart trackId clipId (clip.startSample.getD 0))
          (d.updateClip trackId clipId fun c => { c with startSample := some (max 0 startSample) })

/-- The timing a trim gives to a musical clip. -/
def boundsTiming (d : ProjectDef) (clip : ClipDef) (bounds : ClipBounds) :
    Except String ClipTiming := do
  let tick ← sampleToTick d bounds.startSample
  let startTick := clampTick tick
  let timing :=
    { timingOf clip with
      startTick := some startTick
      offsetSamples := bounds.offsetSamples.map (max 0) }
  match clip.lengthTick with
  | some _ => do
      let stop ← sampleToTick d (plus bounds.startSample bounds.lengthSamples)
      return { timing with lengthTick := some (max 1 (clampTick stop - startTick)) }
  | none => return { timing with lengthSamples := some (max 1024 bounds.lengthSamples) }

/-- An undefined offset is no number; the field is left without one. -/
def setClipBounds (trackId clipId : String) (bounds : ClipBounds) : Edit := fun d =>
  match d.findClip trackId clipId with
  | none => .ignored
  | some clip =>
      if isMusicalClip clip then
        match boundsTiming d clip bounds with
        | .error message => .throws message
        | .ok timing => setClipTiming trackId clipId timing d
      else
        .writes
          (.setClipBounds trackId clipId
            { startSample := clip.startSample.getD 0
              lengthSamples := clip.lengthSamples.getD 0
              offsetSamples := clip.offsetSamples })
          (d.updateClip trackId clipId fun c =>
            { c with
              startSample := some (max 0 bounds.startSample)
              lengthSamples := some (max 1024 bounds.lengthSamples)
              offsetSamples := bounds.offsetSamples.map (max 0) })

/-- A fade is at most half of the clip it is written to. -/
def ClipDef.setFades (c : ClipDef) (fadeInSamples fadeOutSamples : Int) : ClipDef :=
  let half := c.lengthSamples.getD 0 / 2
  { c with
    fadeInSamples := some (max 0 (min half fadeInSamples))
    fadeOutSamples := some (max 0 (min half fadeOutSamples)) }

def setClipFades (trackId clipId : String) (fadeInSamples fadeOutSamples : Int) : Edit := fun d =>
  match d.findClip trackId clipId with
  | none => .ignored
  | some clip =>
      .writes
        (.setClipFades trackId clipId (clip.fadeInSamples.getD 0) (clip.fadeOutSamples.getD 0))
        (d.updateClip trackId clipId fun c => c.setFades fadeInSamples fadeOutSamples)

def deleteClip (trackId clipId : String) : Edit := fun d =>
  match d.findClip trackId clipId with
  | none => .ignored
  | some clip =>
      .writes (.addClip trackId clip)
        (d.updateTrack trackId fun t => { t with clips := t.clips.eraseP fun c => c.id == clipId })

def addClip (trackId : String) (clip : ClipDef) : Edit := fun d =>
  match d.findTrack trackId with
  | none => .ignored
  | some _ =>
      let bumped := if isMusicalClip clip then ensureV2 d else d
      .writes (.deleteClip trackId clip.id)
        (bumped.updateTrack trackId fun t => { t with clips := t.clips ++ [clip] })

/-- Only a clip that is a slot changes scene; an empty id is no scene. -/
def setClipScene (trackId clipId sceneId : String) : Edit := fun d =>
  match (d.findClip trackId clipId).bind ClipDef.sceneId with
  | none => .ignored
  | some before =>
      if before = "" ∨ before = sceneId then .ignored
      else
        .writes (.setClipScene trackId clipId before)
          (d.updateClip trackId clipId fun c => { c with sceneId := some sceneId })

end Clips

section Notes

/-- Two notes are the same one at a pitch and a start, the start of the domain
of the second. -/
def sameNote (note n : NoteDef) : Bool :=
  n.pitch == note.pitch &&
    (if note.startTick.isSome then n.startTick == note.startTick
      else n.startSample == note.startSample)

/-- Toggling a note is its own inverse. A note born without an id takes
`freshId`. -/
def toggleNote (freshId trackId clipId : String) (note : NoteDef) : Edit := fun d =>
  match d.findClip trackId clipId with
  | none => .ignored
  | some clip =>
      .writes (.toggleNote trackId clipId note)
        (if (clip.notes.getD []).any (sameNote note) then
          d.updateClip trackId clipId fun c =>
            { c with notes := some ((c.notes.getD []).eraseP (sameNote note)) }
        else
          (if note.startTick.isSome then ensureV2 d else d).updateClip trackId clipId fun c =>
            { c with
              notes := some (c.notes.getD [] ++ [{ note with id := some (note.id.getD freshId) }]) })

/-- The values a note has in the fields of a patch. -/
def NotePatch.before (patch : NotePatch) (n : NoteDef) : NotePatch where
  pitch := patch.pitch.map fun _ => n.pitch
  velocity := patch.velocity.map fun _ => n.velocity
  startSample := patch.startSample.bind fun _ => n.startSample
  lengthSamples := patch.lengthSamples.bind fun _ => n.lengthSamples
  startTick := patch.startTick.bind fun _ => n.startTick
  lengthTick := patch.lengthTick.bind fun _ => n.lengthTick

def NoteDef.applyPatch (n : NoteDef) (patch : NotePatch) : NoteDef :=
  { n with
    pitch := patch.pitch.getD n.pitch
    velocity := patch.velocity.getD n.velocity
    startSample := patch.startSample.or n.startSample
    lengthSamples := patch.lengthSamples.or n.lengthSamples
    startTick := patch.startTick.or n.startTick
    lengthTick := patch.lengthTick.or n.lengthTick }

def updateNote (trackId clipId noteId : String) (patch : NotePatch) : Edit := fun d =>
  match (d.findClip trackId clipId).bind fun c =>
      (c.notes.getD []).find? fun n => n.id == some noteId with
  | none => .ignored
  | some before =>
      .writes (.updateNote trackId clipId noteId (patch.before before))
        (d.updateClip trackId clipId fun c =>
          { c with
            notes := c.notes.map
              (updateFirst (fun n => n.id == some noteId) fun n => n.applyPatch patch) })

end Notes

section Scenes

def addScene (id name : String) : Edit := fun d =>
  .writes (.deleteScene id) { d with scenes := some (d.scenes.getD [] ++ [⟨id, name⟩]) }

def renameScene (sceneId name : String) : Edit := fun d =>
  let next := shownName name
  match d.findScene sceneId with
  | none => .ignored
  | some scene =>
      if next = "" ∨ next = scene.name then .ignored
      else
        .writes (.renameScene sceneId scene.name)
          { d with
            scenes := d.scenes.map
              (updateFirst (fun s => s.id == sceneId) fun s => { s with name := next }) }

/-- The slots of a scene, on all tracks. -/
def slotsOf (d : ProjectDef) (sceneId : String) : List PlacedClip :=
  d.tracks.flatMap fun t =>
    (t.clips.filter fun c => c.sceneId == some sceneId).map fun c => ⟨t.id, c⟩

def deleteScene (sceneId : String) : Edit := fun d =>
  match d.findScene sceneId with
  | none => .ignored
  | some scene =>
      .writes
        (.restoreScene scene ((d.scenes.getD []).findIdx fun s => s.id == sceneId)
          (slotsOf d sceneId))
        { d with
          tracks := d.tracks.map fun t =>
            { t with clips := t.clips.filter fun c => !(c.sceneId == some sceneId) }
          scenes := d.scenes.map (List.eraseP fun s => s.id == sceneId) }

/-- A slot goes back to its track unless a clip has its id. -/
def ProjectDef.placeBack (d : ProjectDef) (placed : PlacedClip) : ProjectDef :=
  d.updateTrack placed.trackId fun t =>
    if t.clips.any fun c => c.id == placed.clip.id then t
    else { t with clips := t.clips ++ [placed.clip] }

def restoreScene (scene : SceneDef) (index : Int) (clips : List PlacedClip) : Edit := fun d =>
  if (d.scenes.getD []).any fun s => s.id == scene.id then .ignored
  else
    .writes (.deleteScene scene.id)
      (clips.foldl ProjectDef.placeBack
        { d with scenes := some (insertAt index scene (d.scenes.getD [])) })

end Scenes

section Automation

def addAutomationLane (id : String) (trackId : Option String) (target : AutomationTarget) :
    Edit := fun d =>
  if trackId.isSome ∧ (trackId.bind d.findTrack).isNone then .ignored
  else
    .writes (.deleteAutomationLane trackId id)
      (d.ensureLanes trackId fun lanes => lanes ++ [{ id := id, target := target }])

def deleteAutomationLane (trackId : Option String) (laneId : String) : Edit := fun d =>
  match d.findLane trackId laneId with
  | none => .ignored
  | some lane =>
      .writes
        (.restoreAutomationLane trackId lane
          (((lanesIn d trackId).getD []).findIdx fun l => l.id == laneId))
        (d.updateLanes trackId (List.eraseP fun l => l.id == laneId))

def restoreAutomationLane (trackId : Option String) (lane : AutomationLaneDef) (index : Int) :
    Edit := fun d =>
  if trackId.isSome ∧ (trackId.bind d.findTrack).isNone then .ignored
  else if ((lanesIn d trackId).getD []).any fun l => l.id == lane.id then .ignored
  else
    .writes (.deleteAutomationLane trackId lane.id)
      (d.ensureLanes trackId (insertAt index lane))

def setAutomationLaneEnabled (trackId : Option String) (laneId : String) (enabled : Bool) :
    Edit := fun d =>
  match d.findLane trackId laneId with
  | none => .ignored
  | some lane =>
      .writes (.setAutomationLaneEnabled trackId laneId lane.enabled)
        (d.updateLane trackId laneId fun l => { l with enabled := enabled })

/-- The points of a lane are kept in order of `t`, equals in order of arrival. -/
def addAutomationPoint (trackId : Option String) (laneId : String) (t : Int) (v : ℚ) :
    Edit := fun d =>
  match d.findLane trackId laneId with
  | none => .ignored
  | some lane =>
      let point : AutomationPointDef := ⟨clampT t, clampV v⟩
      let at_ := (lane.points.filter fun p => decide (p.t ≤ point.t)).length
      .writes (.deleteAutomationPoint trackId laneId at_)
        (d.updateLane trackId laneId fun l => { l with points := l.points.insertIdx at_ point })

/-- A point that crosses no neighbour is rewritten in place; the inverse names
the index where the point ends. -/
def moveAutomationPoint (trackId : Option String) (laneId : String) (index t : Int) (v : ℚ) :
    Edit := fun d =>
  match d.findLane trackId laneId with
  | none => .ignored
  | some lane =>
      if index < 0 then .ignored
      else
        match lane.points[index.toNat]? with
        | none => .ignored
        | some old =>
            let point : AutomationPointDef := ⟨clampT t, clampV v⟩
            let newIndex :=
              ((lane.points.eraseIdx index.toNat).filter fun p => decide (p.t ≤ point.t)).length
            .writes (.moveAutomationPoint trackId laneId newIndex old.t old.v)
              (d.updateLane trackId laneId fun l =>
                { l with
                  points :=
                    if newIndex = index.toNat then l.points.set index.toNat point
                    else (l.points.eraseIdx index.toNat).insertIdx newIndex point })

def deleteAutomationPoint (trackId : Option String) (laneId : String) (index : Int) :
    Edit := fun d =>
  match d.findLane trackId laneId with
  | none => .ignored
  | some lane =>
      if index < 0 then .ignored
      else
        match lane.points[index.toNat]? with
        | none => .ignored
        | some p =>
            .writes (.addAutomationPoint trackId laneId p.t p.v)
              (d.updateLane trackId laneId fun l =>
                { l with points := l.points.eraseIdx index.toNat })

end Automation

end DawProject.Document
