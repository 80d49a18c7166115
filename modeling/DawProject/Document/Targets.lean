import Mathlib.Data.Set.Basic
import DawProject.Document.Calls

/-!
What a mutator writes, as a set of targets: a register, a field of an object,
or an object with everything in it. Two documents are the same within a set of
targets when they differ there only.
-/

namespace DawProject.Document

open Keyed

inductive TrackField where
  | gain
  | pan
  | order
  | name
deriving DecidableEq, Repr

/-- The five time fields of a clip are one, and so are its two fades. -/
inductive ClipField where
  | name
  | timing
  | fades
  | scene
deriving DecidableEq, Repr

inductive NoteField where
  | pitch
  | velocity
  | startSample
  | lengthSamples
  | startTick
  | lengthTick
deriving DecidableEq, Repr

/-- A `track`, `clip`, `processor`, `scene` or `lane` is the object with
everything in it; a scene holds its slots on every track. `noteAt` is the place
a toggled note has in its clip. The points of a lane are one target. -/
inductive Target where
  | masterGain
  | tempo
  | track (trackId : String)
  | trackField (trackId : String) (field : TrackField)
  | clip (trackId clipId : String)
  | clipField (trackId clipId : String) (field : ClipField)
  | noteAt (trackId clipId : String) (note : NoteDef)
  | noteField (trackId clipId noteId : String) (field : NoteField)
  | processor (trackId processorId : String)
  | bypass (trackId processorId : String)
  | param (trackId processorId key : String)
  | scene (sceneId : String)
  | sceneName (sceneId : String)
  | lane (trackId : Option String) (laneId : String)
  | laneEnabled (trackId : Option String) (laneId : String)
  | lanePoints (trackId : Option String) (laneId : String)
deriving DecidableEq, Repr

section Fields

/-- A number a note has in a field. -/
def NoteField.get (n : NoteDef) : NoteField → Option Int
  | .pitch => some n.pitch
  | .velocity => some n.velocity
  | .startSample => n.startSample
  | .lengthSamples => n.lengthSamples
  | .startTick => n.startTick
  | .lengthTick => n.lengthTick

def NoteField.inPatch (patch : NotePatch) : NoteField → Option Int
  | .pitch => patch.pitch
  | .velocity => patch.velocity
  | .startSample => patch.startSample
  | .lengthSamples => patch.lengthSamples
  | .startTick => patch.startTick
  | .lengthTick => patch.lengthTick

def NotePatch.fields (patch : NotePatch) : List NoteField :=
  [NoteField.pitch, .velocity, .startSample, .lengthSamples, .startTick, .lengthTick].filter
    fun field => (field.inPatch patch).isSome

end Fields

/-- What the call of the mutator named by an inverse writes. The clips that
`restoreScene` puts back are named one by one. -/
def InverseOp.targets : InverseOp → List Target
  | .setTrackGain trackId _ => [.trackField trackId .gain]
  | .setTrackPan trackId _ => [.trackField trackId .pan]
  | .setTrackOrder trackId _ => [.trackField trackId .order]
  | .clearTrackOrder trackId => [.trackField trackId .order]
  | .renameTrack trackId _ => [.trackField trackId .name]
  | .renameClip trackId clipId _ => [.clipField trackId clipId .name]
  | .setMasterGain _ => [.masterGain]
  | .setTempo _ => [.tempo]
  | .setProcessorBypass trackId processorId _ => [.bypass trackId processorId]
  | .setProcessorParam trackId processorId key _ => [.param trackId processorId key]
  | .removeProcessorParam trackId processorId key => [.param trackId processorId key]
  | .setClipStart trackId clipId _ => [.clipField trackId clipId .timing]
  | .setClipBounds trackId clipId _ => [.clipField trackId clipId .timing]
  | .setClipTiming trackId clipId _ => [.clipField trackId clipId .timing]
  | .setClipFades trackId clipId _ _ => [.clipField trackId clipId .fades]
  | .addClip trackId clip => [.clip trackId clip.id]
  | .deleteClip trackId clipId => [.clip trackId clipId]
  | .setClipScene trackId clipId _ => [.clipField trackId clipId .scene]
  | .addTrack track => [.track track.id]
  | .deleteTrack trackId => [.track trackId]
  | .addProcessor trackId proc _ => [.processor trackId proc.id]
  | .removeProcessor trackId processorId => [.processor trackId processorId]
  | .moveProcessor trackId processorId _ => [.processor trackId processorId]
  | .toggleNote trackId clipId note => [.noteAt trackId clipId note]
  | .updateNote trackId clipId noteId patch =>
      patch.fields.map (Target.noteField trackId clipId noteId)
  | .renameScene sceneId _ => [.sceneName sceneId]
  | .deleteScene sceneId => [.scene sceneId]
  | .restoreScene scene _ clips =>
      .scene scene.id :: clips.map fun placed => .clip placed.trackId placed.clip.id
  | .deleteAutomationLane trackId laneId => [.lane trackId laneId]
  | .restoreAutomationLane trackId lane _ => [.lane trackId lane.id]
  | .setAutomationLaneEnabled trackId laneId _ => [.laneEnabled trackId laneId]
  | .addAutomationPoint trackId laneId _ _ => [.lanePoints trackId laneId]
  | .moveAutomationPoint trackId laneId _ _ _ => [.lanePoints trackId laneId]
  | .deleteAutomationPoint trackId laneId _ => [.lanePoints trackId laneId]

section Within

-- What may be written.
variable (T : Set Target)

/-- A note that a target names, by its place or by its id. -/
def NoteTouched (trackId clipId : String) (n : NoteDef) : Prop :=
  (∃ note, Target.noteAt trackId clipId note ∈ T ∧ sameNote note n = true) ∨
    ∃ noteId field, Target.noteField trackId clipId noteId field ∈ T ∧ n.id = some noteId

/-- Where no note was toggled, a note has its other fields. -/
structure NotesWithin (trackId clipId : String) (notes notes' : List NoteDef) : Prop where
  others : ∀ q : NoteDef → Bool, (∀ n, q n = true → ¬NoteTouched T trackId clipId n) →
    notes'.filter q = notes.filter q
  fields : (∀ note, Target.noteAt trackId clipId note ∉ T) →
    Kept NoteDef.id
      (fun noteId n n' => ∀ field : NoteField,
        (∀ id, noteId = some id → Target.noteField trackId clipId id field ∉ T) →
          field.get n' = field.get n)
      (fun _ => False) notes notes'

structure ClipWithin (trackId clipId : String) (c c' : ClipDef) : Prop where
  assetHash : c'.assetHash = c.assetHash
  name : Target.clipField trackId clipId .name ∉ T → c'.name = c.name
  timing : Target.clipField trackId clipId .timing ∉ T → timingOf c' = timingOf c
  fades : Target.clipField trackId clipId .fades ∉ T →
    c'.fadeInSamples = c.fadeInSamples ∧ c'.fadeOutSamples = c.fadeOutSamples
  scene : Target.clipField trackId clipId .scene ∉ T → c'.sceneId = c.sceneId
  notes : NotesWithin T trackId clipId (c.notes.getD []) (c'.notes.getD [])

/-- A clip that is a target, or a slot of a scene that is one. -/
def ClipTouched (trackId : String) (clips : List ClipDef) (clipId : String) : Prop :=
  Target.clip trackId clipId ∈ T ∨
    ∃ sceneId, Target.scene sceneId ∈ T ∧
      (Target.clipField trackId clipId .scene ∈ T ∨
        ∃ c, find ClipDef.id clipId clips = some c ∧ c.sceneId = some sceneId)

structure ProcessorWithin (trackId processorId : String) (p p' : ProcessorDef) : Prop where
  rest : p' = { p with bypass := p'.bypass, params := p'.params }
  bypass : Target.bypass trackId processorId ∉ T → p'.bypass = p.bypass
  params : Kept ProcessorParam.key (fun _ x x' => x' = x)
    (fun key => Target.param trackId processorId key ∈ T) p.params p'.params

structure LaneWithin (trackId : Option String) (laneId : String) (l l' : AutomationLaneDef) :
    Prop where
  rest : l' = { l with enabled := l'.enabled, points := l'.points }
  enabled : Target.laneEnabled trackId laneId ∉ T → l'.enabled = l.enabled
  points : Target.lanePoints trackId laneId ∉ T → l'.points = l.points

def LanesWithin (trackId : Option String) (lanes lanes' : Option (List AutomationLaneDef)) :
    Prop :=
  Kept AutomationLaneDef.id (LaneWithin T trackId) (fun laneId => Target.lane trackId laneId ∈ T)
    (lanes.getD []) (lanes'.getD [])

structure TrackWithin (trackId : String) (t t' : TrackDef) : Prop where
  kind : t'.kind = t.kind
  gain : Target.trackField trackId .gain ∉ T → t'.gain = t.gain
  pan : Target.trackField trackId .pan ∉ T → t'.pan = t.pan
  order : Target.trackField trackId .order ∉ T → t'.order = t.order
  name : Target.trackField trackId .name ∉ T → t'.name = t.name
  clips : Kept ClipDef.id (ClipWithin T trackId) (ClipTouched T trackId t.clips) t.clips t'.clips
  chain : Kept ProcessorDef.id (ProcessorWithin T trackId)
    (fun processorId => Target.processor trackId processorId ∈ T) t.chain t'.chain
  automation : LanesWithin T (some trackId) t.automation t'.automation

/-- The second document is the first one but for the targets. Objects are found
by their ids, as the mutators find them; the version only grows. -/
structure Within (d d' : ProjectDef) : Prop where
  version : d.schemaVersion ≤ d'.schemaVersion
  sampleRate : d'.sampleRate = d.sampleRate
  tempoMap : d'.tempoMap = d.tempoMap
  masterGain : Target.masterGain ∉ T → d'.masterGain = d.masterGain
  tempo : Target.tempo ∉ T → d'.tempoMilliBpm = d.tempoMilliBpm
  tracks : Kept TrackDef.id (TrackWithin T) (fun trackId => Target.track trackId ∈ T)
    d.tracks d'.tracks
  scenes : Kept SceneDef.id (fun sceneId s s' => Target.sceneName sceneId ∉ T → s' = s)
    (fun sceneId => Target.scene sceneId ∈ T) (d.scenes.getD []) (d'.scenes.getD [])
  automation : LanesWithin T none d.automation d'.automation

end Within

section Preorder

variable {T : Set Target} {trackId clipId : String}

theorem NotesWithin.refl (notes : List NoteDef) : NotesWithin T trackId clipId notes notes where
  others _ _ := rfl
  fields _ := Kept.refl (fun _ _ _ _ => rfl) notes

theorem NotesWithin.trans {a b c : List NoteDef} (h : NotesWithin T trackId clipId a b)
    (h' : NotesWithin T trackId clipId b c) : NotesWithin T trackId clipId a c where
  others q hq := (h'.others q hq).trans (h.others q hq)
  fields hplaces := by
    apply (h.fields hplaces).trans _ (h'.fields hplaces)
    intro noteId n n' n'' hfirst hsecond field hfield
    exact (hsecond field hfield).trans (hfirst field hfield)

theorem ClipWithin.refl (c : ClipDef) : ClipWithin T trackId clipId c c where
  assetHash := rfl
  name _ := rfl
  timing _ := rfl
  fades _ := ⟨rfl, rfl⟩
  scene _ := rfl
  notes := .refl _

theorem ClipWithin.trans {a b c : ClipDef} (h : ClipWithin T trackId clipId a b)
    (h' : ClipWithin T trackId clipId b c) : ClipWithin T trackId clipId a c where
  assetHash := h'.assetHash.trans h.assetHash
  name hT := (h'.name hT).trans (h.name hT)
  timing hT := (h'.timing hT).trans (h.timing hT)
  fades hT := ⟨(h'.fades hT).1.trans (h.fades hT).1, (h'.fades hT).2.trans (h.fades hT).2⟩
  scene hT := (h'.scene hT).trans (h.scene hT)
  notes := h.notes.trans h'.notes

theorem ProcessorWithin.refl {processorId : String} (p : ProcessorDef) :
    ProcessorWithin T trackId processorId p p where
  rest := rfl
  bypass _ := rfl
  params := Kept.refl (R := fun _ x x' => x' = x) (fun _ _ => rfl) _

theorem ProcessorWithin.trans {processorId : String} {a b c : ProcessorDef}
    (h : ProcessorWithin T trackId processorId a b)
    (h' : ProcessorWithin T trackId processorId b c) :
    ProcessorWithin T trackId processorId a c where
  rest := by rw [h'.rest, h.rest]
  bypass hT := (h'.bypass hT).trans (h.bypass hT)
  params := h.params.trans (fun _ _ _ _ hfirst hsecond => hsecond.trans hfirst) h'.params

variable {scope : Option String}

theorem LaneWithin.refl {laneId : String} (l : AutomationLaneDef) :
    LaneWithin T scope laneId l l where
  rest := rfl
  enabled _ := rfl
  points _ := rfl

theorem LaneWithin.trans {laneId : String} {a b c : AutomationLaneDef}
    (h : LaneWithin T scope laneId a b) (h' : LaneWithin T scope laneId b c) :
    LaneWithin T scope laneId a c where
  rest := by rw [h'.rest, h.rest]
  enabled hT := (h'.enabled hT).trans (h.enabled hT)
  points hT := (h'.points hT).trans (h.points hT)

theorem LanesWithin.refl (lanes : Option (List AutomationLaneDef)) :
    LanesWithin T scope lanes lanes :=
  Kept.refl (fun _ => LaneWithin.refl) _

theorem LanesWithin.trans {a b c : Option (List AutomationLaneDef)}
    (h : LanesWithin T scope a b) (h' : LanesWithin T scope b c) : LanesWithin T scope a c :=
  Kept.trans (fun _ _ _ _ => LaneWithin.trans) h h'

theorem TrackWithin.refl (t : TrackDef) : TrackWithin T trackId t t where
  kind := rfl
  gain _ := rfl
  pan _ := rfl
  order _ := rfl
  name _ := rfl
  clips := Kept.refl (fun _ => ClipWithin.refl) _
  chain := Kept.refl (fun _ => ProcessorWithin.refl) _
  automation := .refl _

/-- A clip that was left is no more a slot than before. -/
theorem not_clipTouched {clips clips' : List ClipDef} (hclip : ¬ClipTouched T trackId clips clipId)
    (hleft : Option.Rel (ClipWithin T trackId clipId) (find ClipDef.id clipId clips)
      (find ClipDef.id clipId clips')) : ¬ClipTouched T trackId clips' clipId := by
  rintro (hT | ⟨sceneId, hscene, hfield | ⟨c', hfind', hslot⟩⟩)
  · exact hclip (Or.inl hT)
  · exact hclip (Or.inr ⟨sceneId, hscene, Or.inl hfield⟩)
  · by_cases hfield : Target.clipField trackId clipId .scene ∈ T
    · exact hclip (Or.inr ⟨sceneId, hscene, Or.inl hfield⟩)
    · rw [hfind'] at hleft
      cases hfind : find ClipDef.id clipId clips with
      | none =>
          rw [hfind] at hleft
          cases hleft
      | some c =>
          rw [hfind] at hleft
          cases hleft with
          | some hkept =>
              apply hclip
              exact Or.inr ⟨sceneId, hscene, Or.inr ⟨c, hfind, (hkept.scene hfield) ▸ hslot⟩⟩

theorem TrackWithin.trans {a b c : TrackDef} (h : TrackWithin T trackId a b)
    (h' : TrackWithin T trackId b c) : TrackWithin T trackId a c where
  kind := h'.kind.trans h.kind
  gain hT := (h'.gain hT).trans (h.gain hT)
  pan hT := (h'.pan hT).trans (h.pan hT)
  order hT := (h'.order hT).trans (h.order hT)
  name hT := (h'.name hT).trans (h.name hT)
  clips := h.clips.trans_of (fun _ _ _ _ => ClipWithin.trans)
    (fun _ hclip hleft => not_clipTouched hclip hleft) h'.clips
  chain := h.chain.trans (fun _ _ _ _ => ProcessorWithin.trans) h'.chain
  automation := h.automation.trans h'.automation

theorem Within.refl (d : ProjectDef) : Within T d d where
  version := le_refl _
  sampleRate := rfl
  tempoMap := rfl
  masterGain _ := rfl
  tempo _ := rfl
  tracks := Kept.refl (fun _ => TrackWithin.refl) _
  scenes := Kept.refl (fun _ _ _ => rfl) _
  automation := .refl _

theorem Within.trans {a b c : ProjectDef} (h : Within T a b) (h' : Within T b c) :
    Within T a c where
  version := h.version.trans h'.version
  sampleRate := h'.sampleRate.trans h.sampleRate
  tempoMap := h'.tempoMap.trans h.tempoMap
  masterGain hT := (h'.masterGain hT).trans (h.masterGain hT)
  tempo hT := (h'.tempo hT).trans (h.tempo hT)
  tracks := h.tracks.trans (fun _ _ _ _ => TrackWithin.trans) h'.tracks
  scenes := h.scenes.trans (fun _ _ _ _ hfirst hsecond hT => (hsecond hT).trans (hfirst hT))
    h'.scenes
  automation := h.automation.trans h'.automation

end Preorder

end DawProject.Document
