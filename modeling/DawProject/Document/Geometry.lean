import DawProject.Document.Schema

/-!
Positions and lengths in samples, `web/src/document/geometry.ts`. A musical
clip is resolved through the tempo kernel, which throws on a map that goes
back in time; sums and differences are those of doubles.
-/

namespace DawProject.Document

open Tempo (TempoPoint)

structure Resolver where
  map : List TempoPoint
  S : List Int
  sr : Int

/-- The table of a document. The code keeps it by the identity of the
document, which changes with every edit. -/
def resolverFor (doc : ProjectDef) : Except String Resolver := do
  let map := effectiveTempoMap doc
  let S ← Tempo.Web.buildBoundaryTable map doc.sampleRate
  return ⟨map, S, doc.sampleRate⟩

def Resolver.at_ (r : Resolver) (tick : Int) : Except String Int :=
  Tempo.Web.samplesAtTick r.map r.S r.sr tick

/-- The sum and the difference of two numbers. -/
def plus (a b : Int) : Int := Binary64.ofInt (a + b)

def minus (a b : Int) : Int := Binary64.ofInt (a - b)

def clipStartSamples (clip : ClipDef) (doc : ProjectDef) : Except String Int :=
  match clip.startTick with
  | some startTick => do
      let r ← resolverFor doc
      r.at_ startTick
  | none => .ok (clip.startSample.getD 0)

def clipLengthSamples (clip : ClipDef) (doc : ProjectDef) : Except String Int :=
  match clip.startTick, clip.lengthTick with
  | some startTick, some lengthTick => do
      let r ← resolverFor doc
      let stop ← r.at_ (plus startTick lengthTick)
      let start ← r.at_ startTick
      return minus stop start
  | _, _ => .ok (clip.lengthSamples.getD 0)

/-- The domain of the clip governs its notes. -/
def noteStartSamples (note : NoteDef) (clip : ClipDef) (doc : ProjectDef) : Except String Int :=
  match clip.startTick, note.startTick with
  | some startTick, some noteTick => do
      let r ← resolverFor doc
      let abs ← r.at_ (plus startTick noteTick)
      let start ← r.at_ startTick
      return minus abs start
  | _, _ => .ok (note.startSample.getD 0)

def noteLengthSamples (note : NoteDef) (clip : ClipDef) (doc : ProjectDef) : Except String Int :=
  match clip.startTick, note.startTick, note.lengthTick with
  | some startTick, some noteTick, some lengthTick => do
      let r ← resolverFor doc
      let abs := plus startTick noteTick
      let stop ← r.at_ (plus abs lengthTick)
      let start ← r.at_ abs
      return minus stop start
  | _, _, _ => .ok (note.lengthSamples.getD 0)

/-- The tick of a gesture's target, by the same table. -/
def sampleToTick (doc : ProjectDef) (sample : Int) : Except String Int := do
  let r ← resolverFor doc
  Tempo.Web.tickAtSample r.map r.S r.sr sample

end DawProject.Document
