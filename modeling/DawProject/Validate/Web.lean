import DawProject.Lib.Walk
import DawProject.Engine.Store

/-!
The validator of the web, `web/src/document/validate.ts`, on the document as it
is stored: a field is absent, or a number, a text or a list. A comparison with
what is undefined is false. `shown` is the text of a number.
-/

namespace DawProject.Validate.Web

open DawProject.Engine (AmValue getDouble)
open Walk (walk checkId expect Fresh)

def SCHEMA_VERSION : Int := 2

variable (F : Type) {D : Type} [OfNat F 0] [OfNat F 1] [OrderedFloats F D] (shown : D → String)

section Numbers

/-- A number of the document, undefined where there is none. -/
def number (v : AmValue D) (key : String) : Option D := getDouble F v key

/-- `x >= k`. -/
def atLeast (k : Int) (x : Option D) : Bool :=
  x.any fun x => OrderedFloats.wideLe F (Floats.ofInt F k) x

/-- `x <= k`. -/
def atMost (k : Int) (x : Option D) : Bool :=
  x.any fun x => OrderedFloats.wideLe F x (Floats.ofInt F k)

/-- `x > k`. -/
def above (k : Int) (x : Option D) : Bool :=
  x.any fun x => OrderedFloats.wideLt F (Floats.ofInt F k) x

def shownValue (x : Option D) : String := (x.map shown).getD "undefined"

end Numbers

def isMusical (c : AmValue D) : Bool := (number F c "startTick").isSome

def idOf (v : AmValue D) : String := (v.getStr "id").getD ""

/-- The checks of a clip but for its id. -/
def clipFaults (cl : String) (c : AmValue D) : List String :=
  let lengthTick := number F c "lengthTick"
  let offsetSamples := number F c "offsetSamples"
  (if isMusical F c then
    expect (atLeast F 0 (number F c "startTick")) (cl ++ " : tick de depart negatif") ++
      expect (lengthTick.isNone || above F 0 lengthTick) (cl ++ " : longueur en ticks invalide")
  else
    expect (atLeast F 0 (number F c "startSample"))
      (cl ++ " : position de depart absente ou negative")) ++
  (if !isMusical F c || lengthTick.isNone then
    expect (above F 0 (number F c "lengthSamples")) (cl ++ " : longueur invalide")
  else []) ++
  expect (offsetSamples.isNone || atLeast F 0 offsetSamples) (cl ++ " : offset negatif")

/-- One turn over the clips of a track; the ids seen are those of all tracks. -/
def clipStep (label : String) (j : Nat) (clipIds : List String) (c : AmValue D) :
    List String × List String :=
  let cl := label ++ " clip " ++ (if idOf c = "" then toString (j + 1) else idOf c)
  let id := checkId "" (cl ++ " : id vide") (cl ++ " : id de clip en double") clipIds (idOf c)
  (id.1 ++ clipFaults F cl c, id.2)

def deviceFaults (label : String) (j : Nat) (p : AmValue D) : List String :=
  let shownId := if idOf p = "" then toString (j + 1) else idOf p
  expect (idOf p ≠ "") (label ++ " device " ++ toString (j + 1) ++ " : id vide") ++
    expect ((p.getStr "type").getD "" ≠ "") (label ++ " device " ++ shownId ++ " : type vide")

/-- The gain and the pan of a track. -/
def levelFaults (label : String) (t : AmValue D) : List String :=
  let gain := number F t "gain"
  let pan := number F t "pan"
  expect (atLeast F 0 gain && atMost F 2 gain)
      (label ++ " : gain " ++ shownValue shown gain ++ " hors [0, 2]") ++
    expect (pan.isNone || (atLeast F (-1) pan && atMost F 1 pan))
      (label ++ " : pan " ++ shownValue shown pan ++ " hors [-1, 1]")

/-- One turn over the tracks, with the ids of tracks and of clips seen. -/
def trackStep (i : Nat) (seen : List String × List String) (t : AmValue D) :
    List String × (List String × List String) :=
  let name := (t.getStr "name").getD ""
  let label := if name = "" then "piste " ++ toString (i + 1) else "« " ++ name ++ " »"
  let id := checkId "" (label ++ " : id vide")
    (label ++ " : id de piste en double (" ++ idOf t ++ ")") seen.1 (idOf t)
  let clips := walk (clipStep F label) 0 seen.2 (t.getItems "clips")
  let devices := ((t.getItems "chain").mapIdx fun j p => deviceFaults label j p).flatten
  (id.1 ++ levelFaults F shown label t ++ clips.1 ++ devices, (id.2, clips.2))

def versionFaults (doc : AmValue D) : List String :=
  let schemaVersion := number F doc "schemaVersion"
  expect (atLeast F 1 schemaVersion) "version de schema < 1" ++
    expect (!above F SCHEMA_VERSION schemaVersion)
      ("version de schema " ++ shownValue shown schemaVersion ++ " inconnue (max " ++
        toString SCHEMA_VERSION ++ ")")

/-- The faults of a document, none for a sound one. -/
def validateDocument (doc : AmValue D) : List String :=
  versionFaults F shown doc ++
    expect (above F 0 (number F doc "sampleRate")) "taux d'echantillonnage <= 0" ++
    match doc.get "tracks" with
    | some (.list tracks) => (walk (trackStep F shown) 0 ([], []) tracks).1
    | _ => ["pas de liste de pistes"]

section Sound

/-- What the web requires of a clip, its id apart. -/
structure SoundClip (c : AmValue D) : Prop where
  startTick : isMusical F c = true → atLeast F 0 (number F c "startTick") = true
  lengthTick : isMusical F c = true → (number F c "lengthTick").isSome = true →
    above F 0 (number F c "lengthTick") = true
  startSample : isMusical F c = false → atLeast F 0 (number F c "startSample") = true
  length : isMusical F c = false ∨ (number F c "lengthTick").isSome = false →
    above F 0 (number F c "lengthSamples") = true
  offset : (number F c "offsetSamples").isSome = true →
    atLeast F 0 (number F c "offsetSamples") = true

/-- What the web requires of a track, its id and its clips apart. -/
structure SoundTrack (t : AmValue D) : Prop where
  gain : atLeast F 0 (number F t "gain") = true ∧ atMost F 2 (number F t "gain") = true
  pan : (number F t "pan").isSome = true →
    atLeast F (-1) (number F t "pan") = true ∧ atMost F 1 (number F t "pan") = true
  devices : ∀ p ∈ t.getItems "chain", idOf p ≠ "" ∧ (p.getStr "type").getD "" ≠ ""

variable {F}

theorem clipFaults_eq_nil_iff {cl : String} {c : AmValue D} :
    clipFaults F cl c = [] ↔ SoundClip F c := by
  have hsound : SoundClip F c ↔
      (isMusical F c = true → atLeast F 0 (number F c "startTick") = true) ∧
      (isMusical F c = true → (number F c "lengthTick").isSome = true →
        above F 0 (number F c "lengthTick") = true) ∧
      (isMusical F c = false → atLeast F 0 (number F c "startSample") = true) ∧
      (isMusical F c = false ∨ (number F c "lengthTick").isSome = false →
        above F 0 (number F c "lengthSamples") = true) ∧
      ((number F c "offsetSamples").isSome = true →
        atLeast F 0 (number F c "offsetSamples") = true) :=
    ⟨fun ⟨a, b, c, d, e⟩ => ⟨a, b, c, d, e⟩, fun ⟨a, b, c, d, e⟩ => ⟨a, b, c, d, e⟩⟩
  rw [hsound, clipFaults]
  cases hmusical : isMusical F c <;> cases hlength : number F c "lengthTick" <;>
    cases hoffset : number F c "offsetSamples" <;> simp

theorem deviceFaults_eq_nil_iff (label : String) (j : Nat) (p : AmValue D) :
    deviceFaults label j p = [] ↔ idOf p ≠ "" ∧ (p.getStr "type").getD "" ≠ "" := by
  simp [deviceFaults]

theorem levelFaults_eq_nil_iff {label : String} {t : AmValue D} :
    levelFaults F shown label t = [] ↔
      (atLeast F 0 (number F t "gain") = true ∧ atMost F 2 (number F t "gain") = true) ∧
        ((number F t "pan").isSome = true →
          atLeast F (-1) (number F t "pan") = true ∧ atMost F 1 (number F t "pan") = true) := by
  rw [levelFaults]
  cases hpan : number F t "pan" <;> simp

theorem clipStep_eq_nil_iff (label : String) (j : Nat) (clipIds : List String) (c : AmValue D) :
    (clipStep F label j clipIds c).1 = [] ↔
      (idOf c ≠ "" ∧ idOf c ∉ clipIds) ∧ SoundClip F c := by
  rw [clipStep, List.append_eq_nil_iff, Walk.checkId_eq_nil_iff, clipFaults_eq_nil_iff]

theorem clipStep_state (label : String) (j : Nat) (clipIds : List String) (c : AmValue D)
    (hnone : (clipStep F label j clipIds c).1 = []) :
    (clipStep F label j clipIds c).2 = idOf c :: clipIds := by
  rw [clipStep, List.append_eq_nil_iff] at hnone
  exact Walk.checkId_seen hnone.1

theorem walk_clips_eq_nil_iff {label : String} {clipIds : List String} {clips : List (AmValue D)} :
    (walk (clipStep F label) 0 clipIds clips).1 = [] ↔
      Fresh "" clipIds (clips.map idOf) ∧ ∀ c ∈ clips, SoundClip F c := by
  rw [Walk.walk_eq_nil_iff (clipStep_eq_nil_iff label) (clipStep_state label),
    Walk.accepted_iff_fresh]

theorem walk_clips_state {label : String} {clipIds : List String} {clips : List (AmValue D)}
    (hnone : (walk (clipStep F label) 0 clipIds clips).1 = []) :
    (walk (clipStep F label) 0 clipIds clips).2 =
      (clips.map idOf).foldl (fun seen id => id :: seen) clipIds := by
  rw [Walk.walk_state (clipStep_state label) hnone, List.foldl_map]

theorem trackStep_eq_nil_iff (i : Nat) (seen : List String × List String) (t : AmValue D) :
    (trackStep F shown i seen t).1 = [] ↔
      (idOf t ≠ "" ∧ idOf t ∉ seen.1) ∧ SoundTrack F t ∧
        Fresh "" seen.2 ((t.getItems "clips").map idOf) ∧
          ∀ c ∈ t.getItems "clips", SoundClip F c := by
  have hsound : SoundTrack F t ↔
      ((atLeast F 0 (number F t "gain") = true ∧ atMost F 2 (number F t "gain") = true) ∧
        ((number F t "pan").isSome = true →
          atLeast F (-1) (number F t "pan") = true ∧ atMost F 1 (number F t "pan") = true)) ∧
      ∀ p ∈ t.getItems "chain", idOf p ≠ "" ∧ (p.getStr "type").getD "" ≠ "" :=
    ⟨fun ⟨a, b, c⟩ => ⟨⟨a, b⟩, c⟩, fun ⟨⟨a, b⟩, c⟩ => ⟨a, b, c⟩⟩
  rw [trackStep, List.append_eq_nil_iff, List.append_eq_nil_iff, List.append_eq_nil_iff,
    Walk.checkId_eq_nil_iff, levelFaults_eq_nil_iff, walk_clips_eq_nil_iff,
    Walk.flatten_mapIdx_eq_nil_iff (deviceFaults_eq_nil_iff _), hsound]
  tauto

theorem trackStep_state (i : Nat) (seen : List String × List String) (t : AmValue D)
    (hnone : (trackStep F shown i seen t).1 = []) :
    (trackStep F shown i seen t).2 = (idOf t :: seen.1,
      ((t.getItems "clips").map idOf).foldl (fun seen id => id :: seen) seen.2) := by
  rw [trackStep, List.append_eq_nil_iff, List.append_eq_nil_iff, List.append_eq_nil_iff] at hnone
  exact Prod.ext (Walk.checkId_seen hnone.1.1.1) (walk_clips_state hnone.1.2)

/-- The web finds no fault in a document when every field is sound, and no id is
empty or comes twice. -/
theorem validateDocument_eq_nil_iff {doc : AmValue D} :
    validateDocument F shown doc = [] ↔
      (atLeast F 1 (number F doc "schemaVersion") = true ∧
        above F 2 (number F doc "schemaVersion") = false) ∧
      above F 0 (number F doc "sampleRate") = true ∧
      ∃ tracks, doc.get "tracks" = some (.list tracks) ∧
        Fresh "" [] (tracks.map idOf) ∧
        Fresh "" [] (tracks.flatMap fun t => (t.getItems "clips").map idOf) ∧
        ∀ t ∈ tracks, SoundTrack F t ∧ ∀ c ∈ t.getItems "clips", SoundClip F c := by
  have hversion : versionFaults F shown doc = [] ↔
      atLeast F 1 (number F doc "schemaVersion") = true ∧
        above F 2 (number F doc "schemaVersion") = false := by
    simp [versionFaults, SCHEMA_VERSION]
  have htracks : (match doc.get "tracks" with
      | some (.list tracks) => (walk (trackStep F shown) 0 ([], []) tracks).1
      | _ => ["pas de liste de pistes"]) = [] ↔
      ∃ tracks, doc.get "tracks" = some (.list tracks) ∧
        Fresh "" [] (tracks.map idOf) ∧
        Fresh "" [] (tracks.flatMap fun t => (t.getItems "clips").map idOf) ∧
        ∀ t ∈ tracks, SoundTrack F t ∧ ∀ c ∈ t.getItems "clips", SoundClip F c := by
    split
    · rename_i tracks hget
      rw [Walk.walk_eq_nil_iff (trackStep_eq_nil_iff shown) (trackStep_state shown),
        Walk.accepted_iff_fresh_parts, hget]
      constructor
      · exact fun hall => ⟨tracks, rfl, hall⟩
      · rintro ⟨others, heq, hall⟩
        cases heq
        exact hall
    · rename_i hother
      refine iff_of_false nofun ?_
      rintro ⟨tracks, hget, -⟩
      exact hother tracks hget
  rw [validateDocument, List.append_eq_nil_iff, List.append_eq_nil_iff, hversion, htracks,
    Walk.expect_eq_nil_iff, and_assoc]

end Sound

end DawProject.Validate.Web
