import DawProject.Lib.Mapped
import DawProject.Validate.Engine
import DawProject.Validate.Web

/-!
The faults of a document that both validators name, that the web alone names
and that the engine alone names. The source calls the validators twins. They
agree on ids and devices; a number may pass one of them alone, because the
engine replaces what it does not read by a default, reads a version and a rate
modulo 2^32, rounds a gain before it is compared, takes a tick of -1 for an
absent one, and places no tick of a document of version 1.
-/

namespace DawProject.Validate

open DawProject.Engine (AmValue ClipDef TrackDef ProjectDef getDocument readTrack readClip
  readProcessor getUint32 itemToUint getDouble renderedProject resolveTrack resolveClip)
open Floats
open Web (number atLeast atMost above isMusical idOf)
open DawProject.Validate.Engine (outside)
open Walk (Fresh)

section Typed

variable {D : Type}

def isNumber : AmValue D → Bool
  | .int _ | .uint _ | .f64 _ => true
  | _ => false

def isText : AmValue D → Bool
  | .str _ => true
  | _ => false

def isListOf (p : AmValue D → Bool) : AmValue D → Bool
  | .list items => items.all p
  | _ => false

/-- A field is absent or of its type. -/
def hasField (p : AmValue D → Bool) (key : String) (v : AmValue D) : Bool :=
  ((v.get key).map p).getD true

def isDevice (v : AmValue D) : Bool :=
  v.isMap && hasField isText "id" v && hasField isText "type" v

def isClip (v : AmValue D) : Bool :=
  v.isMap && hasField isText "id" v &&
    ["startTick", "lengthTick", "startSample", "lengthSamples", "offsetSamples"].all fun key =>
      hasField isNumber key v

def isTrack (v : AmValue D) : Bool :=
  v.isMap && hasField isText "id" v && hasField isText "name" v && hasField isNumber "gain" v &&
    hasField isNumber "pan" v && hasField (isListOf isClip) "clips" v &&
    hasField (isListOf isDevice) "chain" v

def isDocument (v : AmValue D) : Bool :=
  v.isMap && hasField isNumber "schemaVersion" v && hasField isNumber "sampleRate" v &&
    hasField (isListOf isTrack) "tracks" v

/-- A document whose fields have the types of the schema. Any field may be
absent, and a number may be stored as any kind of number. -/
structure DocValue (D : Type) where
  tree : AmValue D
  typed : isDocument tree = true

theorem number_cases {key : String} {v : AmValue D} (htyped : hasField isNumber key v = true) :
    v.get key = none ∨ (∃ i, v.get key = some (.int i)) ∨ (∃ n, v.get key = some (.uint n)) ∨
      ∃ x, v.get key = some (.f64 x) := by
  rw [hasField] at htyped
  cases hget : v.get key with
  | none => exact Or.inl rfl
  | some value =>
      rw [hget] at htyped
      cases value with
      | int i => exact Or.inr (Or.inl ⟨i, rfl⟩)
      | uint n => exact Or.inr (Or.inr (Or.inl ⟨n, rfl⟩))
      | f64 x => exact Or.inr (Or.inr (Or.inr ⟨x, rfl⟩))
      | _ => cases htyped

theorem mem_items_typed {p : AmValue D → Bool} {key : String} {v item : AmValue D}
    (htyped : hasField (isListOf p) key v = true) (hitem : item ∈ v.getItems key) :
    p item = true := by
  rw [hasField] at htyped
  rw [AmValue.getItems] at hitem
  cases hget : v.get key with
  | none =>
      rw [hget] at hitem
      cases hitem
  | some value =>
      rw [hget] at htyped hitem
      cases value with
      | list items => exact List.all_eq_true.mp htyped item hitem
      | _ => cases hitem

end Typed

section Kinds

variable (F : Type) {D : Type} [OfNat F 0] [OfNat F 1] [OrderedFloats F D]

/-- The engine reads a version of 0, or above 2. -/
def VersionShared (doc : AmValue D) : Prop :=
  (getUint32 doc "schemaVersion").getD 1 = 0 ∨ 2 < (getUint32 doc "schemaVersion").getD 1

/-- A version that the engine reads as 1 or 2: it reads 1 where there is none,
and from what is not an integer from 0 on. -/
def VersionWebOnly (doc : AmValue D) : Prop :=
  match doc.get "schemaVersion" with
  | none => True
  | some (.int i) => i < 0 ∨ (2 < i ∧ (i % 4294967296 = 1 ∨ i % 4294967296 = 2))
  | some (.uint n) => 2 < n ∧ (n % 4294967296 = 1 ∨ n % 4294967296 = 2)
  | some (.f64 x) =>
      OrderedFloats.wideLe F (ofInt F 1) x = false ∨ OrderedFloats.wideLt F (ofInt F 2) x = true
  | some _ => False

def RateShared (doc : AmValue D) : Prop :=
  match doc.get "sampleRate" with
  | some (.int i) => i = 0
  | some (.uint n) => n = 0
  | _ => False

/-- The engine reads 48000 from it. -/
def RateWebOnly (doc : AmValue D) : Prop :=
  match doc.get "sampleRate" with
  | none => True
  | some (.int i) => i < 0
  | some (.f64 x) => OrderedFloats.wideLt F (ofInt F 0) x = false
  | _ => False

/-- A rate that is 0 modulo 2^32. -/
def RateEngineOnly (doc : AmValue D) : Prop :=
  match doc.get "sampleRate" with
  | some (.int i) => 0 < i ∧ i % 4294967296 = 0
  | some (.uint n) => 0 < n ∧ n % 4294967296 = 0
  | _ => False

/-- A gain or a pan that is out of its bounds once it is rounded. -/
def LevelShared (lo hi : Int) (key : String) (t : AmValue D) : Prop :=
  ∃ x, number F t key = some x ∧ outside lo hi (narrow x : F) = true

/-- One that is not within its bounds as it is stored, but once it is rounded. -/
def LevelWebOnly (lo hi : Int) (key : String) (t : AmValue D) : Prop :=
  ∃ x, number F t key = some x ∧
    (OrderedFloats.wideLe F (ofInt F lo) x && OrderedFloats.wideLe F x (ofInt F hi)) = false ∧
      outside lo hi (narrow x : F) = false

inductive ClipShared (c : AmValue D) : Prop
  | start_tick (h : (readClip c).start_tick < -1)
  | length_tick (hmusical : isMusical F c = true)
      (h : (readClip c).length_tick < -1 ∨ (readClip c).length_tick = 0)
  | start_sample (hmusical : isMusical F c = false) (h : (readClip c).start_sample < 0)
  | length (hsamples : isMusical F c = false ∨ (number F c "lengthTick").isSome = false)
      (h : above F 0 (number F c "lengthSamples") = false)
  | offset (h : (readClip c).offset_samples < 0)

/-- The engine reads an absent tick, or a position of 0, from it. -/
inductive ClipWebOnly (c : AmValue D) : Prop
  | start_tick (hmusical : isMusical F c = true)
      (h : atLeast F 0 (number F c "startTick") = false) (hread : (readClip c).start_tick = -1)
  | length_tick (hmusical : isMusical F c = true) (hlength : (number F c "lengthTick").isSome = true)
      (h : above F 0 (number F c "lengthTick") = false) (hread : (readClip c).length_tick = -1)
  | start_sample (hmusical : isMusical F c = false)
      (h : atLeast F 0 (number F c "startSample") = false)
      (hread : 0 ≤ (readClip c).start_sample)
  | offset (hoffset : (number F c "offsetSamples").isSome = true)
      (h : atLeast F 0 (number F c "offsetSamples") = false)
      (hread : 0 ≤ (readClip c).offset_samples)

/-- The position of a tick, when the engine places ticks: not in version 1. -/
def placing (doc : ProjectDef F) : Option (Int → Option Int) :=
  if doc.schema_version < 2 then none
  else
    let map := Tempo.Engine.effectiveMap doc.tempo doc.tempo_map
    let sr : Int := doc.sample_rate
    (Tempo.Engine.buildBoundaryTable map sr).map fun S => Tempo.Engine.samplesAtTick map S sr

/-- A clip whose start is placed. -/
def Placed (place : Option (Int → Option Int)) (c : AmValue D) : Prop :=
  place.isSome = true ∧ 0 ≤ (readClip c).start_tick

/-- What the web does not look at: a length in ticks outside the musical clips,
the samples of a musical clip that the engine does not place, and what the ticks
of one that it places come to. -/
inductive ClipEngineOnly (place : Option (Int → Option Int)) (c : AmValue D) : Prop
  | length_tick (hmusical : isMusical F c = false)
      (h : (readClip c).length_tick < -1 ∨ (readClip c).length_tick = 0)
  | start_sample (hmusical : isMusical F c = true) (hplaced : ¬Placed place c)
      (h : (readClip c).start_sample < 0)
  | start (at_ : Int → Option Int) (cs : Int) (hplace : place = some at_)
      (hstart : 0 ≤ (readClip c).start_tick) (hcs : at_ (readClip c).start_tick = some cs)
      (h : cs < 0)
  | span (at_ : Int → Option Int) (cs stop : Int) (hplace : place = some at_)
      (hstart : 0 ≤ (readClip c).start_tick) (hlength : 0 < (readClip c).length_tick)
      (hcs : at_ (readClip c).start_tick = some cs)
      (hstop : at_ ((readClip c).start_tick + (readClip c).length_tick) = some stop)
      (h : stop ≤ cs)
  | length (hplaced : ¬(Placed place c ∧ 0 ≤ (readClip c).length_tick))
      (hread : (readClip c).length_samples ≤ 0)
      (h : (isMusical F c = true ∧ (number F c "lengthTick").isSome = true) ∨
        above F 0 (number F c "lengthSamples") = true)

/-- A fault that both validators name. -/
inductive SharedFault (doc : AmValue D) : Prop
  | version (h : VersionShared doc)
  | rate (h : RateShared doc)
  | trackIds (h : ¬Fresh "" [] ((doc.getItems "tracks").map idOf))
  | clipIds (h : ¬Fresh "" []
      ((doc.getItems "tracks").flatMap fun t => (t.getItems "clips").map idOf))
  | gain (t : AmValue D) (ht : t ∈ doc.getItems "tracks") (h : LevelShared F 0 2 "gain" t)
  | pan (t : AmValue D) (ht : t ∈ doc.getItems "tracks") (h : LevelShared F (-1) 1 "pan" t)
  | device (t p : AmValue D) (ht : t ∈ doc.getItems "tracks") (hp : p ∈ t.getItems "chain")
      (h : idOf p = "" ∨ (p.getStr "type").getD "" = "")
  | clip (t c : AmValue D) (ht : t ∈ doc.getItems "tracks") (hc : c ∈ t.getItems "clips")
      (h : ClipShared F c)

/-- A fault that the web alone names. -/
inductive WebOnly (doc : AmValue D) : Prop
  | version (h : VersionWebOnly F doc)
  | rate (h : RateWebOnly F doc)
  | noTracks (h : doc.get "tracks" = none)
  | noGain (t : AmValue D) (ht : t ∈ doc.getItems "tracks") (h : number F t "gain" = none)
  | gain (t : AmValue D) (ht : t ∈ doc.getItems "tracks") (h : LevelWebOnly F 0 2 "gain" t)
  | pan (t : AmValue D) (ht : t ∈ doc.getItems "tracks") (h : LevelWebOnly F (-1) 1 "pan" t)
  | clip (t c : AmValue D) (ht : t ∈ doc.getItems "tracks") (hc : c ∈ t.getItems "clips")
      (h : ClipWebOnly F c)

/-- A fault that the engine alone names, or positions that leave its integers. -/
inductive EngineOnly (doc : AmValue D) : Prop
  | rate (h : RateEngineOnly doc)
  | undefined (h : (renderedProject doc : Option (ProjectDef F)) = none)
  | clip (t c : AmValue D) (ht : t ∈ doc.getItems "tracks") (hc : c ∈ t.getItems "clips")
      (h : ClipEngineOnly F (placing F (getDocument doc)) c)

end Kinds

section Fields

variable {F D : Type} [OfNat F 0] [OfNat F 1] [OrderedFloats F D] {v doc t c : AmValue D}
  {key : String}

theorem number_of_getInt {i : Int} (hget : v.getInt key = some i) :
    number F v key = some (ofInt F i) := by
  obtain ⟨value, hvalue, hint⟩ := Option.bind_eq_some_iff.mp hget
  cases value with
  | int j =>
      cases hint
      rw [number, getDouble, hvalue]
      rfl
  | _ => cases hint

theorem atLeast_of_getInt {i : Int} (hget : v.getInt key = some i) :
    atLeast F 0 (number F v key) = decide (0 ≤ i) := by
  rw [number_of_getInt hget]
  exact OrderedFloats.ofInt_le_ofInt 0 i (by decide)

theorem above_of_getInt {i : Int} (hget : v.getInt key = some i) :
    above F 0 (number F v key) = decide (0 < i) := by
  rw [number_of_getInt hget]
  exact OrderedFloats.ofInt_lt_ofInt 0 i (by decide)

theorem version_web_iff (htyped : hasField isNumber "schemaVersion" doc = true) :
    (atLeast F 1 (number F doc "schemaVersion") = true ∧
        above F 2 (number F doc "schemaVersion") = false) ↔
      ¬VersionShared doc ∧ ¬VersionWebOnly F doc := by
  have hat : ∀ i : Int, OrderedFloats.wideLe F (ofInt F 1) (ofInt F i) = decide (1 ≤ i) :=
    fun i => OrderedFloats.ofInt_le_ofInt 1 i (by decide)
  have habove : ∀ i : Int, OrderedFloats.wideLt F (ofInt F 2) (ofInt F i) = decide (2 < i) :=
    fun i => OrderedFloats.ofInt_lt_ofInt 2 i (by decide)
  rw [VersionShared, VersionWebOnly, number, getDouble, getUint32]
  obtain hget | ⟨i, hget⟩ | ⟨n, hget⟩ | ⟨x, hget⟩ := number_cases htyped
  · simp [hget, atLeast]
  · rw [hget]
    simp only [Option.bind_some, DawProject.Engine.itemToDouble, itemToUint, atLeast, above,
      Option.any_some, hat, habove, decide_eq_true_eq, decide_eq_false_iff_not]
    split
    · simp only [Option.map_some, Option.getD_some]
      omega
    · simp only [Option.map_none, Option.getD_none]
      omega
  · rw [hget]
    simp only [Option.bind_some, DawProject.Engine.itemToDouble, itemToUint, atLeast, above,
      Option.any_some, hat, habove, decide_eq_true_eq, decide_eq_false_iff_not, Option.map_some,
      Option.getD_some]
    omega
  · rw [hget]
    simp [DawProject.Engine.itemToDouble, itemToUint, atLeast, above]

theorem version_engine_iff :
    ((getDocument doc : ProjectDef F).schema_version ≠ 0 ∧
        (getDocument doc : ProjectDef F).schema_version ≤ 2) ↔ ¬VersionShared doc := by
  rw [VersionShared, not_or, not_lt]
  rfl

theorem rate_web_iff (htyped : hasField isNumber "sampleRate" doc = true) :
    above F 0 (number F doc "sampleRate") = true ↔ ¬RateShared doc ∧ ¬RateWebOnly F doc := by
  have habove : ∀ i : Int, OrderedFloats.wideLt F (ofInt F 0) (ofInt F i) = decide (0 < i) :=
    fun i => OrderedFloats.ofInt_lt_ofInt 0 i (by decide)
  rw [RateShared, RateWebOnly, number, getDouble]
  obtain hget | ⟨i, hget⟩ | ⟨n, hget⟩ | ⟨x, hget⟩ := number_cases htyped
  · simp [hget, above]
  · rw [hget]
    simp only [Option.bind_some, DawProject.Engine.itemToDouble, above, Option.any_some, habove,
      decide_eq_true_eq]
    omega
  · rw [hget]
    simp only [Option.bind_some, DawProject.Engine.itemToDouble, above, Option.any_some, habove,
      decide_eq_true_eq, not_false_eq_true, and_true]
    omega
  · rw [hget]
    simp [DawProject.Engine.itemToDouble, above]

theorem rate_engine_iff (htyped : hasField isNumber "sampleRate" doc = true) :
    (getDocument doc : ProjectDef F).sample_rate ≠ 0 ↔ ¬RateShared doc ∧ ¬RateEngineOnly doc := by
  have hrate : (getDocument doc : ProjectDef F).sample_rate =
      (getUint32 doc "sampleRate").getD 48000 := rfl
  rw [hrate, RateShared, RateEngineOnly, getUint32]
  obtain hget | ⟨i, hget⟩ | ⟨n, hget⟩ | ⟨x, hget⟩ := number_cases htyped
  · simp [hget]
  · rw [hget]
    simp only [Option.bind_some, itemToUint]
    split
    · simp only [Option.map_some, Option.getD_some]
      omega
    · simp only [Option.map_none, Option.getD_none]
      omega
  · rw [hget]
    simp only [Option.bind_some, itemToUint, Option.map_some, Option.getD_some]
    omega
  · rw [hget]
    simp [itemToUint]

/-- Rounding does not carry a level out of its bounds. -/
theorem outside_narrow {lo hi : Int} (hlo : lo.natAbs ≤ 2) (hhi : hi.natAbs ≤ 2) {x : D}
    (hout : outside lo hi (narrow x : F) = true) :
    (OrderedFloats.wideLe F (ofInt F lo) x && OrderedFloats.wideLe F x (ofInt F hi)) = false := by
  rw [outside, Bool.or_eq_true] at hout
  rw [Bool.and_eq_false_iff]
  rcases hout with hlow | hhigh
  · exact Or.inl (OrderedFloats.narrow_lt lo x hlo hlow)
  · exact Or.inr (OrderedFloats.lt_narrow hi x hhi hhigh)

theorem level_web_iff {lo hi : Int} (hlo : lo.natAbs ≤ 2) (hhi : hi.natAbs ≤ 2) {x : D}
    (hx : number F t key = some x) :
    (atLeast F lo (number F t key) = true ∧ atMost F hi (number F t key) = true) ↔
      ¬LevelShared F lo hi key t ∧ ¬LevelWebOnly F lo hi key t := by
  have hkinds : LevelShared F lo hi key t ∨ LevelWebOnly F lo hi key t ↔
      (OrderedFloats.wideLe F (ofInt F lo) x && OrderedFloats.wideLe F x (ofInt F hi)) = false := by
    constructor
    · rintro (⟨y, hy, hout⟩ | ⟨y, hy, hwide, -⟩)
      · cases hx.symm.trans hy
        exact outside_narrow hlo hhi hout
      · cases hx.symm.trans hy
        exact hwide
    · intro hwide
      cases hout : outside lo hi (narrow x : F) with
      | true => exact Or.inl ⟨x, hx, hout⟩
      | false => exact Or.inr ⟨x, hx, hwide, hout⟩
  rw [← not_or, hkinds, hx]
  simp [atLeast, atMost]

theorem gain_web_iff :
    (atLeast F 0 (number F t "gain") = true ∧ atMost F 2 (number F t "gain") = true) ↔
      ¬LevelShared F 0 2 "gain" t ∧ number F t "gain" ≠ none ∧ ¬LevelWebOnly F 0 2 "gain" t := by
  cases hgain : number F t "gain" with
  | none => simp [atLeast]
  | some x =>
      rw [← hgain, level_web_iff (by decide) (by decide) hgain, hgain]
      simp

theorem pan_web_iff :
    ((number F t "pan").isSome = true →
        atLeast F (-1) (number F t "pan") = true ∧ atMost F 1 (number F t "pan") = true) ↔
      ¬LevelShared F (-1) 1 "pan" t ∧ ¬LevelWebOnly F (-1) 1 "pan" t := by
  cases hpan : number F t "pan" with
  | none =>
      have hnone : ¬LevelShared F (-1) 1 "pan" t ∧ ¬LevelWebOnly F (-1) 1 "pan" t := by
        constructor <;> rintro ⟨x, hx, -⟩ <;> cases hpan.symm.trans hx
      exact iff_of_true nofun hnone
  | some x =>
      rw [← hpan, level_web_iff (by decide) (by decide) hpan, hpan]
      simp

/-- A constant of the source is not out of bounds that hold for it. -/
theorem outside_lit {lo hi k : Int} (hlo : lo.natAbs ≤ 2) (hhi : hi.natAbs ≤ 2)
    (hk : k.natAbs ≤ 2) (hin : lo ≤ k ∧ k ≤ hi) :
    outside lo hi (narrow (ofInt F k) : F) = false := by
  by_contra hout
  rw [Bool.not_eq_false] at hout
  have hwide := outside_narrow hlo hhi hout
  rw [OrderedFloats.ofInt_le_ofInt lo k hlo, OrderedFloats.ofInt_le_ofInt k hi hk] at hwide
  simp [hin.1, hin.2] at hwide

theorem gain_engine_iff :
    outside 0 2 (readTrack t : TrackDef F).gain = false ↔ ¬LevelShared F 0 2 "gain" t := by
  have hread : (readTrack t : TrackDef F).gain =
      ((number F t "gain").map narrow).getD (1 : F) := rfl
  rw [hread]
  cases hgain : number F t "gain" with
  | none =>
      have hnone : ¬LevelShared F 0 2 "gain" t := by
        rintro ⟨x, hx, -⟩
        cases hgain.symm.trans hx
      refine iff_of_true ?_ hnone
      rw [Option.map_none, Option.getD_none, OrderedFloats.one_eq]
      exact outside_lit (by decide) (by decide) (by decide) (by decide)
  | some x =>
      simp only [LevelShared, hgain, Option.map_some, Option.getD_some, Option.some.injEq,
        exists_eq_left', Bool.not_eq_true]

theorem pan_engine_iff :
    outside (-1) 1 (readTrack t : TrackDef F).pan = false ↔ ¬LevelShared F (-1) 1 "pan" t := by
  have hread : (readTrack t : TrackDef F).pan =
      ((number F t "pan").map narrow).getD (0 : F) := rfl
  rw [hread]
  cases hpan : number F t "pan" with
  | none =>
      have hnone : ¬LevelShared F (-1) 1 "pan" t := by
        rintro ⟨x, hx, -⟩
        cases hpan.symm.trans hx
      refine iff_of_true ?_ hnone
      rw [Option.map_none, Option.getD_none, OrderedFloats.zero_eq]
      exact outside_lit (by decide) (by decide) (by decide) (by decide)
  | some x =>
      simp only [LevelShared, hpan, Option.map_some, Option.getD_some, Option.some.injEq,
        exists_eq_left', Bool.not_eq_true]

end Fields

end DawProject.Validate
