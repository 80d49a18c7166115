import DawProject.Document.Split
import DawProject.Lib.Joined

/-!
Identifiers of the document, `web/src/document/ids.ts`, and the name that a
clip without one takes from its identifier, `clipDisplayName` of
`web/src/document/schema.ts`. A stem comes back from an identifier exactly when
it does not end in what looks generated itself. A copy keeps the name of its
clip; the right part of a split has no stem.
-/

namespace DawProject.Document

section Ids

def isLowerHex (c : Char) : Bool := c.isDigit || ('a' ≤ c && c ≤ 'f')

/-- `UUID_RE.test`. -/
def isUuid (text : List Char) : Bool :=
  (text.splitOn '-').map List.length == [8, 4, 4, 4, 12] &&
    (text.splitOn '-').all fun segment => segment.all isLowerHex

/-- What `uuid` answers: the browser's, or the one it makes itself. -/
structure Uuid where
  text : List Char
  valid : isUuid text = true

/-- `x.toString(16).padStart(2, '0')`. -/
def hexByte (x : UInt8) : List Char :=
  [Nat.digitChar (x.toNat / 16), Nat.digitChar (x.toNat % 16)]

theorem isLowerHex_hexByte (x : UInt8) : ∀ c ∈ hexByte x, isLowerHex c = true := by
  have hdigit : ∀ n < 16, isLowerHex (Nat.digitChar n) = true := by decide
  have hx := x.toNat_lt
  intro c hc
  rw [hexByte, List.mem_cons, List.mem_singleton] at hc
  rcases hc with rfl | rfl
  · exact hdigit _ (by omega)
  · exact hdigit _ (by omega)

/-- The segments of sixteen random bytes, with the version and the variant. -/
def uuidSegments (b : Fin 16 → UInt8) : List (List Char) :=
  [[b 0, b 1, b 2, b 3], [b 4, b 5], [(b 6 &&& 0x0f) ||| 0x40, b 7],
    [(b 8 &&& 0x3f) ||| 0x80, b 9], [b 10, b 11, b 12, b 13, b 14, b 15]].map
    fun bytes => bytes.flatMap hexByte

theorem isLowerHex_uuidSegments (b : Fin 16 → UInt8) :
    ∀ segment ∈ uuidSegments b, ∀ c ∈ segment, isLowerHex c = true := by
  intro segment hsegment c hc
  obtain ⟨bytes, -, rfl⟩ := List.mem_map.mp hsegment
  obtain ⟨x, -, hx⟩ := List.mem_flatMap.mp hc
  exact isLowerHex_hexByte x c hx

/-- The fallback of `uuid`. -/
def Uuid.ofBytes (b : Fin 16 → UInt8) : Uuid where
  text := ['-'].intercalate (uuidSegments b)
  valid := by
    have hdash : ∀ segment ∈ uuidSegments b, '-' ∉ segment := fun segment hsegment hmem =>
      absurd (isLowerHex_uuidSegments b segment hsegment '-' hmem) (by decide)
    rw [isUuid, List.splitOn_intercalate '-' hdash (List.cons_ne_nil _ _), Bool.and_eq_true]
    refine ⟨rfl, ?_⟩
    simpa only [List.all_eq_true] using isLowerHex_uuidSegments b

/-- An absent stem is empty. -/
def newId (kind stem : String) (uuid : Uuid) : String :=
  String.ofList <|
    if stem ≠ "" then kind.toList ++ '-' :: stem.toList ++ '-' :: uuid.text
    else kind.toList ++ '-' :: uuid.text

/-- A segment of digits. -/
def isNumber (segment : List Char) : Bool := !segment.isEmpty && segment.all Char.isDigit

/-- The last five segments, with their dashes. -/
def tail5 (parts : List (List Char)) : List Char :=
  ['-'].intercalate (parts.drop (parts.length - 5))

/-- One turn of the loop: the segments that are left, or none when it stops. -/
def stripStep (parts : List (List Char)) : Option (List (List Char)) :=
  if parts.length > 1 then
    if parts.length ≥ 5 ∧ isUuid (tail5 parts) then some (parts.take (parts.length - 5))
    else if parts.getLast?.any isNumber then some parts.dropLast
    else none
  else none

theorem length_of_stripStep {parts rest : List (List Char)} (hstep : stripStep parts = some rest) :
    rest.length < parts.length := by
  rw [stripStep] at hstep
  split at hstep
  · split at hstep
    · rw [← Option.some.inj hstep, List.length_take]
      omega
    · split at hstep
      · rw [← Option.some.inj hstep, List.length_dropLast]
        omega
      · cases hstep
  · cases hstep

def stripTail (parts : List (List Char)) : List (List Char) :=
  match _hstep : stripStep parts with
  | none => parts
  | some rest => stripTail rest
termination_by parts.length
decreasing_by exact length_of_stripStep _hstep

/-- An identifier without the prefix of clips. -/
def unprefixed (id : String) : List Char :=
  if "clip-".toList.isPrefixOf id.toList then id.toList.drop 5 else id.toList

/-- `parts.join('-') || 'clip'`. -/
def joinOrClip (parts : List (List Char)) : String :=
  let stem := ['-'].intercalate parts
  if stem = [] then "clip" else String.ofList stem

def clipStem (id : String) : String := joinOrClip (stripTail ((unprefixed id).splitOn '-'))

end Ids

section Names

def trim (name : String) : String :=
  String.ofList ((name.toList.dropWhile isSpace).reverse.dropWhile isSpace).reverse

/-- Six to twelve letters and digits. -/
def isBase36 (stem : String) : Bool :=
  decide (6 ≤ stem.toList.length ∧ stem.toList.length ≤ 12) &&
    stem.toList.all fun c => c.isDigit || ('a' ≤ c && c ≤ 'z')

def clipDisplayName (clip : ClipDef) : String :=
  let named := trim (clip.name.getD "")
  if named ≠ "" then named
  else
    let stem := clipStem clip.id
    let legacyRandom := clip.id == "clip-" ++ stem && isBase36 stem
    if stem = "clip" ∨ legacyRandom then if clip.notes.isSome then "MIDI" else "clip"
    else stem

/-- The clip that `placeSampleFromDrop` adds for a sample. -/
def placedClip (name hash : String) (dropStart length : Int) (uuid : Uuid) : ClipDef where
  id := newId "clip" name uuid
  assetHash := hash
  startSample := some dropStart
  lengthSamples := some length
  offsetSamples := some 0

/-- How a new clip comes from another. -/
inductive Copying where
  | duplicate (uuid : Uuid)
  | split (uuid : Uuid) (at_ : Int)

/-- The new clip: the copy, before it is moved, or the right part. -/
def Copying.clip (clip : ClipDef) : Copying → ClipDef
  | .duplicate uuid => { clip with id := newId "clip" (clipStem clip.id) uuid }
  | .split uuid at_ => rightClip (newId "clip" "" uuid) clip at_

/-- The loop stops, after some turns. -/
def Halts (id : String) : Prop :=
  Relation.ReflTransGen (fun parts rest => stripStep parts = some rest)
      ((unprefixed id).splitOn '-') (stripTail ((unprefixed id).splitOn '-')) ∧
    stripStep (stripTail ((unprefixed id).splitOn '-')) = none

/-- The stem comes back from every identifier made of it. -/
def RoundTrips (stem : String) : Prop := ∀ uuid, clipStem (newId "clip" stem uuid) = stem

/-- The stem of a sample comes back, and stays the name of what is copied and
split off from its clip. -/
structure StemSurvives (stem : String) : Prop where
  roundTrips : RoundTrips stem
  kept : ∀ (hash : String) (dropStart length : Int) (uuid : Uuid) (copyings : List Copying),
    clipDisplayName (copyings.foldl Copying.clip (placedClip stem hash dropStart length uuid)) =
      clipDisplayName (placedClip stem hash dropStart length uuid)
  halts : ∀ id, Halts id

/-- A stem of one segment, or one that ends neither in a number nor in five
segments that are a uuid. -/
def Stable (stem : String) : Prop :=
  (stem.toList.splitOn '-').length > 1 →
    (stem.toList.splitOn '-').getLast?.any isNumber = false ∧
      ((stem.toList.splitOn '-').length ≥ 5 → isUuid (tail5 (stem.toList.splitOn '-')) = false)

end Names

section Strip

variable {parts rest : List (List Char)} {uuid : Uuid} {stem : String}

theorem stripTail_of_some (hstep : stripStep parts = some rest) :
    stripTail parts = stripTail rest := by
  rw [stripTail]
  split
  · rename_i hnone
    rw [hstep] at hnone
    cases hnone
  · rename_i rest' hrest
    rw [hstep] at hrest
    rw [Option.some.inj hrest]

theorem stripTail_of_none (hstep : stripStep parts = none) : stripTail parts = parts := by
  rw [stripTail]
  split
  · rfl
  · rename_i rest' hrest
    rw [hstep] at hrest
    cases hrest

/-- The loop makes turns until none is left. -/
theorem stripTail_spec (parts : List (List Char)) :
    Relation.ReflTransGen (fun parts rest => stripStep parts = some rest) parts
        (stripTail parts) ∧
      stripStep (stripTail parts) = none := by
  induction parts using stripTail.induct with
  | case1 parts hnone =>
      rw [stripTail_of_none hnone]
      exact ⟨.refl, hnone⟩
  | case2 parts rest hsome ih =>
      rw [stripTail_of_some hsome]
      exact ⟨.head hsome ih.1, ih.2⟩

theorem halts (id : String) : Halts id := stripTail_spec _

theorem stripTail_idem (parts : List (List Char)) :
    stripTail (stripTail parts) = stripTail parts :=
  stripTail_of_none (stripTail_spec parts).2

/-- A turn leaves a beginning of the segments. -/
theorem prefix_of_stripStep (hstep : stripStep parts = some rest) : rest <+: parts := by
  rw [stripStep] at hstep
  split at hstep
  · split at hstep
    · rw [← Option.some.inj hstep]
      exact List.take_prefix _ _
    · split at hstep
      · rw [← Option.some.inj hstep]
        exact List.dropLast_prefix _
      · cases hstep
  · cases hstep

theorem stripTail_prefix (parts : List (List Char)) : stripTail parts <+: parts := by
  induction parts using stripTail.induct with
  | case1 parts hnone =>
      exact ⟨[], by rw [List.append_nil, stripTail_of_none hnone]⟩
  | case2 parts rest hsome ih =>
      rw [stripTail_of_some hsome]
      exact ih.trans (prefix_of_stripStep hsome)

/-- The segments of a uuid go in one turn. -/
theorem stripStep_append_uuid (parts : List (List Char)) (uuid : Uuid) :
    stripStep (parts ++ uuid.text.splitOn '-') = some parts := by
  have hlength : (uuid.text.splitOn '-').length = 5 := by
    have hvalid := uuid.valid
    rw [isUuid, Bool.and_eq_true, beq_iff_eq] at hvalid
    rw [← List.length_map (f := List.length), hvalid.1]
    rfl
  have htail : tail5 (parts ++ uuid.text.splitOn '-') = uuid.text := by
    rw [tail5, List.length_append, hlength, Nat.add_sub_cancel, List.drop_left,
      List.intercalate_splitOn]
  rw [stripStep, htail, List.length_append, hlength, if_pos (by omega),
    if_pos ⟨by omega, uuid.valid⟩, Nat.add_sub_cancel, List.take_left]

/-- A text that comes out of the loop as it went in is not stripped at all. -/
theorem stripStep_of_joinOrClip {text : List Char} (hclip : text ≠ "clip".toList)
    (hsame : joinOrClip (stripTail (text.splitOn '-')) = String.ofList text) :
    stripStep (text.splitOn '-') = none := by
  rw [joinOrClip] at hsame
  split at hsame
  · exact absurd (String.ofList_injective (hsame.symm.trans (String.ofList_toList).symm)) hclip
  rename_i hjoin
  have hfinal : stripTail (text.splitOn '-') ≠ [] := by
    intro hnil
    rw [hnil] at hjoin
    exact hjoin rfl
  have hparts : ∀ part ∈ stripTail (text.splitOn '-'), '-' ∉ part := fun part hpart =>
    Joined.not_mem_of_mem_splitOn (( stripTail_prefix _).subset hpart)
  have hsplit : stripTail (text.splitOn '-') = text.splitOn '-' := by
    rw [← List.splitOn_intercalate '-' hparts hfinal, String.ofList_injective hsame]
  rw [← hsplit]
  exact (stripTail_spec _).2

end Strip

section Stems

variable {uuid : Uuid} {stem : String}

/-- What is left of a stem. -/
def keptStem (stem : String) : String := joinOrClip (stripTail (stem.toList.splitOn '-'))

theorem splitOn_unprefixed_newId (hne : stem ≠ "") (uuid : Uuid) :
    (unprefixed (newId "clip" stem uuid)).splitOn '-' =
      stem.toList.splitOn '-' ++ uuid.text.splitOn '-' := by
  have htext : unprefixed (newId "clip" stem uuid) = stem.toList ++ '-' :: uuid.text := by
    simp [unprefixed, newId, hne]
  rw [htext, List.splitOn_append_cons_self]

theorem splitOn_unprefixed_newId_empty (uuid : Uuid) :
    (unprefixed (newId "clip" "" uuid)).splitOn '-' = [] ++ uuid.text.splitOn '-' := by
  simp [unprefixed, newId]

/-- The uuid goes, and the stem is stripped on. -/
theorem clipStem_newId (stem : String) (uuid : Uuid) :
    clipStem (newId "clip" stem uuid) = keptStem stem := by
  rw [clipStem]
  by_cases hne : stem = ""
  · rw [hne, splitOn_unprefixed_newId_empty, stripTail_of_some (stripStep_append_uuid _ _)]
    rw [stripTail_of_none rfl]
    rw [keptStem, String.toList_empty, List.splitOn_nil, stripTail_of_none rfl]
    rfl
  · rw [splitOn_unprefixed_newId hne, stripTail_of_some (stripStep_append_uuid _ _), keptStem]

theorem keptStem_clip : keptStem "clip" = "clip" := by
  have hsplit : "clip".toList.splitOn '-' = ["clip".toList] :=
    List.splitOn_eq_singleton (by decide)
  rw [keptStem, hsplit, stripTail_of_none rfl]
  rfl

/-- A stem that is left is left again. -/
theorem keptStem_idem (stem : String) : keptStem (keptStem stem) = keptStem stem := by
  by_cases hjoin : ['-'].intercalate (stripTail (stem.toList.splitOn '-')) = []
  · have hclip : keptStem stem = "clip" := if_pos hjoin
    rw [hclip, keptStem_clip]
  · have hkept : keptStem stem =
        String.ofList (['-'].intercalate (stripTail (stem.toList.splitOn '-'))) := if_neg hjoin
    have hfinal : stripTail (stem.toList.splitOn '-') ≠ [] := by
      intro hnil
      rw [hnil] at hjoin
      exact hjoin rfl
    have hparts : ∀ part ∈ stripTail (stem.toList.splitOn '-'), '-' ∉ part := fun part hpart =>
      Joined.not_mem_of_mem_splitOn (( stripTail_prefix _).subset hpart)
    rw [hkept, keptStem, String.toList_ofList, List.splitOn_intercalate '-' hparts hfinal,
      stripTail_of_none (stripTail_spec _).2, ← hkept, keptStem]

theorem stable_iff_stripStep :
    Stable stem ↔ stripStep (stem.toList.splitOn '-') = none := by
  rw [Stable, stripStep]
  generalize stem.toList.splitOn '-' = parts
  constructor
  · intro hstable
    split
    · rename_i hlength
      obtain ⟨hnumber, huuid⟩ := hstable hlength
      rw [if_neg, hnumber]
      · rfl
      · rintro ⟨hfive, htail⟩
        rw [huuid hfive] at htail
        cases htail
    · rfl
  · intro hstep hlength
    rw [if_pos hlength] at hstep
    split at hstep
    · cases hstep
    rename_i htail
    split at hstep
    · cases hstep
    rename_i hnumber
    exact ⟨by simpa using hnumber, fun hfive => by simpa [hfive] using htail⟩

/-- The stem comes back exactly when it is stable. -/
theorem roundTrips_iff (hne : stem ≠ "") (uuid : Uuid) : RoundTrips stem ↔ Stable stem := by
  rw [stable_iff_stripStep]
  have hnil : stem.toList ≠ [] := by simpa using hne
  constructor
  · intro hround
    have hkept : keptStem stem = stem := (clipStem_newId stem uuid).symm.trans (hround uuid)
    by_cases hclip : stem.toList = "clip".toList
    · rw [hclip, List.splitOn_eq_singleton (by decide)]
      rfl
    · apply stripStep_of_joinOrClip hclip
      rw [String.ofList_toList]
      exact hkept
  · intro hstep uuid
    rw [clipStem_newId, keptStem, stripTail_of_none hstep, joinOrClip, List.intercalate_splitOn,
      if_neg hnil, String.ofList_toList]

end Stems

section Copies

variable {uuid : Uuid} {stem : String} {clip : ClipDef}

/-- A clip without a name or notes, with an identifier made of a stem. -/
structure Derives (clip : ClipDef) (stem : String) : Prop where
  name : clip.name = none
  notes : clip.notes = none
  id : ∃ uuid, clip.id = newId "clip" stem uuid

/-- An identifier with a uuid is none of the historical ones. -/
theorem newId_ne_historical (hclip : keptStem stem ≠ "clip") :
    newId "clip" stem uuid ≠ "clip-" ++ keptStem stem := by
  intro hid
  have hstem : unprefixed (newId "clip" stem uuid) = (keptStem stem).toList := by
    rw [hid]
    simp [unprefixed]
  have hsame : joinOrClip (stripTail ((keptStem stem).toList.splitOn '-')) =
      String.ofList (keptStem stem).toList := by
    rw [String.ofList_toList, ← hstem]
    exact clipStem_newId stem uuid
  have hnone := stripStep_of_joinOrClip (fun htext => hclip (String.toList_inj.mp htext)) hsame
  rw [← hstem] at hnone
  by_cases hne : stem = ""
  · rw [hne, splitOn_unprefixed_newId_empty, stripStep_append_uuid] at hnone
    cases hnone
  · rw [splitOn_unprefixed_newId hne, stripStep_append_uuid] at hnone
    cases hnone

theorem Derives.clipDisplayName (hclip : Derives clip stem) :
    clipDisplayName clip = keptStem stem := by
  obtain ⟨uuid, hid⟩ := hclip.id
  have hstem : clipStem clip.id = keptStem stem := hid ▸ clipStem_newId stem uuid
  have htrim : trim (clip.name.getD "") = "" := by
    rw [hclip.name]
    rfl
  rw [Document.clipDisplayName, htrim, hstem, hclip.notes]
  by_cases hkept : keptStem stem = "clip"
  · simp [hkept]
  · have hhistorical : newId "clip" stem uuid ≠ "clip-" ++ keptStem stem :=
      newId_ne_historical hkept
    simp [hkept, hid, hhistorical]

theorem Derives.duplicate (hclip : Derives clip stem) (uuid : Uuid) :
    Derives (Copying.clip clip (.duplicate uuid)) (keptStem stem) := by
  obtain ⟨uuid', hid⟩ := hclip.id
  refine ⟨hclip.name, hclip.notes, uuid, ?_⟩
  rw [Copying.clip, hid, clipStem_newId]

theorem Derives.split (hclip : Derives clip stem) (uuid : Uuid) (at_ : Int) :
    Derives (Copying.clip clip (.split uuid at_)) "" :=
  ⟨hclip.name, rfl, uuid, rfl⟩

theorem derives_placedClip (stem hash : String) (dropStart length : Int) (uuid : Uuid) :
    Derives (placedClip stem hash dropStart length uuid) stem :=
  ⟨rfl, rfl, uuid, rfl⟩

theorem keptStem_empty : keptStem "" = "clip" := by
  rw [keptStem, String.toList_empty, List.splitOn_nil, stripTail_of_none rfl]
  rfl

/-- Copies of copies keep what is left of the stem. -/
theorem exists_derives_foldl_duplicate (hclip : Derives clip stem) (uuids : List Uuid) :
    ∃ stem', Derives ((uuids.map Copying.duplicate).foldl Copying.clip clip) stem' ∧
      keptStem stem' = keptStem stem := by
  induction uuids generalizing clip stem with
  | nil => exact ⟨stem, hclip, rfl⟩
  | cons uuid uuids ih =>
      obtain ⟨stem', hderives, hkept⟩ := ih (hclip.duplicate uuid)
      exact ⟨stem', hderives, hkept.trans (keptStem_idem stem)⟩

/-- Where nothing is left of the stem, nothing is lost. -/
theorem exists_derives_foldl (hclip : Derives clip stem) (hkept : keptStem stem = "clip")
    (copyings : List Copying) :
    ∃ stem', Derives (copyings.foldl Copying.clip clip) stem' ∧ keptStem stem' = "clip" := by
  induction copyings generalizing clip stem with
  | nil => exact ⟨stem, hclip, hkept⟩
  | cons copying copyings ih =>
      cases copying with
      | duplicate uuid => exact ih (hclip.duplicate uuid) ((keptStem_idem stem).trans hkept)
      | split uuid at_ => exact ih (hclip.split uuid at_) keptStem_empty

/-- The uuid of sixteen zeros. -/
def zeroUuid : Uuid := .ofBytes fun _ => 0

theorem stemSurvives_iff_clip : StemSurvives stem ↔ stem = "clip" := by
  constructor
  · intro hsurvives
    have hkept : keptStem stem = stem :=
      (clipStem_newId stem zeroUuid).symm.trans (hsurvives.roundTrips zeroUuid)
    have hplaced := derives_placedClip stem "" 0 0 zeroUuid
    have hsplit := hsurvives.kept "" 0 0 zeroUuid [.split zeroUuid 0]
    rw [hplaced.clipDisplayName, List.foldl_cons, List.foldl_nil,
      (hplaced.split zeroUuid 0).clipDisplayName, keptStem_empty] at hsplit
    exact (hsplit.trans hkept).symm
  · rintro rfl
    refine ⟨?_, ?_, halts⟩
    · intro uuid
      rw [clipStem_newId, keptStem_clip]
    · intro hash dropStart length uuid copyings
      have hplaced := derives_placedClip "clip" hash dropStart length uuid
      obtain ⟨stem', hderives, hkept⟩ := exists_derives_foldl hplaced keptStem_clip copyings
      rw [hderives.clipDisplayName, hplaced.clipDisplayName, hkept, keptStem_clip]

/-- A stem comes back exactly when it is stable, and copies keep the name of
their clip in any case. With the right parts of splits, which have no stem, only
the name `clip` survives. The loop stops on every identifier. -/
theorem stem_survives_iff (stem : String) (hne : stem ≠ "") :
    (RoundTrips stem ↔ Stable stem) ∧
      (∀ (hash : String) (dropStart length : Int) (uuid : Uuid) (uuids : List Uuid),
        clipDisplayName ((uuids.map Copying.duplicate).foldl Copying.clip
            (placedClip stem hash dropStart length uuid)) =
          clipDisplayName (placedClip stem hash dropStart length uuid)) ∧
      (StemSurvives stem ↔ stem = "clip") ∧ ∀ id, Halts id := by
  refine ⟨roundTrips_iff hne zeroUuid, ?_, stemSurvives_iff_clip, halts⟩
  intro hash dropStart length uuid uuids
  have hplaced := derives_placedClip stem hash dropStart length uuid
  obtain ⟨stem', hderives, hkept⟩ := exists_derives_foldl_duplicate hplaced uuids
  rw [hderives.clipDisplayName, hplaced.clipDisplayName, hkept]

/-- The stem `kick` comes back. -/
theorem stem_survives_kick : RoundTrips "kick" := by
  apply (stem_survives_iff "kick" (by decide)).1.mpr
  intro hlength
  rw [List.splitOn_eq_singleton (by decide)] at hlength
  exact absurd hlength (by decide)

/-- A sample named `kick-01` loses its number. -/
theorem not_stem_survives_numbered :
    newId "clip" "kick-01" zeroUuid = "clip-kick-01-00000000-0000-4000-8000-000000000000" ∧
      clipStem (newId "clip" "kick-01" zeroUuid) = "kick" ∧
      ¬ ∀ stem : String, stem ≠ "" → StemSurvives stem := by
  have hturn : stripStep ("kick-01".toList.splitOn '-') = some ["kick".toList] := by decide
  have hkick : clipStem (newId "clip" "kick-01" zeroUuid) = "kick" := by
    rw [clipStem_newId, keptStem, stripTail_of_some hturn, stripTail_of_none rfl]
    rfl
  refine ⟨by decide, hkick, ?_⟩
  intro hsurvives
  have hround := (hsurvives "kick-01" (by decide)).roundTrips zeroUuid
  rw [hkick] at hround
  exact absurd hround (by decide)

end Copies

end DawProject.Document
