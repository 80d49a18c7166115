import DawProject.Validate.Faults

/-!
The two validators side by side, each on the document as its own side reads it:
what each of them accepts, and on which documents the two say the same.
-/

namespace DawProject.Validate

open DawProject.Engine (AmValue ClipDef TrackDef ProcessorDef ProjectDef getDocument readTrack
  readClip readProcessor renderedProject resolveTrack resolveClip resolveMusicalTime)
open Floats
open Web (number atLeast atMost above isMusical idOf)
open DawProject.Validate.Engine (outside)
open Walk (Fresh)

section Clips

variable {F D : Type} [OfNat F 0] [OfNat F 1] [OrderedFloats F D] {v c : AmValue D} {key : String}

/-- What the engine does not replace by a default is a number. -/
theorem isSome_of_read {d : Int} (hread : (v.getInt key).getD d ≠ d) :
    (number F v key).isSome = true := by
  cases hget : v.getInt key with
  | none =>
      rw [hget] at hread
      exact absurd rfl hread
  | some i =>
      rw [number_of_getInt hget]
      rfl

theorem atLeast_tick_iff :
    atLeast F 0 (number F v key) = true ↔
      ¬(v.getInt key).getD (-1) < -1 ∧
        ¬(atLeast F 0 (number F v key) = false ∧ (v.getInt key).getD (-1) = -1) := by
  cases hget : v.getInt key with
  | none => simp
  | some i =>
      rw [atLeast_of_getInt hget, decide_eq_true_eq, decide_eq_false_iff_not, Option.getD_some]
      omega

theorem above_tick_iff :
    above F 0 (number F v key) = true ↔
      ¬((v.getInt key).getD (-1) < -1 ∨ (v.getInt key).getD (-1) = 0) ∧
        ¬(above F 0 (number F v key) = false ∧ (v.getInt key).getD (-1) = -1) := by
  cases hget : v.getInt key with
  | none => simp
  | some i =>
      rw [above_of_getInt hget, decide_eq_true_eq, decide_eq_false_iff_not, Option.getD_some]
      omega

theorem atLeast_sample_iff :
    atLeast F 0 (number F v key) = true ↔
      ¬(v.getInt key).getD 0 < 0 ∧
        ¬(atLeast F 0 (number F v key) = false ∧ 0 ≤ (v.getInt key).getD 0) := by
  cases hget : v.getInt key with
  | none => simp
  | some i =>
      rw [atLeast_of_getInt hget, decide_eq_true_eq, decide_eq_false_iff_not, Option.getD_some]
      omega

/-- A length that the web refuses is none for the engine. -/
theorem length_of_not_above (hlength : above F 0 (number F c "lengthSamples") = false) :
    (readClip c).length_samples ≤ 0 := by
  have hread : (readClip c).length_samples = (c.getInt "lengthSamples").getD 0 := rfl
  rw [hread]
  cases hget : c.getInt "lengthSamples" with
  | none => exact le_refl 0
  | some i =>
      rw [above_of_getInt hget, decide_eq_false_iff_not] at hlength
      exact not_lt.mp hlength

theorem start_tick_of_not_musical (hmusical : isMusical F c = false) :
    (readClip c).start_tick = -1 := by
  by_contra hread
  have hsome : isMusical F c = true := isSome_of_read hread
  rw [hmusical] at hsome
  cases hsome

theorem web_soundClip_iff :
    Web.SoundClip F c ↔ ¬ClipShared F c ∧ ¬ClipWebOnly F c := by
  constructor
  · intro hsound
    constructor
    · intro hshared
      cases hshared with
      | start_tick h =>
          have hmusical : isMusical F c = true :=
            isSome_of_read (d := -1) (ne_of_lt h)
          exact (atLeast_tick_iff.mp (hsound.startTick hmusical)).1 h
      | length_tick hmusical h =>
          have hsome : (number F c "lengthTick").isSome = true := by
            apply isSome_of_read (d := -1)
            have hread : (readClip c).length_tick = (c.getInt "lengthTick").getD (-1) := rfl
            omega
          exact (above_tick_iff.mp (hsound.lengthTick hmusical hsome)).1 h
      | start_sample hmusical h =>
          exact (atLeast_sample_iff.mp (hsound.startSample hmusical)).1 h
      | length hsamples h =>
          rw [hsound.length hsamples] at h
          cases h
      | offset h =>
          have hsome : (number F c "offsetSamples").isSome = true :=
            isSome_of_read (d := 0) (ne_of_lt h)
          exact (atLeast_sample_iff.mp (hsound.offset hsome)).1 h
    · intro hweb
      cases hweb with
      | start_tick hmusical h _ => simp [hsound.startTick hmusical] at h
      | length_tick hmusical hlength h _ => simp [hsound.lengthTick hmusical hlength] at h
      | start_sample hmusical h _ => simp [hsound.startSample hmusical] at h
      | offset hoffset h _ => simp [hsound.offset hoffset] at h
  · rintro ⟨hshared, hweb⟩
    constructor
    · intro hmusical
      exact atLeast_tick_iff.mpr
        ⟨fun h => hshared (.start_tick h), fun h => hweb (.start_tick hmusical h.1 h.2)⟩
    · intro hmusical hlength
      exact above_tick_iff.mpr ⟨fun h => hshared (.length_tick hmusical h),
        fun h => hweb (.length_tick hmusical hlength h.1 h.2)⟩
    · intro hmusical
      exact atLeast_sample_iff.mpr ⟨fun h => hshared (.start_sample hmusical h),
        fun h => hweb (.start_sample hmusical h.1 h.2)⟩
    · intro hsamples
      by_contra h
      exact hshared (.length hsamples (Bool.not_eq_true _ ▸ h))
    · intro hoffset
      exact atLeast_sample_iff.mpr
        ⟨fun h => hshared (.offset h), fun h => hweb (.offset hoffset h.1 h.2)⟩

end Clips

section Resolution

variable {F D : Type} [OfNat F 0] [OfNat F 1] [OrderedFloats F D]
  {place : Option (Int → Option Int)}

/-- What the resolution makes of a clip. -/
structure PlacedClip (place : Option (Int → Option Int)) (clip r : ClipDef) : Prop where
  id : r.id = clip.id
  start_tick : r.start_tick = clip.start_tick
  length_tick : r.length_tick = clip.length_tick
  offset : r.offset_samples = clip.offset_samples
  start_kept : ¬(place.isSome = true ∧ 0 ≤ clip.start_tick) → r.start_sample = clip.start_sample
  length_kept : ¬((place.isSome = true ∧ 0 ≤ clip.start_tick) ∧ 0 ≤ clip.length_tick) →
    r.length_samples = clip.length_samples
  start : ∀ at_, place = some at_ → 0 ≤ clip.start_tick →
    at_ clip.start_tick = some r.start_sample
  length : ∀ at_, place = some at_ → 0 ≤ clip.start_tick → 0 ≤ clip.length_tick →
    ∃ stop, at_ (clip.start_tick + clip.length_tick) = some stop ∧
      r.length_samples = stop - r.start_sample

theorem placedClip_refl {clip : ClipDef}
    (hkept : ¬(place.isSome = true ∧ 0 ≤ clip.start_tick)) : PlacedClip place clip clip where
  id := rfl
  start_tick := rfl
  length_tick := rfl
  offset := rfl
  start_kept := fun _ => rfl
  length_kept := fun _ => rfl
  start := fun _ hplace htick => absurd ⟨Option.isSome_of_eq_some hplace, htick⟩ hkept
  length := fun _ hplace htick => absurd ⟨Option.isSome_of_eq_some hplace, htick⟩ hkept

theorem placedClip_of_resolveClip {at_ : Int → Option Int} {clip r : ClipDef}
    (hclip : resolveClip at_ clip = some r) : PlacedClip (some at_) clip r := by
  rw [resolveClip] at hclip
  split at hclip
  · rename_i hmusical
    have htick : 0 ≤ clip.start_tick := of_decide_eq_true hmusical
    simp only [Option.bind_eq_bind, Option.bind_eq_some_iff, Option.pure_def,
      Option.some.injEq] at hclip
    obtain ⟨cs, hcs, length, hlength, notes, -, rfl⟩ := hclip
    rw [Document.Engine.resolveLength] at hlength
    refine ⟨rfl, rfl, rfl, rfl, fun hkept => absurd ⟨rfl, htick⟩ hkept, ?_, ?_, ?_⟩
    · intro hkept
      have hneg : ¬clip.positions.length_tick ≥ 0 := fun h => hkept ⟨⟨rfl, htick⟩, h⟩
      rw [if_neg hneg] at hlength
      exact (Option.some.inj hlength).symm
    · rintro _ ⟨⟩ _
      exact hcs
    · rintro _ ⟨⟩ _ hlength_tick
      have hpos : clip.positions.length_tick ≥ 0 := hlength_tick
      rw [if_pos hpos] at hlength
      simp only [Option.bind_eq_bind, Option.bind_eq_some_iff,
        Machine.Range.fit_eq_some_iff] at hlength
      obtain ⟨_, ⟨rfl, -⟩, stop, hstop, rfl, -⟩ := hlength
      exact ⟨stop, hstop, rfl⟩
  · rename_i hmusical
    cases hclip
    exact placedClip_refl (fun hplaced => hmusical (decide_eq_true hplaced.2))

/-- What the resolution keeps of a track. -/
structure PlacedTrack (place : Option (Int → Option Int)) (track r : TrackDef F) : Prop where
  id : r.id = track.id
  gain : r.gain = track.gain
  pan : r.pan = track.pan
  chain : r.chain = track.chain
  clips : List.Forall₂ (PlacedClip place) track.clips r.clips

omit [OfNat F 0] [OfNat F 1] [OrderedFloats F D] in
theorem placedTrack_none (track : TrackDef F) : PlacedTrack none track track := by
  refine ⟨rfl, rfl, rfl, rfl, List.forall₂_same.mpr fun clip _ => ?_⟩
  exact placedClip_refl (fun hplaced => Bool.noConfusion hplaced.1)

omit [OfNat F 0] [OfNat F 1] [OrderedFloats F D] in
theorem placedTrack_of_resolveTrack {at_ : Int → Option Int} {track r : TrackDef F}
    (htrack : resolveTrack at_ track = some r) : PlacedTrack (some at_) track r := by
  rw [resolveTrack] at htrack
  simp only [Option.bind_eq_bind, Option.bind_eq_some_iff, Option.pure_def,
    Option.some.injEq] at htrack
  obtain ⟨clips, hclips, automation, -, rfl⟩ := htrack
  refine ⟨rfl, rfl, rfl, rfl, (Mapped.forall₂_of_mapM hclips).imp fun clip r hclip => ?_⟩
  exact placedClip_of_resolveClip hclip

/-- What the resolution keeps of a document. -/
theorem placed_of_rendered {doc : AmValue D} {resolved : ProjectDef F}
    (hrendered : renderedProject doc = some resolved) :
    resolved.schema_version = (getDocument doc : ProjectDef F).schema_version ∧
      resolved.sample_rate = (getDocument doc : ProjectDef F).sample_rate ∧
      List.Forall₂ (fun t track => PlacedTrack (placing F (getDocument doc)) (readTrack t) track)
        (doc.getItems "tracks") resolved.tracks := by
  have hread : (getDocument doc : ProjectDef F).tracks = (doc.getItems "tracks").map readTrack :=
    rfl
  have hmap := List.forall₂_map_left_iff
    (R := PlacedTrack (placing F (getDocument doc))) (f := readTrack (F := F))
    (l := doc.getItems "tracks") (u := resolved.tracks)
  rw [renderedProject, resolveMusicalTime] at hrendered
  split at hrendered
  · rename_i hversion
    cases hrendered
    refine ⟨rfl, rfl, hmap.mp ?_⟩
    rw [← hread, placing, if_pos hversion]
    exact List.forall₂_same.mpr fun track _ => placedTrack_none track
  · rename_i hversion
    simp only [Option.bind_eq_bind, Option.bind_eq_some_iff, Option.pure_def,
      Option.some.injEq] at hrendered
    obtain ⟨S, hS, tracks, htracks, automation, -, rfl⟩ := hrendered
    refine ⟨rfl, rfl, hmap.mp ?_⟩
    rw [← hread, placing, if_neg hversion]
    simp only [hS, Option.map_some]
    exact (Mapped.forall₂_of_mapM htracks).imp fun track r htrack =>
      placedTrack_of_resolveTrack htrack

end Resolution

section Resolved

variable {F D : Type} [OfNat F 0] [OfNat F 1] [OrderedFloats F D]
  {place : Option (Int → Option Int)}

theorem musical_of_placed {c : AmValue D} (hplaced : Placed place c) :
    isMusical F c = true := by
  by_contra hmusical
  have hread := start_tick_of_not_musical (Bool.not_eq_true _ ▸ hmusical)
  have htick := hplaced.2
  omega

theorem engine_soundClip_iff {c : AmValue D} {r : ClipDef}
    (hr : PlacedClip place (readClip c) r) :
    Engine.SoundClip r ↔ ¬ClipShared F c ∧ ¬ClipEngineOnly F place c := by
  have hstart_tick := hr.start_tick
  have hlength_tick := hr.length_tick
  have hoffset := hr.offset
  constructor
  · rintro ⟨htick, hticks, hstart, hlength, hpos⟩
    have hkept : isMusical F c = false → ¬Placed place c := by
      intro hmusical hplaced
      rw [musical_of_placed hplaced] at hmusical
      cases hmusical
    constructor
    · intro hshared
      cases hshared with
      | start_tick h => omega
      | length_tick _ h => omega
      | start_sample hmusical h =>
          rw [hr.start_kept (hkept hmusical)] at hstart
          omega
      | length hsamples h =>
          have hread := length_of_not_above h
          rw [hr.length_kept ?_] at hlength
          · omega
          rintro ⟨hplaced, hticks⟩
          rcases hsamples with hmusical | habsent
          · exact hkept hmusical hplaced
          · have hsome : (number F c "lengthTick").isSome = true := by
              apply isSome_of_read (d := -1)
              have hread : (readClip c).length_tick = (c.getInt "lengthTick").getD (-1) := rfl
              omega
            rw [habsent] at hsome
            cases hsome
      | offset h => omega
    · intro hengine
      cases hengine with
      | length_tick _ h => omega
      | start_sample _ hplaced h =>
          rw [hr.start_kept hplaced] at hstart
          omega
      | start at_ cs hplace htick hcs h =>
          rw [hr.start at_ hplace htick, Option.some.injEq] at hcs
          omega
      | span at_ cs stop hplace htick hticks hcs hstop h =>
          obtain ⟨stop', hstop', hlength'⟩ := hr.length at_ hplace htick (le_of_lt hticks)
          rw [hr.start at_ hplace htick, Option.some.injEq] at hcs
          rw [hstop', Option.some.injEq] at hstop
          omega
      | length hplaced hread _ =>
          rw [hr.length_kept hplaced] at hlength
          omega
  · rintro ⟨hshared, hengine⟩
    have hticks : r.length_tick = -1 ∨ 0 < r.length_tick := by
      by_contra hnone
      have hbad : (readClip c).length_tick < -1 ∨ (readClip c).length_tick = 0 := by omega
      cases hmusical : isMusical F c with
      | true => exact hshared (.length_tick hmusical hbad)
      | false => exact hengine (.length_tick hmusical hbad)
    refine ⟨?_, hticks, ?_, ?_, ?_⟩
    · by_contra hnone
      exact hshared (.start_tick (by omega))
    · by_contra hneg
      by_cases hplaced : Placed place c
      · obtain ⟨at_, hplace⟩ := Option.isSome_iff_exists.mp hplaced.1
        exact hengine (.start at_ _ hplace hplaced.2 (hr.start at_ hplace hplaced.2) (by omega))
      · rw [hr.start_kept hplaced, not_le] at hneg
        cases hmusical : isMusical F c with
        | true => exact hengine (.start_sample hmusical hplaced hneg)
        | false => exact hshared (.start_sample hmusical hneg)
    · by_contra hneg
      by_cases hplaced : Placed place c ∧ 0 ≤ (readClip c).length_tick
      · obtain ⟨at_, hplace⟩ := Option.isSome_iff_exists.mp hplaced.1.1
        obtain ⟨stop, hstop, hlength⟩ := hr.length at_ hplace hplaced.1.2 hplaced.2
        exact hengine (.span at_ _ stop hplace hplaced.1.2 (by omega)
          (hr.start at_ hplace hplaced.1.2) hstop (by omega))
      · rw [hr.length_kept hplaced, not_lt] at hneg
        cases hlength : above F 0 (number F c "lengthSamples") with
        | true => exact hengine (.length hplaced hneg (Or.inr hlength))
        | false =>
            by_cases hmusical : isMusical F c = true ∧ (number F c "lengthTick").isSome = true
            · exact hengine (.length hplaced hneg (Or.inl hmusical))
            · rw [not_and_or, Bool.not_eq_true, Bool.not_eq_true] at hmusical
              exact hshared (.length hmusical hlength)
    · by_contra hneg
      exact hshared (.offset (by omega))

theorem web_soundTrack_iff {t : AmValue D} :
    Web.SoundTrack F t ↔
      (¬LevelShared F 0 2 "gain" t ∧ number F t "gain" ≠ none ∧ ¬LevelWebOnly F 0 2 "gain" t) ∧
        (¬LevelShared F (-1) 1 "pan" t ∧ ¬LevelWebOnly F (-1) 1 "pan" t) ∧
        ∀ p ∈ t.getItems "chain", idOf p ≠ "" ∧ (p.getStr "type").getD "" ≠ "" := by
  rw [← gain_web_iff, ← pan_web_iff]
  exact ⟨fun ⟨gain, pan, devices⟩ => ⟨gain, pan, devices⟩,
    fun ⟨gain, pan, devices⟩ => ⟨gain, pan, devices⟩⟩

/-- The engine reads each device of a typed chain. -/
theorem chain_readTrack {t : AmValue D} (htyped : hasField (isListOf isDevice) "chain" t = true) :
    (readTrack t : TrackDef F).chain = (t.getItems "chain").map readProcessor := by
  have hmaps : (t.getItems "chain").filter AmValue.isMap = t.getItems "chain" := by
    rw [List.filter_eq_self]
    intro p hp
    have hdevice := mem_items_typed htyped hp
    rw [isDevice, Bool.and_eq_true, Bool.and_eq_true] at hdevice
    exact hdevice.1.1
  show ((t.getItems "chain").filter AmValue.isMap).map readProcessor = _
  rw [hmaps]

theorem engine_soundTrack_iff {t : AmValue D} {r : TrackDef F}
    (htyped : hasField (isListOf isDevice) "chain" t = true)
    (hr : PlacedTrack place (readTrack t) r) :
    Engine.SoundTrack r ↔
      ¬LevelShared F 0 2 "gain" t ∧ ¬LevelShared F (-1) 1 "pan" t ∧
        ∀ p ∈ t.getItems "chain", idOf p ≠ "" ∧ (p.getStr "type").getD "" ≠ "" := by
  have hdevices : (∀ proc ∈ r.chain, proc.id ≠ "" ∧ proc.type ≠ "") ↔
      ∀ p ∈ t.getItems "chain", idOf p ≠ "" ∧ (p.getStr "type").getD "" ≠ "" := by
    rw [hr.chain, chain_readTrack htyped, List.forall_mem_map]
    rfl
  rw [← gain_engine_iff, ← pan_engine_iff, ← hdevices, ← hr.gain, ← hr.pan]
  exact ⟨fun ⟨gain, pan, devices⟩ => ⟨gain, pan, devices⟩,
    fun ⟨gain, pan, devices⟩ => ⟨gain, pan, devices⟩⟩

theorem clips_of_placedTrack {t : AmValue D} {r : TrackDef F}
    (hr : PlacedTrack place (readTrack t) r) :
    List.Forall₂ (fun c clip => PlacedClip place (readClip c) clip) (t.getItems "clips")
      r.clips :=
  List.forall₂_map_left_iff.mp hr.clips

theorem clipIds_of_placedTrack {t : AmValue D} {r : TrackDef F}
    (hr : PlacedTrack place (readTrack t) r) :
    r.clips.map ClipDef.id = (t.getItems "clips").map idOf :=
  Mapped.map_eq_of_forall₂ (clips_of_placedTrack hr) fun _ _ hclip => hclip.id

theorem engine_soundClips_iff {t : AmValue D} {r : TrackDef F}
    (hr : PlacedTrack place (readTrack t) r) :
    (∀ clip ∈ r.clips, Engine.SoundClip clip) ↔
      ∀ c ∈ t.getItems "clips", ¬ClipShared F c ∧ ¬ClipEngineOnly F place c :=
  Mapped.forall_iff_of_forall₂ (clips_of_placedTrack hr) fun _ _ _ hclip =>
    engine_soundClip_iff hclip

end Resolved

section Documents

variable {F D : Type} [OfNat F 0] [OfNat F 1] [OrderedFloats F D]

/-- The parts of a typed document. -/
theorem DocValue.fields (doc : DocValue D) :
    hasField isNumber "schemaVersion" doc.tree = true ∧
      hasField isNumber "sampleRate" doc.tree = true ∧
      hasField (isListOf isTrack) "tracks" doc.tree = true := by
  have htyped := doc.typed
  simp only [isDocument, Bool.and_eq_true] at htyped
  exact ⟨htyped.1.1.2, htyped.1.2, htyped.2⟩

theorem DocValue.chain (doc : DocValue D) {t : AmValue D} (ht : t ∈ doc.tree.getItems "tracks") :
    hasField (isListOf isDevice) "chain" t = true := by
  have htyped := mem_items_typed doc.fields.2.2 ht
  rw [isTrack, Bool.and_eq_true] at htyped
  exact htyped.2

theorem DocValue.tracks (doc : DocValue D) (hsome : doc.tree.get "tracks" ≠ none) :
    doc.tree.get "tracks" = some (.list (doc.tree.getItems "tracks")) := by
  have htyped := doc.fields.2.2
  rw [hasField] at htyped
  rw [AmValue.getItems]
  cases hget : doc.tree.get "tracks" with
  | none => exact absurd hget hsome
  | some value =>
      rw [hget] at htyped
      cases value with
      | list items => rfl
      | _ => cases htyped

theorem not_sharedFault_iff {doc : AmValue D} :
    ¬SharedFault F doc ↔
      (¬VersionShared doc ∧ ¬RateShared doc) ∧
        Fresh "" [] ((doc.getItems "tracks").map idOf) ∧
        Fresh "" [] ((doc.getItems "tracks").flatMap fun t => (t.getItems "clips").map idOf) ∧
        ∀ t ∈ doc.getItems "tracks",
          (¬LevelShared F 0 2 "gain" t ∧ ¬LevelShared F (-1) 1 "pan" t ∧
            ∀ p ∈ t.getItems "chain", idOf p ≠ "" ∧ (p.getStr "type").getD "" ≠ "") ∧
          ∀ c ∈ t.getItems "clips", ¬ClipShared F c := by
  constructor
  · intro hnone
    refine ⟨⟨fun h => hnone (.version h), fun h => hnone (.rate h)⟩,
      not_not.mp fun h => hnone (.trackIds h), not_not.mp fun h => hnone (.clipIds h),
      fun t ht => ⟨⟨fun h => hnone (.gain t ht h), fun h => hnone (.pan t ht h), fun p hp => ?_⟩,
        fun c hc h => hnone (.clip t c ht hc h)⟩⟩
    rw [← not_or]
    exact fun h => hnone (.device t p ht hp h)
  · rintro ⟨⟨hversion, hrate⟩, hids, hclipIds, htracks⟩ hfault
    cases hfault with
    | version h => exact hversion h
    | rate h => exact hrate h
    | trackIds h => exact h hids
    | clipIds h => exact h hclipIds
    | gain t ht h => exact (htracks t ht).1.1 h
    | pan t ht h => exact (htracks t ht).1.2.1 h
    | device t p ht hp h =>
        obtain ⟨hid, htype⟩ := (htracks t ht).1.2.2 p hp
        exact h.elim hid htype
    | clip t c ht hc h => exact (htracks t ht).2 c hc h

/-- The web accepts a document that has neither a fault of both nor one of the
web. -/
theorem web_accepts_iff (shown : D → String) (doc : DocValue D) :
    Web.validateDocument F shown doc.tree = [] ↔
      ¬SharedFault F doc.tree ∧ ¬WebOnly F doc.tree := by
  obtain ⟨hversion, hrate, -⟩ := doc.fields
  rw [Web.validateDocument_eq_nil_iff, version_web_iff hversion, rate_web_iff hrate,
    not_sharedFault_iff]
  constructor
  · rintro ⟨⟨hversion, hversion'⟩, ⟨hrate, hrate'⟩, tracks, hget, hids, hclipIds, hall⟩
    have hitems : doc.tree.getItems "tracks" = tracks := by
      rw [AmValue.getItems, hget]
      rfl
    subst hitems
    have hclip : ∀ t ∈ doc.tree.getItems "tracks", ∀ c ∈ t.getItems "clips",
        ¬ClipShared F c ∧ ¬ClipWebOnly F c :=
      fun t ht c hc => web_soundClip_iff.mp ((hall t ht).2 c hc)
    have htrack := fun t ht => web_soundTrack_iff.mp (hall t ht).1
    constructor
    · exact ⟨⟨hversion, hrate⟩, hids, hclipIds, fun t ht =>
        ⟨⟨(htrack t ht).1.1, (htrack t ht).2.1.1, (htrack t ht).2.2⟩,
          fun c hc => (hclip t ht c hc).1⟩⟩
    · intro hweb
      cases hweb with
      | version h => exact hversion' h
      | rate h => exact hrate' h
      | noTracks h =>
          rw [hget] at h
          cases h
      | noGain t ht h => exact (htrack t ht).1.2.1 h
      | gain t ht h => exact (htrack t ht).1.2.2 h
      | pan t ht h => exact (htrack t ht).2.1.2 h
      | clip t c ht hc h => exact (hclip t ht c hc).2 h
  · rintro ⟨⟨⟨hversion, hrate⟩, hids, hclipIds, htracks⟩, hweb⟩
    refine ⟨⟨hversion, fun h => hweb (.version h)⟩, ⟨hrate, fun h => hweb (.rate h)⟩,
      doc.tree.getItems "tracks", doc.tracks fun h => hweb (.noTracks h), hids, hclipIds,
      fun t ht => ⟨?_, fun c hc => ?_⟩⟩
    · obtain ⟨⟨hgain, hpan, hdevices⟩, -⟩ := htracks t ht
      exact web_soundTrack_iff.mpr ⟨⟨hgain, fun h => hweb (.noGain t ht h),
        fun h => hweb (.gain t ht h)⟩, ⟨hpan, fun h => hweb (.pan t ht h)⟩, hdevices⟩
    · exact web_soundClip_iff.mpr
        ⟨(htracks t ht).2 c hc, fun h => hweb (.clip t c ht hc h)⟩

/-- The engine resolves a document and accepts it when it has neither a fault of
both nor one of the engine. -/
theorem engine_accepts_iff (shown : F → String) (doc : DocValue D) :
    (∃ resolved, renderedProject doc.tree = some resolved ∧
        Engine.validateDocument shown resolved = "") ↔
      ¬SharedFault F doc.tree ∧ ¬EngineOnly F doc.tree := by
  obtain ⟨-, hrate, -⟩ := doc.fields
  cases hrendered : (renderedProject doc.tree : Option (ProjectDef F)) with
  | none =>
      refine iff_of_false ?_ fun h => h.2 (.undefined hrendered)
      rintro ⟨resolved, hsome, -⟩
      cases hsome
  | some resolved =>
      obtain ⟨hsame_version, hsame_rate, hplaced⟩ := placed_of_rendered hrendered
      have hids : resolved.tracks.map TrackDef.id = (doc.tree.getItems "tracks").map idOf :=
        Mapped.map_eq_of_forall₂ hplaced fun _ _ htrack => htrack.id
      have hclipIds : (resolved.tracks.flatMap fun track => track.clips.map ClipDef.id) =
          (doc.tree.getItems "tracks").flatMap fun t => (t.getItems "clips").map idOf := by
        rw [List.flatMap_def, List.flatMap_def]
        exact congrArg List.flatten
          (Mapped.map_eq_of_forall₂ hplaced fun _ _ htrack => clipIds_of_placedTrack htrack)
      have htracks := Mapped.forall_iff_of_forall₂ hplaced fun t track ht htrack =>
        and_congr (engine_soundTrack_iff (doc.chain ht) htrack) (engine_soundClips_iff htrack)
      have haccepts : (∃ r, some resolved = some r ∧ Engine.validateDocument shown r = "") ↔
          Engine.validateDocument shown resolved = "" := by simp
      rw [haccepts, Engine.validateDocument_eq_empty_iff, hsame_version, hsame_rate,
        version_engine_iff, rate_engine_iff hrate, hids, hclipIds, htracks, not_sharedFault_iff]
      constructor
      · rintro ⟨hversion, ⟨hrate, hrate'⟩, hids, hclipIds, hall⟩
        constructor
        · exact ⟨⟨hversion, hrate⟩, hids, hclipIds, fun t ht =>
            ⟨(hall t ht).1, fun c hc => ((hall t ht).2 c hc).1⟩⟩
        · intro hengine
          cases hengine with
          | rate h => exact hrate' h
          | undefined h =>
              rw [hrendered] at h
              cases h
          | clip t c ht hc h => exact ((hall t ht).2 c hc).2 h
      · rintro ⟨⟨⟨hversion, hrate⟩, hids, hclipIds, htracks⟩, hengine⟩
        exact ⟨hversion, ⟨hrate, fun h => hengine (.rate h)⟩, hids, hclipIds, fun t ht =>
          ⟨(htracks t ht).1, fun c hc =>
            ⟨(htracks t ht).2 c hc, fun h => hengine (.clip t c ht hc h)⟩⟩⟩

/-- The validators say the same of a document exactly when it has a fault that
both name, or faults of the web alone and of the engine alone both or neither. -/
theorem accepts_iff_accepts (shownWeb : D → String) (shown : F → String) (doc : DocValue D) :
    (Web.validateDocument F shownWeb doc.tree = [] ↔
        ∃ resolved, renderedProject doc.tree = some resolved ∧
          Engine.validateDocument shown resolved = "") ↔
      SharedFault F doc.tree ∨ (WebOnly F doc.tree ↔ EngineOnly F doc.tree) := by
  rw [web_accepts_iff, engine_accepts_iff]
  tauto

end Documents

section Example

/-- A document of version 1 with a clip in ticks. -/
def ticksInVersionOne : DocValue ℚ where
  tree := .map
    [("schemaVersion", .int 1), ("sampleRate", .int 48000),
      ("tracks", .list
        [.map
          [("id", .str "t"), ("name", .str "Lead"), ("gain", .int 1),
            ("clips", .list
              [.map [("id", .str "c"), ("startTick", .int 0), ("lengthTick", .int 960)]]),
            ("chain", .list [])]])]
  typed := by decide

/-- The web finds no fault in it. The engine resolves no tick of version 1, so the
clip has no length and the engine refuses the document. -/
theorem not_accepts_iff_accepts :
    ¬∀ doc : DocValue ℚ,
      (Web.validateDocument ℚ (fun _ => "") doc.tree = [] ↔
        ∃ resolved : ProjectDef ℚ, renderedProject doc.tree = some resolved ∧
          Engine.validateDocument (fun _ => "") resolved = "") := by
  intro hall
  have hweb : Web.validateDocument ℚ (fun _ => "") ticksInVersionOne.tree = [] := by decide
  have hrendered : renderedProject ticksInVersionOne.tree =
      some (getDocument ticksInVersionOne.tree : ProjectDef ℚ) := by rfl
  obtain ⟨resolved, hresolved, hempty⟩ := (hall ticksInVersionOne).mp hweb
  rw [hrendered, Option.some.injEq] at hresolved
  rw [← hresolved, Engine.validateDocument, Engine.report_eq_empty_iff] at hempty
  have hfaults : Engine.documentFaults (fun _ => "")
      (getDocument ticksInVersionOne.tree : ProjectDef ℚ) =
        ["Track t clip c has invalid length"] := by decide
  rw [hfaults] at hempty
  cases hempty

end Example

end DawProject.Validate
