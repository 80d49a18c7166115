import DawProject.Engine.Store
import Mathlib.Data.List.Nodup
import Mathlib.Data.List.TakeWhile
import Mathlib.Tactic.Push

/-!
What a track is after it has been written to a new document and read back, and
which tracks come back as they were, up to the absent fields.
-/

namespace DawProject.Engine

open Floats

section Text

/-- No character of the text is NUL. -/
def NulFree (s : String) : Prop := ∀ c ∈ s.toList, c ≠ Char.ofNat 0

theorem toList_cStr (s : String) :
    (cStr s).toList = s.toList.takeWhile fun c => c != Char.ofNat 0 := by
  rw [cStr, String.toList_ofList]

theorem cStr_eq_iff (s : String) : cStr s = s ↔ NulFree s := by
  rw [← String.toList_inj, toList_cStr, List.takeWhile_eq_self_iff]
  constructor
  · intro h c hc
    exact bne_iff_ne.mp (h c hc)
  · intro h c hc
    exact bne_iff_ne.mpr (h c hc)

theorem nulFree_cStr (s : String) : NulFree (cStr s) := by
  intro c hc
  rw [toList_cStr] at hc
  exact bne_iff_ne.mp (List.mem_takeWhile_imp (p := fun c => c != Char.ofNat 0) hc)

@[simp] theorem cStr_empty : cStr "" = "" := rfl

/-- A text that is written when it is not empty comes back as its C string. -/
theorem cStr_present (s : String) : (if s ≠ "" then cStr s else "") = cStr s := by
  split
  · rfl
  · rename_i h
    rw [not_not.mp h, cStr_empty]

end Text

section Normal

variable {F : Type}

/-- The tick of a field: a negative one is absent. -/
def tickField (tick : Int) : Int := if tick ≥ 0 then tick else -1

/-- The samples of a field: a tick takes their place. -/
def samplesField (tick samples : Int) : Int := if tick < 0 then samples else 0

def normaliseNote (n : NoteDef) : NoteDef :=
  { n with
    start_sample := samplesField n.start_tick n.start_sample
    length_samples := samplesField n.length_tick n.length_samples
    start_tick := tickField n.start_tick
    length_tick := tickField n.length_tick }

def normaliseClip (clip : ClipDef) : ClipDef :=
  { clip with
    start_sample := samplesField clip.start_tick clip.start_sample
    length_samples := samplesField clip.length_tick clip.length_samples
    start_tick := tickField clip.start_tick
    length_tick := tickField clip.length_tick
    notes := clip.notes.map normaliseNote }

/-- The version of a state without a state is absent, and so are the key and
the latency of a stem without a stem. -/
def normaliseProcessor (proc : ProcessorDef F) : ProcessorDef F :=
  { proc with
    state_version := if proc.state_hash ≠ "" then proc.state_version else 0
    stem_key := if proc.stem_hash ≠ "" then proc.stem_key else ""
    stem_latency_samples := if proc.stem_hash ≠ "" then proc.stem_latency_samples else 0 }

def normaliseTrack (track : TrackDef F) : TrackDef F :=
  { track with
    clips := track.clips.map normaliseClip
    chain := track.chain.map normaliseProcessor }

end Normal

section Echo

variable {F D : Type} [Floats F D]

theorem filter_isMap_map {α : Type} (write : α → AmValue D) (items : List α)
    (hmap : ∀ a ∈ items, (write a).isMap = true) :
    (items.map write).filter AmValue.isMap = items.map write := by
  rw [List.filter_eq_self]
  intro v hv
  obtain ⟨a, ha, rfl⟩ := List.mem_map.mp hv
  exact hmap a ha

/-- A list that is written when it is not empty. -/
theorem items_present {α : Type} (items : List α) (write : α → AmValue D) :
    (if items ≠ [] then items.map write else []) = items.map write := by
  split
  · rfl
  · rename_i h
    rw [not_not.mp h, List.map_nil]

theorem ofInt_toNat (b : UInt8) : UInt8.ofInt b.toNat = b := by
  apply UInt8.toNat.inj
  have hb : b.toNat < 256 := b.toNat_lt
  rw [UInt8.ofInt]
  simp
  omega

theorem readNote_writeNote (n : NoteDef) :
    readNote (writeNote n : AmValue D) = normaliseNote n := by
  simp only [readNote, writeNote, AmValue.getInt, AmValue.get_map, lookup_append, lookup_cons,
    lookup_nil, lookup_field, bind_present, getD_present, AmValue.toInt, String.reduceEq, and_true,
    and_false, if_true, if_false, Option.none_or, Option.or_none, Option.bind_some,
    Option.map_some, Option.getD_some, ofInt_toNat]
  rfl

/-- A clip that has been written and read. -/
def echoClip (clip : ClipDef) : ClipDef :=
  { normaliseClip clip with
    id := cStr clip.id
    asset_hash := cStr clip.asset_hash
    scene_id := "" }

theorem readClip_writeClip (clip : ClipDef) :
    readClip (writeClip clip : AmValue D) = echoClip clip := by
  have hnotes : ((clip.notes.map (writeNote (D := D))).filter AmValue.isMap).map readNote =
      clip.notes.map normaliseNote := by
    rw [filter_isMap_map _ _ (fun _ _ => rfl), List.map_map]
    exact List.map_congr_left fun n _ => readNote_writeNote n
  have hzero (x : Int) : (if x ≠ 0 then x else 0) = x := by
    split <;> omega
  simp only [readClip, writeClip, AmValue.getInt, AmValue.getStr, AmValue.getItems,
    AmValue.get_map, lookup_append, lookup_cons, lookup_nil, lookup_field, bind_present,
    map_present, getD_present, AmValue.toInt, AmValue.toStr, AmValue.toItems, String.reduceEq,
    and_true, and_false, if_true, if_false, Option.none_or, Option.or_none,
    Option.bind_some, Option.bind_none, Option.getD_some, Option.getD_none,
    items_present, hnotes, hzero]
  rfl

/-- The parameters of a chain, read one after the other. -/
def echoParams (params : List (String × F)) : List (String × F) :=
  params.foldl
    (fun kept p => if cStr p.1 = "" then kept else setParam kept (cStr p.1) p.2) []

theorem readParam_writeParam [OfNat F 0] (kept : List (String × F)) (p : String × F) :
    readParam kept (writeParam p : AmValue D) =
      if cStr p.1 = "" then kept else setParam kept (cStr p.1) p.2 := by
  simp only [readParam, writeParam, AmValue.getStr, getDouble, AmValue.get_map, lookup_cons,
    itemToDouble, AmValue.toStr, String.reduceEq, if_true, if_false, Option.bind_some,
    Option.map_some, Option.getD_some, narrow_widen]

/-- A processor that has been written and read. -/
def echoProcessor (proc : ProcessorDef F) : ProcessorDef F :=
  { normaliseProcessor proc with
    id := cStr proc.id
    type := cStr proc.type
    uid := cStr proc.uid
    state_hash := cStr proc.state_hash
    stem_hash := cStr proc.stem_hash
    stem_key := if proc.stem_hash ≠ "" then cStr proc.stem_key else ""
    params := echoParams proc.params }

theorem readProcessor_writeProcessor [OfNat F 0] (proc : ProcessorDef F) :
    readProcessor (writeProcessor proc : AmValue D) = echoProcessor proc := by
  have hparams : ((proc.params.map (writeParam (D := D))).filter AmValue.isMap).foldl
      readParam [] = echoParams proc.params := by
    rw [filter_isMap_map _ _ (fun _ _ => rfl), List.foldl_map, echoParams]
    simp only [readParam_writeParam]
  simp only [readProcessor, writeProcessor, AmValue.getInt, AmValue.getStr, AmValue.getBool,
    AmValue.getItems, AmValue.get_map, lookup_append, lookup_cons, lookup_nil, lookup_field,
    bind_present, getD_present, AmValue.toInt, AmValue.toStr, AmValue.toBool, AmValue.toItems,
    String.reduceEq, and_true, and_false, if_true, if_false, Option.none_or, Option.or_none,
    Option.bind_some, Option.map_some, Option.getD_some, hparams,
    cStr_present]
  rfl

/-- A point that has been written and read: its time went through a double. -/
def echoPoint (pt : AutomationPointDef F) : AutomationPointDef F :=
  { pt with t := toInt F (ofInt F pt.t) }

theorem readPoint_writePoint [OfNat F 0] (pt : AutomationPointDef F) :
    readPoint (writePoint pt : AmValue D) = echoPoint pt := by
  simp only [readPoint, writePoint, getDouble, AmValue.get_map, lookup_cons, itemToDouble,
    String.reduceEq, if_true, if_false, Option.bind_some, Option.map_some, Option.getD_some,
    narrow_widen]
  rfl

/-- A lane that has been written and read. -/
def echoLane (lane : AutomationLaneDef F) : AutomationLaneDef F :=
  { lane with
    id := cStr lane.id
    processor_id := cStr lane.processor_id
    param := cStr lane.param
    points := lane.points.map echoPoint }

theorem readLane_writeLane [OfNat F 0] (lane : AutomationLaneDef F) :
    readLane (writeLane lane : AmValue D) = echoLane lane := by
  have hpoints : ((lane.points.map (writePoint (D := D))).filter AmValue.isMap).map readPoint =
      lane.points.map echoPoint := by
    rw [filter_isMap_map _ _ (fun _ _ => rfl), List.map_map]
    exact List.map_congr_left fun pt _ => readPoint_writePoint pt
  have hbase : (if lane.time_base_ticks = true then "ticks" == "ticks" else false) =
      lane.time_base_ticks := by
    cases lane.time_base_ticks <;> rfl
  simp only [readLane, writeLane, AmValue.getStr, AmValue.getBool, AmValue.getItems,
    AmValue.get_map, lookup_append, lookup_cons, lookup_nil, lookup_field, bind_present,
    map_present, getD_present, AmValue.toStr, AmValue.toBool, AmValue.toItems, String.reduceEq,
    and_true, and_false, if_true, if_false, Option.none_or, Option.or_none,
    Option.bind_some, Option.map_some, Option.getD_some, hpoints, cStr_present, hbase]
  rfl

theorem readTrack_writeTrack [OfNat F 0] [OfNat F 1] (track : TrackDef F) :
    readTrack (writeTrack track : AmValue D) =
      { track with
        id := cStr track.id
        name := cStr track.name
        clips := track.clips.map echoClip
        chain := track.chain.map echoProcessor
        automation := track.automation.map (echoLane (D := D)) } := by
  have hclips : (track.clips.map (writeClip (D := D))).map readClip =
      track.clips.map echoClip := by
    rw [List.map_map]
    exact List.map_congr_left fun clip _ => readClip_writeClip clip
  have hchain : ((track.chain.map (writeProcessor (D := D))).filter AmValue.isMap).map
      readProcessor = track.chain.map echoProcessor := by
    rw [filter_isMap_map _ _ (fun _ _ => rfl), List.map_map]
    exact List.map_congr_left fun proc _ => readProcessor_writeProcessor proc
  have hlanes : ((track.automation.map (writeLane (D := D))).filter AmValue.isMap).map
      readLane = track.automation.map (echoLane (D := D)) := by
    rw [filter_isMap_map _ _ (fun _ _ => rfl), List.map_map]
    exact List.map_congr_left fun lane _ => readLane_writeLane lane
  simp only [readTrack, readAutomationLanes, writeTrack, AmValue.getStr, getDouble,
    AmValue.getItems, AmValue.get_map, lookup_append, lookup_cons, lookup_nil, lookup_field,
    map_present, getD_present, AmValue.toStr, AmValue.toItems, itemToDouble, String.reduceEq,
    and_true, if_true, if_false, Option.none_or, Option.some_or, Option.bind_some,
    Option.map_some, Option.getD_some, items_present, hclips, hchain, hlanes, narrow_widen]

/-- A new document with one track, read: every other field is absent. -/
theorem getDocument_addTrack_create [OfNat F 0] [OfNat F 1] (sample_rate : Nat)
    (track : TrackDef F) :
    getDocument (addTrack (create (F := F) sample_rate : AmValue D) track) =
      { schema_version := 1
        sample_rate := sample_rate % 4294967296
        master_gain := (1 : F)
        tracks := [readTrack (writeTrack track : AmValue D)] } := by
  simp only [getDocument, readAutomationLanes, addTrack, create, AmValue.pushTo, List.map_cons,
    List.map_nil, AmValue.getItems, AmValue.getInt, getUint32, getDouble, AmValue.get_map,
    lookup_cons, lookup_nil, String.reduceEq, if_false, beq_self_eq_true, if_true,
    Option.map_some, Option.map_none, Option.bind_some, Option.bind_none, Option.getD_some,
    Option.getD_none, AmValue.toItems, itemToUint, itemToDouble, List.nil_append, List.filter_nil,
    narrow_widen, Nat.reduceMod]

end Echo

section Params

variable {F : Type}

theorem keys_setParam (kept : List (String × F)) (key : String) (value : F) :
    (setParam kept key value).map Prod.fst =
      if key ∈ kept.map Prod.fst then kept.map Prod.fst else kept.map Prod.fst ++ [key] := by
  have hany : (kept.any fun p => p.1 == key) = true ↔ key ∈ kept.map Prod.fst := by
    rw [List.any_eq_true, List.mem_map]
    simp only [beq_iff_eq]
  rw [setParam]
  split
  · rename_i hin
    rw [if_pos (hany.mp hin), List.map_map]
    refine List.map_congr_left fun p _ => ?_
    simp only [Function.comp_apply]
    split <;> rfl
  · rename_i hout
    rw [if_neg (fun hin => hout (hany.mpr hin)), List.map_append]
    rfl

theorem setParam_of_not_mem (kept : List (String × F)) (key : String) (value : F)
    (hnew : key ∉ kept.map Prod.fst) : setParam kept key value = kept ++ [(key, value)] := by
  rw [setParam, if_neg]
  intro hany
  obtain ⟨p, hp, hkey⟩ := List.any_eq_true.mp hany
  exact hnew (List.mem_map.mpr ⟨p, hp, beq_iff_eq.mp hkey⟩)

/-- Parameters that a reader keeps as they are. -/
structure StorableParams (params : List (String × F)) : Prop where
  nodup : (params.map Prod.fst).Nodup
  nonempty : ∀ key ∈ params.map Prod.fst, key ≠ ""
  nulFree : ∀ key ∈ params.map Prod.fst, NulFree key

theorem StorableParams.foldl (params : List (String × F)) (kept : List (String × F))
    (hkept : StorableParams kept) :
    StorableParams (params.foldl
      (fun kept p => if cStr p.1 = "" then kept else setParam kept (cStr p.1) p.2) kept) := by
  induction params generalizing kept with
  | nil => exact hkept
  | cons p rest ih =>
      rw [List.foldl_cons]
      apply ih
      split
      · exact hkept
      · rename_i hkey
        constructor <;> rw [keys_setParam] <;> split
        · exact hkept.nodup
        · rename_i hnew
          rw [← List.concat_eq_append]
          exact List.Nodup.concat hnew hkept.nodup
        · exact hkept.nonempty
        · simp only [List.mem_append, List.mem_singleton]
          rintro key (hin | rfl)
          · exact hkept.nonempty key hin
          · exact hkey
        · exact hkept.nulFree
        · simp only [List.mem_append, List.mem_singleton]
          rintro key (hin | rfl)
          · exact hkept.nulFree key hin
          · exact nulFree_cStr p.1

theorem foldl_storable (params kept : List (String × F))
    (hparams : StorableParams (kept ++ params)) :
    params.foldl (fun kept p => if cStr p.1 = "" then kept else setParam kept (cStr p.1) p.2)
      kept = kept ++ params := by
  induction params generalizing kept with
  | nil => rw [List.foldl_nil, List.append_nil]
  | cons p rest ih =>
      have hmem : p.1 ∈ (kept ++ p :: rest).map Prod.fst :=
        List.mem_map_of_mem (List.mem_append_right _ List.mem_cons_self)
      have hkey : cStr p.1 = p.1 := (cStr_eq_iff p.1).mpr (hparams.nulFree _ hmem)
      have hnew : p.1 ∉ kept.map Prod.fst := by
        have hnodup := hparams.nodup
        rw [List.map_append, List.nodup_append] at hnodup
        exact fun hin => hnodup.2.2 _ hin _ (List.mem_map_of_mem List.mem_cons_self) rfl
      rw [List.foldl_cons, hkey, if_neg (hparams.nonempty _ hmem),
        setParam_of_not_mem _ _ _ hnew, ih]
      · rw [List.append_assoc, List.singleton_append]
      · rw [List.append_assoc, List.singleton_append]
        exact hparams

theorem echoParams_eq_iff (params : List (String × F)) :
    echoParams params = params ↔ StorableParams params := by
  constructor
  · intro hecho
    rw [← hecho]
    exact StorableParams.foldl params [] ⟨List.nodup_nil, nofun, nofun⟩
  · intro hparams
    exact foldl_storable params [] hparams

end Params

section Storable

variable {F D : Type} [Floats F D]

/-- A clip that comes back: no session slot, and no NUL in a text. -/
structure StorableClip (clip : ClipDef) : Prop where
  id : NulFree clip.id
  asset_hash : NulFree clip.asset_hash
  scene_id : clip.scene_id = ""

structure StorableProcessor (proc : ProcessorDef F) : Prop where
  id : NulFree proc.id
  type : NulFree proc.type
  uid : NulFree proc.uid
  state_hash : NulFree proc.state_hash
  stem_hash : NulFree proc.stem_hash
  stem_key : proc.stem_hash ≠ "" → NulFree proc.stem_key
  params : StorableParams proc.params

/-- A lane that comes back: every time is one that a double can hold. -/
structure StorableLane (lane : AutomationLaneDef F) : Prop where
  id : NulFree lane.id
  processor_id : NulFree lane.processor_id
  param : NulFree lane.param
  points : ∀ pt ∈ lane.points, Binary64.ofInt pt.t = pt.t

structure Storable (track : TrackDef F) : Prop where
  id : NulFree track.id
  name : NulFree track.name
  clips : ∀ clip ∈ track.clips, StorableClip clip
  chain : ∀ proc ∈ track.chain, StorableProcessor proc
  automation : ∀ lane ∈ track.automation, StorableLane lane

theorem echoClip_eq_iff (clip : ClipDef) :
    echoClip clip = normaliseClip clip ↔ StorableClip clip := by
  constructor
  · intro hecho
    have hid : cStr clip.id = clip.id := congrArg ClipDef.id hecho
    have hasset : cStr clip.asset_hash = clip.asset_hash := congrArg ClipDef.asset_hash hecho
    have hscene : "" = clip.scene_id := congrArg ClipDef.scene_id hecho
    exact ⟨(cStr_eq_iff _).mp hid, (cStr_eq_iff _).mp hasset, hscene.symm⟩
  · rintro ⟨hid, hasset, hscene⟩
    rw [echoClip, (cStr_eq_iff _).mpr hid, (cStr_eq_iff _).mpr hasset, ← hscene]
    rfl

theorem echoProcessor_eq_iff (proc : ProcessorDef F) :
    echoProcessor proc = normaliseProcessor proc ↔ StorableProcessor proc := by
  constructor
  · intro hecho
    have hid : cStr proc.id = proc.id := congrArg ProcessorDef.id hecho
    have htype : cStr proc.type = proc.type := congrArg ProcessorDef.type hecho
    have huid : cStr proc.uid = proc.uid := congrArg ProcessorDef.uid hecho
    have hstate : cStr proc.state_hash = proc.state_hash :=
      congrArg ProcessorDef.state_hash hecho
    have hstem : cStr proc.stem_hash = proc.stem_hash := congrArg ProcessorDef.stem_hash hecho
    have hkey : (if proc.stem_hash ≠ "" then cStr proc.stem_key else "") =
        if proc.stem_hash ≠ "" then proc.stem_key else "" := congrArg ProcessorDef.stem_key hecho
    have hparams : echoParams proc.params = proc.params := congrArg ProcessorDef.params hecho
    refine ⟨(cStr_eq_iff _).mp hid, (cStr_eq_iff _).mp htype, (cStr_eq_iff _).mp huid,
      (cStr_eq_iff _).mp hstate, (cStr_eq_iff _).mp hstem, ?_, (echoParams_eq_iff _).mp hparams⟩
    intro hpresent
    rw [if_pos hpresent, if_pos hpresent] at hkey
    exact (cStr_eq_iff _).mp hkey
  · rintro ⟨hid, htype, huid, hstate, hstem, hkey, hparams⟩
    have hkey' : (if proc.stem_hash ≠ "" then cStr proc.stem_key else "") =
        if proc.stem_hash ≠ "" then proc.stem_key else "" := by
      split
      · rename_i hpresent
        exact (cStr_eq_iff _).mpr (hkey hpresent)
      · rfl
    rw [echoProcessor, (cStr_eq_iff _).mpr hid, (cStr_eq_iff _).mpr htype,
      (cStr_eq_iff _).mpr huid, (cStr_eq_iff _).mpr hstate, (cStr_eq_iff _).mpr hstem, hkey',
      (echoParams_eq_iff _).mpr hparams]
    rfl

theorem echoPoint_eq_iff (pt : AutomationPointDef F) :
    echoPoint pt = pt ↔ Binary64.ofInt pt.t = pt.t := by
  rw [← toInt_ofInt (F := F)]
  constructor
  · intro hecho
    exact congrArg AutomationPointDef.t hecho
  · intro ht
    rw [echoPoint, ht]

theorem echoLane_eq_iff (lane : AutomationLaneDef F) :
    echoLane lane = lane ↔ StorableLane lane := by
  have hpoints : lane.points.map echoPoint = lane.points ↔
      ∀ pt ∈ lane.points, Binary64.ofInt pt.t = pt.t := by
    rw [← List.map_id lane.points, List.map_map, List.map_inj_left]
    simp only [Function.comp_id, id_eq, echoPoint_eq_iff, List.map_id]
  constructor
  · intro hecho
    have hid : cStr lane.id = lane.id := congrArg AutomationLaneDef.id hecho
    have hproc : cStr lane.processor_id = lane.processor_id :=
      congrArg AutomationLaneDef.processor_id hecho
    have hparam : cStr lane.param = lane.param := congrArg AutomationLaneDef.param hecho
    have hmap : lane.points.map echoPoint = lane.points :=
      congrArg AutomationLaneDef.points hecho
    exact ⟨(cStr_eq_iff _).mp hid, (cStr_eq_iff _).mp hproc, (cStr_eq_iff _).mp hparam,
      hpoints.mp hmap⟩
  · rintro ⟨hid, hproc, hparam, ht⟩
    rw [echoLane, (cStr_eq_iff _).mpr hid, (cStr_eq_iff _).mpr hproc,
      (cStr_eq_iff _).mpr hparam, hpoints.mpr ht]

/-- A track comes back from a new document exactly when it is storable. -/
theorem tracks_addTrack_eq_iff [OfNat F 0] [OfNat F 1] (sample_rate : Nat) (track : TrackDef F) :
    (getDocument (addTrack (create (F := F) sample_rate : AmValue D) track) :
      ProjectDef F).tracks = [normaliseTrack track] ↔ Storable track := by
  rw [getDocument_addTrack_create, List.singleton_inj, readTrack_writeTrack]
  have hclips : track.clips.map echoClip = track.clips.map normaliseClip ↔
      ∀ clip ∈ track.clips, StorableClip clip := by
    rw [List.map_inj_left]
    exact forall₂_congr fun clip _ => echoClip_eq_iff clip
  have hchain : track.chain.map echoProcessor = track.chain.map normaliseProcessor ↔
      ∀ proc ∈ track.chain, StorableProcessor proc := by
    rw [List.map_inj_left]
    exact forall₂_congr fun proc _ => echoProcessor_eq_iff proc
  have hlanes : track.automation.map (echoLane (D := D)) = track.automation ↔
      ∀ lane ∈ track.automation, StorableLane lane := by
    rw [← List.map_id track.automation, List.map_map, List.map_inj_left]
    simp only [Function.comp_id, id_eq, echoLane_eq_iff, List.map_id]
  simp only [normaliseTrack, TrackDef.mk.injEq, hclips, hchain, hlanes, cStr_eq_iff, true_and]
  constructor
  · rintro ⟨hid, hname, hc, hp, ha⟩
    exact ⟨hid, hname, hc, hp, ha⟩
  · rintro ⟨hid, hname, hc, hp, ha⟩
    exact ⟨hid, hname, hc, hp, ha⟩

/-- A session slot comes back as a clip of the timeline. -/
theorem not_tracks_addTrack_eq_slot :
    let track : TrackDef ℚ :=
      { gain := 1, pan := 0, clips := [{ id := "c", asset_hash := "a", scene_id := "s" }] }
    (getDocument (addTrack (create (F := ℚ) 48000) track) : ProjectDef ℚ).tracks ≠
      [normaliseTrack track] := by
  decide

end Storable

end DawProject.Engine
