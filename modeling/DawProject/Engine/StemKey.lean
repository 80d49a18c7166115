import DawProject.Engine.Stem
import DawProject.Lib.Joined

/-!
The key of a stem, `computeStemKey` of `engine/src/render/stem_render.cpp`: the
digest of a text over the inputs of the render. When no text of two requests
contains a separator, their keys agree exactly when the fields in the key do,
and the key is complete exactly when these fields determine what the reduced
document gives to the renderer.
-/

namespace DawProject.Engine

open Floats Joined

/-- A node of the chain of a track whose stem is asked for. -/
structure StemRequest (F : Type) where
  track : TrackDef F
  node_index : Nat
  hnode : node_index < track.chain.length
  sample_rate : Nat
  module_version_tag : String

section Text

variable {F : Type} (showFloat : F → String)

def noteText (n : NoteDef) : String :=
  String.join
    [",n=", Int.repr n.pitch.toNat, ":", Int.repr n.velocity.toNat, ":",
      Int.repr n.start_sample, ":", Int.repr n.length_samples]

def clipText (c : ClipDef) : String :=
  String.join <|
    ["|clip=", c.asset_hash, ",", Int.repr c.start_sample, ",", Int.repr c.length_samples, ",",
      Int.repr c.offset_samples, ",", Int.repr c.fade_in_samples, ",",
      Int.repr c.fade_out_samples] ++
    c.notes.map noteText

def paramText (p : String × F) : String := String.join [",", p.1, "=", showFloat p.2]

def nodeText (node_index i : Nat) (p : ProcessorDef F) : String :=
  String.join <|
    ["|node=", p.type, ",", p.uid, ",", if p.bypass then "1" else "0"] ++
    p.params.map (paramText showFloat) ++
    if i < node_index then [",state=", p.state_hash, ":", Int.repr p.state_version] else []

def StemRequest.node (r : StemRequest F) : ProcessorDef F :=
  r.track.chain.get ⟨r.node_index, r.hnode⟩

/-- The chain up to and including the node. -/
def StemRequest.chain (r : StemRequest F) : List (ProcessorDef F) :=
  r.track.chain.take (r.node_index + 1)

/-- The clips of the track that are no session slots. -/
def timelineClips (clips : List ClipDef) : List ClipDef :=
  clips.filter fun c => c.scene_id == ""

/-- What `computeStemKey` digests. -/
def stemKeyText (r : StemRequest F) : String :=
  String.join <|
    ["stem-v2|sr=", Int.repr r.sample_rate, "|uid=", r.node.uid, "|ver=", r.module_version_tag,
      "|state=", r.node.state_hash, ":", Int.repr r.node.state_version] ++
    (timelineClips r.track.clips).map clipText ++
    r.chain.mapIdx fun i p => nodeText showFloat r.node_index i p

def computeStemKey (sha256Hex : String → String) (r : StemRequest F) : String :=
  sha256Hex (stemKeyText showFloat r)

end Text

section Fields

variable {F D : Type}

/-- A note as the key has it. -/
def keyedNote (n : NoteDef) : NoteDef where
  pitch := n.pitch
  velocity := n.velocity
  start_sample := n.start_sample
  length_samples := n.length_samples

def keyedClip (c : ClipDef) : ClipDef where
  asset_hash := c.asset_hash
  start_sample := c.start_sample
  length_samples := c.length_samples
  offset_samples := c.offset_samples
  fade_in_samples := c.fade_in_samples
  fade_out_samples := c.fade_out_samples
  notes := c.notes.map keyedNote

def keyedProcessor (p : ProcessorDef F) : ProcessorDef F where
  type := p.type
  uid := p.uid
  bypass := p.bypass
  params := p.params
  state_hash := p.state_hash
  state_version := p.state_version

/-- The fields of a request that are in its key. -/
structure Keyed (F : Type) where
  sample_rate : Nat
  module_version_tag : String
  clips : List ClipDef
  chain : List (ProcessorDef F)

def StemRequest.keyed (r : StemRequest F) : Keyed F where
  sample_rate := r.sample_rate
  module_version_tag := r.module_version_tag
  clips := (timelineClips r.track.clips).map keyedClip
  chain := r.chain.map keyedProcessor

end Fields

section Decode

def separators : List Char := ['|', ',', ':', '=']

/-- A text without a separator of the key. -/
def Plain (s : String) : Prop := ∀ c ∈ separators, c ∉ s.toList

instance (s : String) : Decidable (Plain s) :=
  List.decidableBAll _ separators

structure PlainProcessor {F : Type} (p : ProcessorDef F) : Prop where
  type : Plain p.type
  uid : Plain p.uid
  state_hash : Plain p.state_hash
  params : ∀ q ∈ p.params, Plain q.1

/-- No text in the key contains a separator. -/
structure StemRequest.Plain {F : Type} (r : StemRequest F) : Prop where
  module_version_tag : DawProject.Engine.Plain r.module_version_tag
  clips : ∀ c ∈ timelineClips r.track.clips, DawProject.Engine.Plain c.asset_hash
  chain : ∀ p ∈ r.chain, PlainProcessor p

def noteField (n : NoteDef) : List Char :=
  joined ':' ('n' :: '=' :: decimal n.pitch.toNat)
    [decimal n.velocity.toNat, decimal n.start_sample, decimal n.length_samples]

/-- The positions of a clip in the key. -/
def clipNumbers (c : ClipDef) : List Int :=
  [c.start_sample, c.length_samples, c.offset_samples, c.fade_in_samples, c.fade_out_samples]

def clipField (c : ClipDef) : List Char :=
  joined ',' ('c' :: 'l' :: 'i' :: 'p' :: '=' :: c.asset_hash.toList)
    ((clipNumbers c).map decimal ++ c.notes.map noteField)

/-- The version of a state after its hash. -/
def stateField (state_hash : String) (state_version : Int) : List Char :=
  joined ':' ('s' :: 't' :: 'a' :: 't' :: 'e' :: '=' :: state_hash.toList) [decimal state_version]

section

variable {F : Type} (showFloat : F → String)

def paramField (p : String × F) : List Char := joined '=' p.1.toList [(showFloat p.2).toList]

/-- The parts of a node after its type. -/
def nodeParts (node_index i : Nat) (p : ProcessorDef F) : List (List Char) :=
  [p.uid.toList, if p.bypass then ['1'] else ['0']] ++ p.params.map (paramField showFloat) ++
    (if i < node_index then [stateField p.state_hash p.state_version] else [])

def nodeField (node_index i : Nat) (p : ProcessorDef F) : List Char :=
  joined ',' ('n' :: 'o' :: 'd' :: 'e' :: '=' :: p.type.toList)
    (nodeParts showFloat node_index i p)

/-- The fields of the text of a key. -/
def keyFields (r : StemRequest F) : List (List Char) :=
  ['s' :: 'r' :: '=' :: decimal r.sample_rate, 'u' :: 'i' :: 'd' :: '=' :: r.node.uid.toList,
      'v' :: 'e' :: 'r' :: '=' :: r.module_version_tag.toList,
      stateField r.node.state_hash r.node.state_version] ++
    (timelineClips r.track.clips).map clipField ++
    r.chain.mapIdx (nodeField showFloat r.node_index)

theorem toList_noteText (n : NoteDef) : (noteText n).toList = ',' :: noteField n := by
  have hn : ",n=".toList = [',', 'n', '='] := rfl
  have hcolon : ":".toList = [':'] := rfl
  simp only [noteText, noteField, joined, decimal, String.toList_join, hn, hcolon,
    List.flatMap_cons, List.flatMap_nil, List.cons_append, List.nil_append]

theorem toList_clipText (c : ClipDef) : (clipText c).toList = '|' :: clipField c := by
  have hclip : "|clip=".toList = ['|', 'c', 'l', 'i', 'p', '='] := rfl
  have hcomma : ",".toList = [','] := rfl
  simp only [clipText, clipField, clipNumbers, joined, decimal, String.toList_join, hclip, hcomma,
    List.map_cons, List.map_nil, List.flatMap_map, toList_noteText, List.flatMap_cons,
    List.cons_append, List.nil_append]

theorem toList_paramText (p : String × F) :
    (paramText showFloat p).toList = ',' :: paramField showFloat p := by
  have hcomma : ",".toList = [','] := rfl
  have hequals : "=".toList = ['='] := rfl
  simp only [paramText, paramField, joined, String.toList_join, hcomma, hequals,
    List.flatMap_cons, List.flatMap_nil, List.cons_append, List.nil_append]

theorem toList_nodeText (node_index i : Nat) (p : ProcessorDef F) :
    (nodeText showFloat node_index i p).toList = '|' :: nodeField showFloat node_index i p := by
  have hnode : "|node=".toList = ['|', 'n', 'o', 'd', 'e', '='] := rfl
  have hcomma : ",".toList = [','] := rfl
  have hbypass : (if p.bypass then "1" else "0").toList = if p.bypass then ['1'] else ['0'] := by
    split <;> rfl
  have hstate : (if i < node_index then
        [",state=", p.state_hash, ":", Int.repr p.state_version] else []).flatMap String.toList =
      (if i < node_index then [stateField p.state_hash p.state_version] else []).flatMap
        fun part => ',' :: part := by
    have hstart : ",state=".toList = [',', 's', 't', 'a', 't', 'e', '='] := rfl
    have hcolon : ":".toList = [':'] := rfl
    split
    · simp only [stateField, joined, decimal, hstart, hcolon, List.flatMap_cons, List.flatMap_nil,
        List.cons_append, List.nil_append, List.append_nil]
    · rfl
  simp only [nodeText, nodeField, nodeParts, joined, String.toList_join, hnode, hcomma, hbypass,
    hstate, List.flatMap_append, List.flatMap_map, toList_paramText, List.flatMap_cons,
    List.cons_append, List.nil_append]

theorem toList_stemKeyText (r : StemRequest F) :
    (stemKeyText showFloat r).toList =
      joined '|' ['s', 't', 'e', 'm', '-', 'v', '2'] (keyFields showFloat r) := by
  have hchain : (r.chain.mapIdx fun i p => nodeText showFloat r.node_index i p).flatMap
        String.toList =
      (r.chain.mapIdx (nodeField showFloat r.node_index)).flatMap fun part => '|' :: part := by
    simp only [List.mapIdx_eq_zipIdx_map, List.flatMap_map, toList_nodeText]
  have hsr : "stem-v2|sr=".toList = ['s', 't', 'e', 'm', '-', 'v', '2', '|', 's', 'r', '='] := rfl
  have huid : "|uid=".toList = ['|', 'u', 'i', 'd', '='] := rfl
  have hver : "|ver=".toList = ['|', 'v', 'e', 'r', '='] := rfl
  have hstate : "|state=".toList = ['|', 's', 't', 'a', 't', 'e', '='] := rfl
  have hcolon : ":".toList = [':'] := rfl
  simp only [stemKeyText, keyFields, stateField, joined, decimal, String.toList_join, hsr, huid,
    hver, hstate, hcolon, hchain, List.flatMap_append, List.flatMap_map, toList_clipText,
    List.flatMap_cons, List.flatMap_nil, List.cons_append, List.nil_append, List.append_nil,
    List.append_assoc]

end

section Injective

theorem not_mem_decimal_of_separator {c : Char} (hc : c ∈ separators) (n : Int) :
    c ∉ decimal n := by
  simp only [separators, List.mem_cons, List.not_mem_nil, or_false] at hc
  rcases hc with rfl | rfl | rfl | rfl <;> exact not_mem_decimal rfl (by decide) n

/-- A separator is in no number of a list of numbers. -/
theorem not_mem_decimals {c : Char} (hc : c ∈ separators) (ns : List Int) :
    ∀ part ∈ ns.map decimal, c ∉ part := by
  intro part hpart
  obtain ⟨n, -, rfl⟩ := List.mem_map.mp hpart
  exact not_mem_decimal_of_separator hc n

/-- Numbers are determined by their characters. -/
theorem decimals_inj {ns ns' : List Int} (heq : ns.map decimal = ns'.map decimal) : ns = ns' :=
  List.map_injective_iff.mpr (fun _ _ => decimal_inj) heq

/-- The separators of the fields and of their parts. -/
def outerSeparators : List Char := ['|', ',']

theorem eq_of_mem_outer {c : Char} (hc : c ∈ outerSeparators) : c = '|' ∨ c = ',' := by
  simp only [outerSeparators, List.mem_cons, List.not_mem_nil, or_false] at hc
  exact hc

theorem mem_separators_of_outer {c : Char} (hc : c ∈ outerSeparators) : c ∈ separators :=
  List.mem_append_left [':', '='] hc

theorem not_mem_noteField {c : Char} (hc : c ∈ outerSeparators) (n : NoteDef) :
    c ∉ noteField n := by
  have hcolon : c ≠ ':' := by
    rintro rfl
    exact absurd hc (by decide)
  have hlabel : c ∉ ['n', '='] := by
    rcases eq_of_mem_outer hc with rfl | rfl <;> decide
  have hsep := mem_separators_of_outer hc
  exact not_mem_joined hcolon
    (List.not_mem_append hlabel (not_mem_decimal_of_separator hsep n.pitch.toNat))
    (not_mem_decimals hsep [n.velocity.toNat, n.start_sample, n.length_samples])

theorem not_mem_stateField {c : Char} (hc : c ∈ outerSeparators) {state_hash : String}
    (hplain : Plain state_hash) (state_version : Int) :
    c ∉ stateField state_hash state_version := by
  have hcolon : c ≠ ':' := by
    rintro rfl
    exact absurd hc (by decide)
  have hlabel : c ∉ ['s', 't', 'a', 't', 'e', '='] := by
    rcases eq_of_mem_outer hc with rfl | rfl <;> decide
  have hsep := mem_separators_of_outer hc
  exact not_mem_joined hcolon (List.not_mem_append hlabel (hplain c hsep))
    (not_mem_decimals hsep [state_version])

theorem stateField_inj {state_hash state_hash' : String} {state_version state_version' : Int}
    (hplain : Plain state_hash) (hplain' : Plain state_hash')
    (heq : stateField state_hash state_version = stateField state_hash' state_version') :
    state_hash = state_hash' ∧ state_version = state_version' := by
  have hstart : ∀ {text : String}, Plain text →
      ':' ∉ ['s', 't', 'a', 't', 'e', '='] ++ text.toList :=
    fun htext => List.not_mem_append (by decide) (htext ':' (by decide))
  obtain ⟨hfirst, hrest⟩ := joined_inj (hstart hplain)
    (not_mem_decimals (by decide) [state_version]) (hstart hplain')
    (not_mem_decimals (by decide) [state_version']) heq
  exact ⟨String.toList_inj.mp (List.append_cancel_left hfirst), List.head_eq_of_cons_eq
    (decimals_inj hrest)⟩

theorem noteField_inj {n n' : NoteDef} (heq : noteField n = noteField n') :
    keyedNote n = keyedNote n' := by
  have hstart : ∀ m : NoteDef, ':' ∉ ['n', '='] ++ decimal m.pitch.toNat :=
    fun m => List.not_mem_append (by decide) (not_mem_decimal_of_separator (by decide) _)
  obtain ⟨hfirst, hrest⟩ := joined_inj (hstart n)
    (not_mem_decimals (by decide) [n.velocity.toNat, n.start_sample, n.length_samples]) (hstart n')
    (not_mem_decimals (by decide) [n'.velocity.toNat, n'.start_sample, n'.length_samples]) heq
  have hpitch := decimal_inj (List.append_cancel_left hfirst)
  have hnumbers := decimals_inj hrest
  simp only [List.cons.injEq, and_true] at hnumbers
  obtain ⟨hvelocity, hsample, hlength⟩ := hnumbers
  have hp : n.pitch = n'.pitch := UInt8.toNat.inj (Int.ofNat.inj hpitch)
  have hv : n.velocity = n'.velocity := UInt8.toNat.inj (Int.ofNat.inj hvelocity)
  rw [keyedNote, keyedNote, hp, hv, hsample, hlength]

theorem not_mem_clipParts {c : Char} (hc : c ∈ outerSeparators) (clip : ClipDef) :
    ∀ part ∈ (clipNumbers clip).map decimal ++ clip.notes.map noteField, c ∉ part := by
  intro part hpart
  rcases List.mem_append.mp hpart with hnumber | hnote
  · exact not_mem_decimals (mem_separators_of_outer hc) _ part hnumber
  · obtain ⟨n, -, rfl⟩ := List.mem_map.mp hnote
    exact not_mem_noteField hc n

theorem not_mem_clipField {clip : ClipDef} (hplain : Plain clip.asset_hash) :
    '|' ∉ clipField clip :=
  not_mem_joined (by decide)
    (List.not_mem_append (s := ['c', 'l', 'i', 'p', '=']) (by decide) (hplain '|' (by decide)))
    (not_mem_clipParts (by decide) clip)

theorem clipField_inj {clip clip' : ClipDef} (hplain : Plain clip.asset_hash)
    (hplain' : Plain clip'.asset_hash) (heq : clipField clip = clipField clip') :
    keyedClip clip = keyedClip clip' := by
  have hstart : ∀ {text : String}, Plain text → ',' ∉ ['c', 'l', 'i', 'p', '='] ++ text.toList :=
    fun htext => List.not_mem_append (by decide) (htext ',' (by decide))
  obtain ⟨hfirst, hrest⟩ := joined_inj (hstart hplain) (not_mem_clipParts (by decide) clip)
    (hstart hplain') (not_mem_clipParts (by decide) clip') heq
  have hasset := String.toList_inj.mp (List.append_cancel_left hfirst)
  obtain ⟨hnumbers, hnotes⟩ := List.append_inj hrest rfl
  have hkeyed : clip.notes.map keyedNote = clip'.notes.map keyedNote :=
    map_eq_map_of_one (fun _ _ _ _ => noteField_inj) hnotes
  have hpositions := decimals_inj hnumbers
  simp only [clipNumbers, List.cons.injEq, and_true] at hpositions
  obtain ⟨hstart, hlength, hoffset, hin, hout⟩ := hpositions
  rw [keyedClip, keyedClip, hasset, hstart, hlength, hoffset, hin, hout, hkeyed]

section Chain

variable {F : Type} {showFloat : F → String}

theorem not_mem_paramField (hshow : ∀ x, Plain (showFloat x)) {c : Char}
    (hc : c ∈ outerSeparators) {q : String × F} (hplain : Plain q.1) :
    c ∉ paramField showFloat q := by
  have hequals : c ≠ '=' := by
    rintro rfl
    exact absurd hc (by decide)
  have hsep := mem_separators_of_outer hc
  refine not_mem_joined hequals (hplain c hsep) ?_
  intro part hpart
  rw [List.mem_singleton.mp hpart]
  exact hshow q.2 c hsep

theorem paramField_inj (hinj : Function.Injective showFloat) (hshow : ∀ x, Plain (showFloat x))
    {q q' : String × F} (hplain : Plain q.1) (hother : Plain q'.1)
    (heq : paramField showFloat q = paramField showFloat q') : q = q' := by
  have hvalue : ∀ x : F, ∀ part ∈ [(showFloat x).toList], '=' ∉ part := by
    intro x part hpart
    rw [List.mem_singleton.mp hpart]
    exact hshow x '=' (by decide)
  obtain ⟨hfirst, hrest⟩ := joined_inj (hplain '=' (by decide)) (hvalue q.2)
    (hother '=' (by decide)) (hvalue q'.2) heq
  exact Prod.ext (String.toList_inj.mp hfirst)
    (hinj (String.toList_inj.mp (List.head_eq_of_cons_eq hrest)))

theorem not_mem_nodeParts (hshow : ∀ x, Plain (showFloat x)) {c : Char}
    (hc : c ∈ outerSeparators) {p : ProcessorDef F} (hplain : PlainProcessor p)
    (node_index i : Nat) : ∀ part ∈ nodeParts showFloat node_index i p, c ∉ part := by
  intro part hpart
  rcases List.mem_append.mp hpart with hpart | hstate
  · rcases List.mem_append.mp hpart with hpart | hparam
    · rcases List.mem_cons.mp hpart with rfl | hbypass
      · exact hplain.uid c (mem_separators_of_outer hc)
      · rw [List.mem_singleton.mp hbypass]
        rcases eq_of_mem_outer hc with rfl | rfl <;> cases p.bypass <;> decide
    · obtain ⟨q, hq, rfl⟩ := List.mem_map.mp hparam
      exact not_mem_paramField hshow hc (hplain.params q hq)
  · split at hstate
    · rw [List.mem_singleton.mp hstate]
      exact not_mem_stateField hc hplain.state_hash p.state_version
    · cases hstate

theorem not_mem_nodeField (hshow : ∀ x, Plain (showFloat x)) {p : ProcessorDef F}
    (hplain : PlainProcessor p) (node_index i : Nat) :
    '|' ∉ nodeField showFloat node_index i p :=
  not_mem_joined (by decide)
    (List.not_mem_append (s := ['n', 'o', 'd', 'e', '=']) (by decide)
      (hplain.type '|' (by decide)))
    (not_mem_nodeParts hshow (by decide) hplain node_index i)

/-- A node in the key: its fields, but its state only before the last node. -/
theorem nodeField_inj (hinj : Function.Injective showFloat) (hshow : ∀ x, Plain (showFloat x))
    {p p' : ProcessorDef F} (hplain : PlainProcessor p) (hplain' : PlainProcessor p')
    {node_index i : Nat}
    (heq : nodeField showFloat node_index i p = nodeField showFloat node_index i p') :
    (p.type = p'.type ∧ p.uid = p'.uid ∧ p.bypass = p'.bypass ∧ p.params = p'.params) ∧
      (i < node_index → p.state_hash = p'.state_hash ∧ p.state_version = p'.state_version) := by
  have hstart : ∀ {text : String}, Plain text → ',' ∉ ['n', 'o', 'd', 'e', '='] ++ text.toList :=
    fun htext => List.not_mem_append (by decide) (htext ',' (by decide))
  obtain ⟨hfirst, hrest⟩ := joined_inj (hstart hplain.type)
    (not_mem_nodeParts hshow (by decide) hplain node_index i) (hstart hplain'.type)
    (not_mem_nodeParts hshow (by decide) hplain' node_index i) heq
  have htype := String.toList_inj.mp (List.append_cancel_left hfirst)
  have hlength : ∀ s t : List Char, (if i < node_index then [s] else []).length =
      (if i < node_index then [t] else []).length := by
    intro s t
    split <;> rfl
  obtain ⟨hparts, hstate⟩ := List.append_inj' hrest (hlength _ _)
  obtain ⟨hhead, hparams⟩ := List.append_inj hparts rfl
  obtain ⟨huid, hbypass⟩ := List.cons.inj hhead
  have hbypass : p.bypass = p'.bypass := by
    revert hbypass
    cases p.bypass <;> cases p'.bypass <;> decide
  have hparams : p.params = p'.params := by
    have hid : p.params.map id = p'.params.map id := map_eq_map_of_one
      (fun q hq q' hq' => paramField_inj hinj hshow (hplain.params q hq) (hplain'.params q' hq'))
      hparams
    rw [List.map_id, List.map_id] at hid
    exact hid
  refine ⟨⟨htype, String.toList_inj.mp huid, hbypass, hparams⟩, ?_⟩
  intro hlt
  rw [if_pos hlt, if_pos hlt] at hstate
  exact stateField_inj hplain.state_hash hplain'.state_hash (List.head_eq_of_cons_eq hstate)

end Chain

end Injective

section Request

variable {F : Type}

theorem StemRequest.length_chain (r : StemRequest F) : r.chain.length = r.node_index + 1 := by
  rw [StemRequest.chain, List.length_take]
  exact min_eq_left r.hnode

theorem StemRequest.getElem_chain (r : StemRequest F) (h : r.node_index < r.chain.length) :
    r.chain[r.node_index] = r.node :=
  List.getElem_take

theorem StemRequest.node_mem_chain (r : StemRequest F) : r.node ∈ r.chain := by
  have hlast : r.node_index < r.chain.length := by
    rw [r.length_chain]
    exact Nat.lt_succ_self _
  rw [← r.getElem_chain hlast]
  exact List.getElem_mem hlast

variable {showFloat : F → String}

theorem not_mem_keyFields (hshow : ∀ x, Plain (showFloat x)) {r : StemRequest F}
    (hplain : r.Plain) : ∀ field ∈ keyFields showFloat r, '|' ∉ field := by
  have hnode := hplain.chain r.node r.node_mem_chain
  intro field hfield
  rcases List.mem_append.mp hfield with hfield | hchain
  · rcases List.mem_append.mp hfield with hhead | hclips
    · simp only [List.mem_cons, List.not_mem_nil, or_false] at hhead
      rcases hhead with rfl | rfl | rfl | rfl
      · exact List.not_mem_append (s := ['s', 'r', '=']) (by decide)
          (not_mem_decimal_of_separator (by decide) _)
      · exact List.not_mem_append (s := ['u', 'i', 'd', '=']) (by decide)
          (hnode.uid '|' (by decide))
      · exact List.not_mem_append (s := ['v', 'e', 'r', '=']) (by decide)
          (hplain.module_version_tag '|' (by decide))
      · exact not_mem_stateField (by decide) hnode.state_hash _
    · obtain ⟨clip, hclip, rfl⟩ := List.mem_map.mp hclips
      exact not_mem_clipField (hplain.clips clip hclip)
  · obtain ⟨i, hi, rfl⟩ := List.mem_mapIdx.mp hchain
    exact not_mem_nodeField hshow (hplain.chain _ (List.getElem_mem hi)) _ _

theorem head_nodeFields (r : StemRequest F) :
    ∀ field ∈ r.chain.mapIdx (nodeField showFloat r.node_index),
      (field.head? == some 'c') = false := by
  intro field hfield
  obtain ⟨i, hi, rfl⟩ := List.mem_mapIdx.mp hfield
  rfl

/-- A chain is read back from its fields and the state of its last node. -/
theorem chain_keyed_eq (hinj : Function.Injective showFloat) (hshow : ∀ x, Plain (showFloat x))
    {x y : StemRequest F} (hx : x.Plain) (hy : y.Plain)
    (hchain : x.chain.mapIdx (nodeField showFloat x.node_index) =
      y.chain.mapIdx (nodeField showFloat y.node_index))
    (hhash : x.node.state_hash = y.node.state_hash)
    (hversion : x.node.state_version = y.node.state_version) :
    x.chain.map keyedProcessor = y.chain.map keyedProcessor := by
  have hindex : x.node_index = y.node_index := by
    have hlength := congrArg List.length hchain
    rw [List.length_mapIdx, List.length_mapIdx, x.length_chain, y.length_chain] at hlength
    exact Nat.succ.inj hlength
  rw [← hindex] at hchain
  apply List.ext_getElem
  · rw [List.length_map, List.length_map, x.length_chain, y.length_chain, hindex]
  intro i hi hi'
  rw [List.length_map] at hi hi'
  have hfield : nodeField showFloat x.node_index i x.chain[i] =
      nodeField showFloat x.node_index i y.chain[i] := by
    have hat := List.getElem_of_eq hchain (i := i) (by rwa [List.length_mapIdx])
    rw [List.getElem_mapIdx, List.getElem_mapIdx] at hat
    exact hat
  obtain ⟨⟨htype, huid, hbypass, hparams⟩, hstate⟩ := nodeField_inj hinj hshow
    (hx.chain _ (List.getElem_mem hi)) (hy.chain _ (List.getElem_mem hi')) hfield
  have hown : x.chain[i].state_hash = y.chain[i].state_hash ∧
      x.chain[i].state_version = y.chain[i].state_version := by
    rcases Nat.lt_or_ge i x.node_index with hlt | hge
    · exact hstate hlt
    · -- the last node of the chain is the node of the stem
      have hlast : i = x.node_index := by
        rw [x.length_chain] at hi
        omega
      subst hlast
      have hlast' : y.chain[x.node_index] = y.node := by
        simp only [hindex]
        exact y.getElem_chain _
      rw [x.getElem_chain, hlast']
      exact ⟨hhash, hversion⟩
  rw [List.getElem_map, List.getElem_map, keyedProcessor, keyedProcessor, htype, huid, hbypass,
    hparams, hown.1, hown.2]

/-- Two requests with plain texts have one text only if the fields in the key
are the same. -/
theorem keyed_eq_of_text_eq (hinj : Function.Injective showFloat)
    (hshow : ∀ x, Plain (showFloat x)) {x y : StemRequest F} (hx : x.Plain) (hy : y.Plain)
    (heq : stemKeyText showFloat x = stemKeyText showFloat y) : x.keyed = y.keyed := by
  have hchars := congrArg String.toList heq
  rw [toList_stemKeyText, toList_stemKeyText] at hchars
  obtain ⟨-, hfields⟩ := joined_inj (by decide) (not_mem_keyFields hshow hx) (by decide)
    (not_mem_keyFields hshow hy) hchars
  rw [keyFields, keyFields, List.append_assoc, List.append_assoc] at hfields
  obtain ⟨hhead, hrest⟩ := List.append_inj hfields rfl
  simp only [List.cons.injEq, true_and, and_true] at hhead
  obtain ⟨hsr, -, hver, hstate⟩ := hhead
  obtain ⟨hclips, hchain⟩ := append_split (p := fun field => field.head? == some 'c')
    (List.forall_mem_map.mpr fun _ _ => rfl) (List.forall_mem_map.mpr fun _ _ => rfl)
    (head_nodeFields x) (head_nodeFields y) hrest
  obtain ⟨hhash, hversion⟩ := stateField_inj (hx.chain _ x.node_mem_chain).state_hash
    (hy.chain _ y.node_mem_chain).state_hash hstate
  have hrate : x.sample_rate = y.sample_rate := Int.ofNat.inj (decimal_inj hsr)
  have htag := String.toList_inj.mp hver
  have hkeyed : (timelineClips x.track.clips).map keyedClip =
      (timelineClips y.track.clips).map keyedClip :=
    map_eq_map_of_one (fun c hc c' hc' => clipField_inj (hx.clips c hc) (hy.clips c' hc')) hclips
  rw [StemRequest.keyed, StemRequest.keyed, hrate, htag, hkeyed,
    chain_keyed_eq hinj hshow hx hy hchain hhash hversion]

theorem map_clipText (clips : List ClipDef) :
    clips.map clipText = (clips.map keyedClip).map clipText := by
  rw [List.map_map]
  refine List.map_congr_left fun c _ => ?_
  simp only [Function.comp_apply, clipText, keyedClip, List.map_map]
  rfl

/-- The text has nothing but the fields in the key. -/
theorem text_eq_of_keyed_eq {x y : StemRequest F} (heq : x.keyed = y.keyed) :
    stemKeyText showFloat x = stemKeyText showFloat y := by
  simp only [StemRequest.keyed, Keyed.mk.injEq] at heq
  obtain ⟨hrate, htag, hclips, hchain⟩ := heq
  have hindex : x.node_index = y.node_index := by
    have hlength := congrArg List.length hchain
    rw [List.length_map, List.length_map, x.length_chain, y.length_chain] at hlength
    exact Nat.succ.inj hlength
  have hlast : ∀ r : StemRequest F,
      (r.chain.map keyedProcessor)[r.node_index]? = some (keyedProcessor r.node) := by
    intro r
    have hlt : r.node_index < r.chain.length := by
      rw [r.length_chain]
      exact Nat.lt_succ_self _
    rw [List.getElem?_map, List.getElem?_eq_getElem hlt, r.getElem_chain hlt, Option.map_some]
  have hnode : keyedProcessor x.node = keyedProcessor y.node := by
    have hx := hlast x
    rw [hchain, hindex, hlast y] at hx
    exact (Option.some.inj hx).symm
  rw [keyedProcessor, keyedProcessor] at hnode
  obtain ⟨-, -, huid, -, -, hhash, hversion, -⟩ := ProcessorDef.mk.inj hnode
  have hnodes : ∀ r : StemRequest F,
      r.chain.mapIdx (fun i p => nodeText showFloat r.node_index i p) =
        (r.chain.map keyedProcessor).mapIdx fun i p => nodeText showFloat r.node_index i p := by
    intro r
    apply List.ext_getElem
    · rw [List.length_mapIdx, List.length_mapIdx, List.length_map]
    · intro i _ _
      rw [List.getElem_mapIdx, List.getElem_mapIdx, List.getElem_map]
      rfl
  rw [stemKeyText, stemKeyText, hrate, htag, huid, hhash, hversion, map_clipText, hclips,
    ← map_clipText, hnodes x, hchain, hindex, ← hnodes y]

end Request

end Decode

section Reads

variable {F D : Type}

/-- The points of the curve that `laneValueFor` finds for a parameter. -/
def appliedPoints (lanes : List (AutomationLaneDef F)) (param : String) :
    Option (List (AutomationPointDef F)) :=
  lanes.findSome? fun lane =>
    if lane.processor_id ≠ "" ∨ lane.param ≠ param then none
    else if lane.enabled = false ∨ lane.points.isEmpty then none
    else some lane.points

/-- `resolveStemSubstitution`: the stem of the last node whose plugin is
missing. -/
def substitutedStem (resolvable : String → Bool) (chain : List (ProcessorDef F)) :
    Option (String × Int) :=
  match chain.reverse.find? fun p => p.type == "vst3" && !p.bypass && !resolvable p.uid with
  | none => none
  | some node =>
      if node.stem_hash = "" then none else some (node.stem_hash, node.stem_latency_samples)

/-- The fields of a node that shape its sound. -/
def builtProcessor (p : ProcessorDef F) : ProcessorDef F where
  type := p.type
  uid := p.uid
  bypass := p.bypass
  params := p.params
  state_hash := p.state_hash

/-- The fields of a track that `buildGraph` reads, without the names of things.
-/
structure TrackReads (F : Type) where
  gain : F
  pan : F
  gain_lane : Option (List (AutomationPointDef F))
  pan_lane : Option (List (AutomationPointDef F))
  stem : Option (String × Int)
  clips : List ClipDef
  chain : List (ProcessorDef F)
deriving DecidableEq

/-- The fields of a document that `buildGraph` reads. -/
structure StemReads (F : Type) where
  sample_rate : Nat
  tempo : Int
  master_gain : F
  master_lane : Option (List (AutomationPointDef F))
  tracks : List (TrackReads F)
deriving DecidableEq

def TrackDef.reads (resolvable : String → Bool) (track : TrackDef F) : TrackReads F where
  gain := track.gain
  pan := track.pan
  gain_lane := appliedPoints track.automation "gain"
  pan_lane := appliedPoints track.automation "pan"
  stem := substitutedStem resolvable track.chain
  clips := (timelineClips track.clips).map keyedClip
  chain := track.chain.map builtProcessor

def ProjectDef.reads (resolvable : String → Bool) (sample_rate : Nat) (doc : ProjectDef F) :
    StemReads F where
  sample_rate := sample_rate
  tempo := doc.tempo
  master_gain := doc.master_gain
  master_lane := appliedPoints doc.automation "gain"
  tracks := doc.tracks.map (TrackDef.reads resolvable)

variable [Floats F D]

/-- The fields that the render reads and the key does not have, as the reduced
document gives them. -/
@[ext]
structure Unkeyed (F : Type) where
  gain_lane : Option (List (AutomationPointDef F))
  pan_lane : Option (List (AutomationPointDef F))
  stem : Option (String × Int)
  clips : List ClipDef

def StemRequest.unkeyed (resolvable : String → Bool) (r : StemRequest F) : Unkeyed F where
  gain_lane := appliedPoints (r.track.automation.map echoLane) "gain"
  pan_lane := appliedPoints (r.track.automation.map echoLane) "pan"
  stem := substitutedStem resolvable (r.chain.map echoProcessor)
  clips := (r.track.clips.map echoClip).map keyedClip

variable [OfNat F 0] [OfNat F 1]

/-- The document that is rendered for a request. -/
def StemRequest.document (r : StemRequest F) : AmValue D :=
  addTrack (create (F := F) r.sample_rate) (reduceTrack r.track r.node_index)

/-- `renderTrackStem` renders this document for a node of a project. -/
theorem reducedDocument_eq (project : ProjectDef F) (r : StemRequest F) {track_id node_id : String}
    (htrack : project.tracks.find? (fun t => t.id == track_id) = some r.track)
    (hnode : r.track.chain.findIdx? (fun node => node.id == node_id) = some r.node_index)
    (hrate : r.sample_rate = project.sample_rate) :
    reducedDocument project track_id node_id = .ok r.document := by
  simp only [reducedDocument, htrack, hnode, StemRequest.document, hrate]

/-- What the render of a stem reads. -/
def StemRequest.reads (resolvable : String → Bool) (r : StemRequest F) : Option (StemReads F) :=
  (renderedProject r.document).map (ProjectDef.reads resolvable r.sample_rate)

theorem StemRequest.reads_eq (resolvable : String → Bool) (r : StemRequest F) :
    r.reads resolvable = some
      { sample_rate := r.sample_rate
        tempo := 120000
        master_gain := 1
        master_lane := none
        tracks :=
          [{ gain := 1
             pan := 0
             gain_lane := (r.unkeyed resolvable).gain_lane
             pan_lane := (r.unkeyed resolvable).pan_lane
             stem := (r.unkeyed resolvable).stem
             clips := (r.unkeyed resolvable).clips
             chain := (r.chain.map echoProcessor).map builtProcessor }] } := by
  have htimeline : timelineClips (r.track.clips.map echoClip) = r.track.clips.map echoClip := by
    rw [timelineClips, List.filter_eq_self]
    intro c hc
    obtain ⟨clip, -, rfl⟩ := List.mem_map.mp hc
    rfl
  rw [StemRequest.reads, StemRequest.document, renderedProject_create, Option.map_some,
    ProjectDef.reads, tempo_addTrack_create, getDocument_addTrack_create, readTrack_writeTrack]
  simp only [List.map_cons, List.map_nil, TrackDef.reads, reduceTrack, htimeline]
  rfl

/-- With the same fields in the key, two renders read the same exactly when the
other fields are the same. -/
theorem StemRequest.reads_eq_iff (resolvable : String → Bool) {x y : StemRequest F}
    (hkeyed : x.keyed = y.keyed) :
    x.reads resolvable = y.reads resolvable ↔ x.unkeyed resolvable = y.unkeyed resolvable := by
  have hrate : x.sample_rate = y.sample_rate := congrArg Keyed.sample_rate hkeyed
  have hbuilt : ∀ chain : List (ProcessorDef F), (chain.map echoProcessor).map builtProcessor =
      ((chain.map keyedProcessor).map echoProcessor).map builtProcessor := by
    intro chain
    rw [List.map_map, List.map_map, List.map_map]
    exact List.map_congr_left fun p _ => rfl
  have hchain : (x.chain.map echoProcessor).map builtProcessor =
      (y.chain.map echoProcessor).map builtProcessor := by
    rw [hbuilt x.chain, hbuilt y.chain]
    exact congrArg (fun chain => (chain.map echoProcessor).map builtProcessor)
      (congrArg Keyed.chain hkeyed)
  rw [x.reads_eq, y.reads_eq]
  constructor
  · intro hreads
    simp only [Option.some.injEq, StemReads.mk.injEq, List.cons.injEq, TrackReads.mk.injEq,
      true_and, and_true] at hreads
    obtain ⟨-, hgain, hpan, hstem, hclips, -⟩ := hreads
    exact Unkeyed.ext hgain hpan hstem hclips
  · intro hunkeyed
    rw [hunkeyed, hrate, hchain]

/-- Without a separator in a text and without a collision of the digest, two
keys are equal exactly when the fields in the key are, and the renders under
equal keys read the same exactly when these fields determine the other ones. -/
theorem stemKey_complete_iff {showFloat : F → String} (sha256Hex : String → String)
    (hinj : Function.Injective showFloat) (hshow : ∀ v, Plain (showFloat v))
    (resolvable : String → Bool) {x y : StemRequest F} (hx : x.Plain) (hy : y.Plain)
    (hsha : sha256Hex (stemKeyText showFloat x) = sha256Hex (stemKeyText showFloat y) →
      stemKeyText showFloat x = stemKeyText showFloat y) :
    (computeStemKey showFloat sha256Hex x = computeStemKey showFloat sha256Hex y ↔
        x.keyed = y.keyed) ∧
      ((computeStemKey showFloat sha256Hex x = computeStemKey showFloat sha256Hex y →
          x.reads resolvable = y.reads resolvable) ↔
        (x.keyed = y.keyed → x.unkeyed resolvable = y.unkeyed resolvable)) := by
  have hkey : computeStemKey showFloat sha256Hex x = computeStemKey showFloat sha256Hex y ↔
      x.keyed = y.keyed := by
    constructor
    · intro heq
      exact keyed_eq_of_text_eq hinj hshow hx hy (hsha heq)
    · intro hkeyed
      exact congrArg sha256Hex (text_eq_of_keyed_eq hkeyed)
  refine ⟨hkey, ?_⟩
  rw [hkey]
  exact forall_congr' fun hkeyed => StemRequest.reads_eq_iff resolvable hkeyed

end Reads

section Example

instance : Floats ℤ ℤ where
  widen := id
  narrow := id
  ofInt := Binary64.ofInt
  toInt := id
  narrow_widen := fun _ => rfl
  toInt_ofInt := fun _ => Iff.rfl

/-- A plugin with one parameter. -/
def paramRequest (value : ℤ) : StemRequest ℤ where
  track := { gain := 1, pan := 0, chain := [{ type := "vst3", params := [("0", value)] }] }
  node_index := 0
  hnode := Nat.zero_lt_one
  sample_rate := 48000
  module_version_tag := ""

/-- The digest of the texts for the values 1 and 2. -/
def paramDigest (text : String) : String :=
  if text = "stem-v2|sr=48000|uid=|ver=|state=:0|node=vst3,,0,0=1" then
    "17ed8202a26ff7280b0ede3765ad8998d9837b8116c9b02a0e31e4862dfaf0ce"
  else "81b37c972a577efe802af2c7c8a8a54f071e1b3228804d3deceebfc25f1157cf"

theorem plain_paramRequest (value : ℤ) : (paramRequest value).Plain where
  module_version_tag := fun _ _ => List.not_mem_nil
  clips := nofun
  chain := by
    have htype : Plain "vst3" := by decide
    have hkey : Plain "0" := by decide
    intro p hp
    rw [List.mem_singleton.mp hp]
    refine ⟨htype, fun _ _ => List.not_mem_nil, fun _ _ => List.not_mem_nil, ?_⟩
    intro q hq
    rw [List.mem_singleton.mp hq]
    exact hkey

/-- Two values of a parameter have two keys. -/
theorem stemKey_complete_param :
    ¬computeStemKey Int.repr paramDigest (paramRequest 1) =
        computeStemKey Int.repr paramDigest (paramRequest 2) ∧
      (computeStemKey Int.repr paramDigest (paramRequest 1) =
          computeStemKey Int.repr paramDigest (paramRequest 2) →
        (paramRequest 1).reads (fun _ => true) = (paramRequest 2).reads fun _ => true) := by
  have hinj : Function.Injective Int.repr := fun _ _ heq => decimal_inj (congrArg String.toList heq)
  have hshow : ∀ v : ℤ, Plain v.repr := fun v c hc => not_mem_decimal_of_separator hc v
  have hne : (paramRequest 1).keyed.chain ≠ (paramRequest 2).keyed.chain := by decide
  obtain ⟨hkey, hcomplete⟩ := stemKey_complete_iff paramDigest hinj hshow (fun _ => true)
    (plain_paramRequest 1) (plain_paramRequest 2) (by decide)
  refine ⟨fun heq => hne (congrArg Keyed.chain (hkey.mp heq)), hcomplete.mpr ?_⟩
  exact fun hkeyed => absurd (congrArg Keyed.chain hkeyed) hne

/-- A plugin alone on a track with the given curves. -/
def curveRequest (automation : List (AutomationLaneDef ℚ)) : StemRequest ℚ where
  track := { gain := 1, pan := 0, chain := [{ type := "vst3" }], automation := automation }
  node_index := 0
  hnode := Nat.zero_lt_one
  sample_rate := 48000
  module_version_tag := ""

/-- A plugin after a node of the given type and plugin. -/
def afterRequest (type uid : String) : StemRequest ℚ where
  track := { gain := 1, pan := 0, chain := [{ type := type, uid := uid }, { type := "vst3" }] }
  node_index := 1
  hnode := Nat.one_lt_two
  sample_rate := 48000
  module_version_tag := ""

/-- A fade of the track is in the render and not in the key, and a separator in
a text gives one text to two requests. -/
theorem not_stemKey_complete :
    (∃ x y : StemRequest ℚ, (∀ showFloat sha256Hex,
        computeStemKey showFloat sha256Hex x = computeStemKey showFloat sha256Hex y) ∧
      ∀ resolvable, x.reads resolvable ≠ y.reads resolvable) ∧
    ∃ x y : StemRequest ℚ, (∀ showFloat, stemKeyText showFloat x = stemKeyText showFloat y) ∧
      x.keyed.chain ≠ y.keyed.chain := by
  have hkeyed : (curveRequest [{ param := "gain", points := [⟨0, 0⟩, ⟨480, 1 / 2⟩] }]).keyed =
      (curveRequest []).keyed := rfl
  refine ⟨⟨_, _, fun showFloat sha256Hex => congrArg sha256Hex (text_eq_of_keyed_eq hkeyed), ?_⟩,
    ⟨afterRequest "vst3,a" "b", afterRequest "vst3" "a,b", ?_, ?_⟩⟩
  · intro resolvable hreads
    have hunkeyed := (StemRequest.reads_eq_iff resolvable hkeyed).mp hreads
    exact Option.some_ne_none _ (congrArg Unkeyed.gain_lane hunkeyed)
  · intro showFloat
    apply String.toList_inj.mp
    rw [toList_stemKeyText, toList_stemKeyText]
    rfl
  · decide

end Example

end DawProject.Engine
