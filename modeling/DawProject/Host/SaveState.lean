import DawProject.Lib.Bytes
import DawProject.Lib.Run
import Mathlib.Data.List.Infix

/-!
The state of a plugin, saved and restored through a file: `state_file.h`,
`PluginBridge::saveState` and `restartChild` of
`engine/src/host/plugin_bridge.cpp`, and `serveStateRequest` and the start of
`plugin_host_main.cpp`. Both processes write the file, a write may stop
anywhere, and the child may die at any time. A state that is saved is one the
plugin gave for that very request, and a child restores the staged state, a
state that was written whole, or nothing.
-/

namespace DawProject.Host.SaveState

section Format

def writeStateFile (comp : List UInt8) : List UInt8 :=
  Bytes.leBytes 4 comp.length ++ comp ++ Bytes.leBytes 4 0

def maxStateBytes : Nat := 64 * 2 ^ 20

/-- The second length is not read. -/
def readStateFile (file : List UInt8) : Option (List UInt8) :=
  if file.length < 4 then none
  else
    let comp_len := Bytes.ofLE (file.take 4)
    if maxStateBytes < comp_len then none
    else
      let comp := (file.drop 4).take comp_len
      if comp.length = comp_len ∨ comp_len = 0 then some comp else none

end Format

/-- A state that the plugin gave, and the request it was asked for. -/
structure Given where
  request : Nat
  data : List UInt8

/-- A state that `saveState` returned. -/
structure Saved where
  request : Nat
  data : List UInt8

/-- What a child found when it started, and what was staged for it. -/
structure Restored where
  staged : List UInt8
  data : Option (List UInt8)

inductive Engine where
  | idle
  | waiting (request : Nat)
  | reading (request : Nat)
  /-- Writes the staged state. -/
  | staging

inductive Child where
  | dead
  | starting (staged : List UInt8)
  | serving
  | asking (request : Nat)
  | writing (request : Nat) (data : List UInt8)
  | removing (request : Nat)
  | answering (request : Nat)

/-- The bridge, the child and the file between them. `given`, `staged`, `saved` and
`restored` hold what has happened; no step reads them. -/
structure Bridge where
  state_request_seq : Nat := 0
  state_ready_seq : Nat := 0
  file : Option (List UInt8) := none
  pending_state_ : List UInt8 := []
  engine : Engine := .idle
  child : Child := .dead
  given : List Given := []
  staged : List (List UInt8) := []
  saved : List Saved := []
  restored : List Restored := []

inductive Step : Bridge → Bridge → Prop where
  | setPendingState {s : Bridge} (blob : List UInt8) (hengine : s.engine = .idle) :
      Step s { s with pending_state_ := blob, staged := s.staged ++ [blob] }
  | saveState {s : Bridge} (hengine : s.engine = .idle) :
      Step s
        { s with
          state_request_seq := s.state_request_seq + 1
          engine := .waiting (s.state_request_seq + 1) }
  /-- The time is over, or the child is dead. -/
  | giveUp {s : Bridge} {request : Nat} (hengine : s.engine = .waiting request)
      (hready : s.state_ready_seq < request) : Step s { s with engine := .idle }
  | ready {s : Bridge} {request : Nat} (hengine : s.engine = .waiting request)
      (hready : request ≤ s.state_ready_seq) : Step s { s with engine := .reading request }
  | read {s : Bridge} {request : Nat} {out : List UInt8} (hengine : s.engine = .reading request)
      (hfile : s.file.bind readStateFile = some out) :
      Step s { s with engine := .idle, saved := s.saved ++ [⟨request, out⟩] }
  | refused {s : Bridge} {request : Nat} (hengine : s.engine = .reading request)
      (hfile : s.file.bind readStateFile = none) : Step s { s with engine := .idle }
  /-- A new child, with nothing staged. -/
  | spawn {s : Bridge} (hengine : s.engine = .idle) (hchild : s.child = .dead)
      (hpending : s.pending_state_ = []) : Step s { s with child := .starting [] }
  | stage {s : Bridge} (hengine : s.engine = .idle) (hchild : s.child = .dead)
      (hpending : s.pending_state_ ≠ []) : Step s { s with engine := .staging, file := some [] }
  | stageMore {s : Bridge} {old new : List UInt8} (hengine : s.engine = .staging)
      (hfile : s.file = some old) (hold : old <+: new)
      (hnew : new <+: writeStateFile s.pending_state_) : Step s { s with file := some new }
  | stageFail {s : Bridge} (hengine : s.engine = .staging) : Step s { s with engine := .idle }
  | staged {s : Bridge} (hengine : s.engine = .staging)
      (hfile : s.file = some (writeStateFile s.pending_state_)) :
      Step s { s with engine := .idle, child := .starting s.pending_state_ }
  | die {s : Bridge} : Step s { s with child := .dead }
  | restore {s : Bridge} {staged : List UInt8} (hchild : s.child = .starting staged) :
      Step s
        { s with
          child := .serving
          restored := s.restored ++ [⟨staged, s.file.bind readStateFile⟩] }
  | ask {s : Bridge} (hchild : s.child = .serving)
      (hrequest : s.state_request_seq ≠ s.state_ready_seq) :
      Step s { s with child := .asking s.state_request_seq }
  | give {s : Bridge} {request : Nat} (data : List UInt8) (hchild : s.child = .asking request) :
      Step s
        { s with
          child := .writing request data
          file := some []
          given := s.given ++ [⟨request, data⟩] }
  | refuse {s : Bridge} {request : Nat} (hchild : s.child = .asking request) :
      Step s { s with child := .removing request }
  | write {s : Bridge} {request : Nat} {data old new : List UInt8}
      (hchild : s.child = .writing request data) (hfile : s.file = some old) (hold : old <+: new)
      (hnew : new <+: writeStateFile data) : Step s { s with file := some new }
  | writeFail {s : Bridge} {request : Nat} {data : List UInt8}
      (hchild : s.child = .writing request data) : Step s { s with child := .removing request }
  | written {s : Bridge} {request : Nat} {data : List UInt8}
      (hchild : s.child = .writing request data) (hfile : s.file = some (writeStateFile data)) :
      Step s { s with child := .answering request }
  | remove {s : Bridge} {request : Nat} (hchild : s.child = .removing request) :
      Step s { s with file := none, child := .answering request }
  | answer {s : Bridge} {request : Nat} (hchild : s.child = .answering request) :
      Step s { s with state_ready_seq := request, child := .serving }

/-- The header of the file holds the length of a state. -/
def Fits (data : List UInt8) : Prop := data.length < 2 ^ 32

/-- What is saved is what the plugin gave for the request, and what is restored was
staged or given, and is the staged state where there is one. -/
structure Bridge.Kept (s : Bridge) : Prop where
  order : (s.saved.map Saved.request).Pairwise (· < ·)
  saved : ∀ r ∈ s.saved, ∃ g ∈ s.given, g.request = r.request ∧ (Fits g.data → r.data = g.data)
  restored : ∀ r ∈ s.restored, ∀ data ∈ r.data, ∃ whole,
    (whole ∈ s.given.map Given.data ∨ whole ∈ s.staged) ∧ (Fits whole → data = whole)
  staged : ∀ r ∈ s.restored, r.staged ≠ [] → r.staged.length ≤ maxStateBytes →
    r.data = some r.staged

section Format

/-- A file that was cut off is read as what was to be written, or not at all. -/
theorem readStateFile_of_prefix {file comp out : List UInt8} (hfile : file <+: writeStateFile comp)
    (hfits : Fits comp) (hread : readStateFile file = some out) : out = comp := by
  obtain ⟨rest, hrest⟩ := hfile
  unfold readStateFile at hread
  split at hread
  · cases hread
  · rename_i hlong
    have hsize : (Bytes.leBytes 4 comp.length).length = 4 := Bytes.length_leBytes _ _
    have htake : file.take 4 = Bytes.leBytes 4 comp.length := by
      have hboth := congrArg (List.take 4) hrest
      rw [List.take_append_of_le_length (by omega)] at hboth
      rw [hboth, writeStateFile, List.append_assoc, List.take_left' hsize]
    have hdrop : file.drop 4 ++ rest = comp ++ Bytes.leBytes 4 0 := by
      have hboth := congrArg (List.drop 4) hrest
      rw [List.drop_append_of_le_length (by omega)] at hboth
      rw [hboth, writeStateFile, List.append_assoc, List.drop_left' hsize]
    have hvalue : Bytes.ofLE (file.take 4) = comp.length := by
      rw [htake, Bytes.ofLE_leBytes]
      exact Nat.mod_eq_of_lt hfits
    dsimp only at hread
    rw [hvalue] at hread
    split at hread
    · cases hread
    · split at hread
      · rename_i hwhole
        obtain rfl := Option.some.inj hread
        rcases hwhole with hlength | hzero
        · have hle : comp.length ≤ (file.drop 4).length := by
            rw [List.length_take] at hlength
            omega
          have hboth := congrArg (List.take comp.length) hdrop
          rwa [List.take_append_of_le_length hle, List.take_left] at hboth
        · rw [hzero, List.take_zero, List.length_eq_zero_iff.mp hzero]
      · cases hread

/-- A state of up to 64 MB is read back. -/
theorem readStateFile_writeStateFile {comp : List UInt8} (hlength : comp.length ≤ maxStateBytes) :
    readStateFile (writeStateFile comp) = some comp := by
  have hsize : (Bytes.leBytes 4 comp.length).length = 4 := Bytes.length_leBytes _ _
  have hfits : comp.length < 256 ^ 4 := by
    unfold maxStateBytes at hlength
    omega
  have hvalue : Bytes.ofLE (Bytes.leBytes 4 comp.length) = comp.length := by
    rw [Bytes.ofLE_leBytes]
    exact Nat.mod_eq_of_lt hfits
  unfold readStateFile writeStateFile
  rw [if_neg (by simp), List.append_assoc, List.take_left' hsize, List.drop_left' hsize]
  dsimp only
  rw [hvalue, if_neg (by omega), List.take_left, if_pos (Or.inl rfl)]

end Format

section Invariant

variable (s : Bridge)

/-- What a file may be made of. -/
def Bridge.Known (whole : List UInt8) : Prop :=
  whole ∈ s.given.map Given.data ∨ whole ∈ s.staged

/-- The file holds what the plugin gave for the request, if it holds anything. -/
def Bridge.Answered (request : Nat) : Prop :=
  ∀ file ∈ s.file, ∃ g ∈ s.given, g.request = request ∧ file = writeStateFile g.data

/-- The child serves a request that has no answer yet. -/
def Bridge.Busy (request : Nat) : Prop :=
  s.state_ready_seq < request ∧ request ≤ s.state_request_seq

/-- The request is the last one, and later than all that were answered. -/
def Bridge.Asked (request : Nat) : Prop :=
  request = s.state_request_seq ∧ ∀ r ∈ s.saved, r.request < request

def Bridge.EngineAt : Engine → Prop
  | .idle => True
  | .waiting request => s.Asked request ∧ (s.state_ready_seq = request → s.Answered request)
  | .reading request => s.Asked request ∧ s.state_ready_seq = request ∧ s.Answered request
  | .staging => s.child = .dead ∧ s.pending_state_ ≠ [] ∧
      ∃ file, s.file = some file ∧ file <+: writeStateFile s.pending_state_

def Bridge.ChildAt : Child → Prop
  | .dead | .serving => True
  | .starting staged => staged ≠ [] → s.file = some (writeStateFile staged)
  | .asking request | .removing request => s.Busy request
  | .writing request data => s.Busy request ∧ ⟨request, data⟩ ∈ s.given ∧
      ∃ file, s.file = some file ∧ file <+: writeStateFile data
  | .answering request => s.Busy request ∧ s.Answered request

structure Inv : Prop where
  ready_le : s.state_ready_seq ≤ s.state_request_seq
  engine : s.EngineAt s.engine
  child : s.ChildAt s.child
  file : ∀ file ∈ s.file, ∃ whole, s.Known whole ∧ file <+: writeStateFile whole
  pending : s.pending_state_ ≠ [] → s.pending_state_ ∈ s.staged
  le_request : ∀ r ∈ s.saved, r.request ≤ s.state_request_seq
  kept : s.Kept

end Invariant

section Preserved

variable {s next : Bridge} {request : Nat} {data : List UInt8}

theorem Bridge.Kept.grow (h : s.Kept) (hgiven : ∀ g ∈ s.given, g ∈ next.given)
    (hstaged : ∀ d ∈ s.staged, d ∈ next.staged) (hsaved : next.saved = s.saved)
    (hrestored : next.restored = s.restored) : next.Kept where
  order := by
    rw [hsaved]
    exact h.order
  saved := by
    intro r hr
    rw [hsaved] at hr
    obtain ⟨g, hg, hdata⟩ := h.saved r hr
    exact ⟨g, hgiven g hg, hdata⟩
  restored := by
    intro r hr data hdata
    rw [hrestored] at hr
    obtain ⟨whole, hknown, heq⟩ := h.restored r hr data hdata
    refine ⟨whole, hknown.imp ?_ (hstaged whole), heq⟩
    intro hmem
    obtain ⟨g, hg, rfl⟩ := List.mem_map.mp hmem
    exact List.mem_map_of_mem (hgiven g hg)
  staged := by
    rw [hrestored]
    exact h.staged

theorem Bridge.Known.grow {whole : List UInt8} (h : s.Known whole)
    (hgiven : ∀ g ∈ s.given, g ∈ next.given) (hstaged : ∀ d ∈ s.staged, d ∈ next.staged) :
    next.Known whole := by
  refine h.imp ?_ (hstaged whole)
  intro hmem
  obtain ⟨g, hg, rfl⟩ := List.mem_map.mp hmem
  exact List.mem_map_of_mem (hgiven g hg)

/-- While the child serves a request, the engine is not at the file. -/
theorem Inv.engine_of_busy (h : Inv s) (hbusy : s.Busy request) (halive : s.child ≠ .dead)
    (hengine : next.engine = s.engine) (hrequest : next.state_request_seq = s.state_request_seq)
    (hready : next.state_ready_seq = s.state_ready_seq) (hsaved : next.saved = s.saved) :
    next.EngineAt next.engine := by
  have hat := h.engine
  obtain ⟨hlt, hle⟩ := hbusy
  rw [hengine]
  cases hstate : s.engine with
  | idle => trivial
  | waiting r =>
      rw [hstate] at hat
      obtain ⟨⟨hlast, hlater⟩, -⟩ := hat
      refine ⟨⟨hlast.trans hrequest.symm, hsaved ▸ hlater⟩, ?_⟩
      intro heq
      omega
  | reading r =>
      rw [hstate] at hat
      obtain ⟨⟨hlast, -⟩, heq, -⟩ := hat
      omega
  | staging =>
      rw [hstate] at hat
      exact absurd hat.1 halive

/-- The child moves on while it serves a request. -/
theorem Inv.serve (h : Inv s) (hbusy : s.Busy request) (halive : s.child ≠ .dead) {child : Child}
    {file : Option (List UInt8)} {given : List Given} (hgiven : ∀ g ∈ s.given, g ∈ given)
    (hfile : ∀ f ∈ file, f ∈ s.file ∨ ∃ g ∈ given, f <+: writeStateFile g.data)
    (hchild : Bridge.ChildAt { s with file := file, given := given, child := child } child) :
    Inv { s with file := file, given := given, child := child } where
  ready_le := h.ready_le
  engine := h.engine_of_busy hbusy halive rfl rfl rfl rfl
  child := hchild
  file := by
    intro f hf
    rcases hfile f hf with hold | ⟨g, hg, hprefix⟩
    · obtain ⟨whole, hknown, hprefix⟩ := h.file f hold
      exact ⟨whole, hknown.grow hgiven fun _ hd => hd, hprefix⟩
    · exact ⟨g.data, .inl (List.mem_map_of_mem hg), hprefix⟩
  pending := h.pending
  le_request := h.le_request
  kept := h.kept.grow hgiven (fun _ hd => hd) rfl rfl

/-- The engine moves on, and the file stays. -/
theorem Inv.turn (h : Inv s) {engine : Engine}
    (hengine : Bridge.EngineAt { s with engine := engine } engine) :
    Inv { s with engine := engine } where
  ready_le := h.ready_le
  engine := hengine
  child := by
    have hchild := h.child
    cases hstate : s.child <;> rw [hstate] at hchild <;> exact hchild
  file := h.file
  pending := h.pending
  le_request := h.le_request
  kept := h.kept.grow (fun _ hg => hg) (fun _ hd => hd) rfl rfl

/-- The child moves on, and the file stays. -/
theorem Inv.move (h : Inv s) {child : Child} (halive : s.child ≠ .dead ∨ child = .dead)
    (hchild : Bridge.ChildAt { s with child := child } child) : Inv { s with child := child } where
  ready_le := h.ready_le
  engine := by
    have hat := h.engine
    cases hstate : s.engine with
    | idle => trivial
    | waiting r =>
        rw [hstate] at hat
        exact hat
    | reading r =>
        rw [hstate] at hat
        exact hat
    | staging =>
        rw [hstate] at hat
        rcases halive with halive | hdead
        · exact absurd hat.1 halive
        · exact ⟨hdead, hat.2⟩
  child := hchild
  file := h.file
  pending := h.pending
  le_request := h.le_request
  kept := h.kept.grow (fun _ hg => hg) (fun _ hd => hd) rfl rfl

theorem Inv.setPendingState (h : Inv s) (blob : List UInt8) (hengine : s.engine = .idle) :
    Inv { s with pending_state_ := blob, staged := s.staged ++ [blob] } where
  ready_le := h.ready_le
  engine := by
    rw [hengine]
    trivial
  child := by
    have hchild := h.child
    cases hstate : s.child <;> rw [hstate] at hchild <;> exact hchild
  file := by
    intro f hf
    obtain ⟨whole, hknown, hprefix⟩ := h.file f hf
    exact ⟨whole, hknown.grow (fun _ hg => hg) fun _ hd => List.mem_append_left _ hd, hprefix⟩
  pending := fun _ => List.mem_append_right _ List.mem_cons_self
  le_request := h.le_request
  kept := h.kept.grow (fun _ hg => hg) (fun _ hd => List.mem_append_left _ hd) rfl rfl

theorem Bridge.Busy.grow (h : s.Busy request) :
    Bridge.Busy { s with state_request_seq := s.state_request_seq + 1 } request :=
  ⟨h.1, Nat.le_succ_of_le h.2⟩

/-- A new request has no answer yet. -/
theorem Inv.saveState (h : Inv s) :
    Inv
      { s with
        state_request_seq := s.state_request_seq + 1
        engine := .waiting (s.state_request_seq + 1) } where
  ready_le := Nat.le_succ_of_le h.ready_le
  engine := by
    refine ⟨⟨rfl, fun r hr => Nat.lt_succ_of_le (h.le_request r hr)⟩, ?_⟩
    intro hready
    have hle := h.ready_le
    dsimp only at hready
    omega
  child := by
    have hchild := h.child
    cases hstate : s.child with
    | dead => trivial
    | serving => trivial
    | starting staged =>
        rw [hstate] at hchild
        exact hchild
    | asking r =>
        rw [hstate] at hchild
        exact hchild.grow
    | removing r =>
        rw [hstate] at hchild
        exact hchild.grow
    | writing r data =>
        rw [hstate] at hchild
        exact ⟨hchild.1.grow, hchild.2⟩
    | answering r =>
        rw [hstate] at hchild
        exact ⟨hchild.1.grow, hchild.2⟩
  file := h.file
  pending := h.pending
  le_request := fun r hr => Nat.le_succ_of_le (h.le_request r hr)
  kept := h.kept.grow (fun _ hg => hg) (fun _ hd => hd) rfl rfl

/-- What is read is what the plugin gave for the request. -/
theorem Inv.read (h : Inv s) {out : List UInt8} (hengine : s.engine = .reading request)
    (hfile : s.file.bind readStateFile = some out) :
    Inv { s with engine := .idle, saved := s.saved ++ [⟨request, out⟩] } := by
  have hat := h.engine
  rw [hengine] at hat
  obtain ⟨⟨hlast, hlater⟩, -, hanswered⟩ := hat
  obtain ⟨file, hsome, hread⟩ := Option.bind_eq_some_iff.mp hfile
  obtain ⟨g, hg, hrequest, rfl⟩ := hanswered file hsome
  have hchild := h.child
  refine ⟨h.ready_le, trivial, ?_, h.file, h.pending, ?_, ?_⟩
  · cases hstate : s.child <;> rw [hstate] at hchild <;> exact hchild
  · intro r hr
    rcases List.mem_append.mp hr with hold | hnew
    · exact h.le_request r hold
    · rw [List.mem_singleton.mp hnew]
      exact hlast.le
  · refine ⟨?_, ?_, h.kept.restored, h.kept.staged⟩
    · show ((s.saved ++ _).map Saved.request).Pairwise (· < ·)
      rw [List.map_append, List.pairwise_append]
      refine ⟨h.kept.order, List.pairwise_singleton _ _, ?_⟩
      intro a ha b hb
      obtain ⟨r, hr, rfl⟩ := List.mem_map.mp ha
      rw [List.mem_singleton.mp hb]
      exact hlater r hr
    · intro r hr
      rcases List.mem_append.mp hr with hold | hnew
      · exact h.kept.saved r hold
      · rw [List.mem_singleton.mp hnew]
        exact ⟨g, hg, hrequest, fun hfits =>
          readStateFile_of_prefix (List.prefix_refl _) hfits hread⟩

/-- The engine writes the staged state while there is no child. -/
theorem Inv.stage (h : Inv s) (hchild : s.child = .dead) (hpending : s.pending_state_ ≠ [])
    {new : List UInt8} (hnew : new <+: writeStateFile s.pending_state_) :
    Inv { s with engine := .staging, file := some new } where
  ready_le := h.ready_le
  engine := ⟨hchild, hpending, new, rfl, hnew⟩
  child := by
    rw [hchild]
    trivial
  file := by
    intro f hf
    obtain rfl := Option.some.inj hf
    exact ⟨s.pending_state_, .inr (h.pending hpending), hnew⟩
  pending := h.pending
  le_request := h.le_request
  kept := h.kept.grow (fun _ hg => hg) (fun _ hd => hd) rfl rfl

/-- The child starts on the staged state, and the engine goes on. -/
theorem Inv.spawn (h : Inv s) {staged : List UInt8}
    (hstaged : staged ≠ [] → s.file = some (writeStateFile staged)) :
    Inv { s with engine := .idle, child := .starting staged } where
  ready_le := h.ready_le
  engine := trivial
  child := hstaged
  file := h.file
  pending := h.pending
  le_request := h.le_request
  kept := h.kept.grow (fun _ hg => hg) (fun _ hd => hd) rfl rfl

theorem Inv.restore (h : Inv s) {staged : List UInt8} (hchild : s.child = .starting staged) :
    Inv
      { s with
        child := .serving
        restored := s.restored ++ [⟨staged, s.file.bind readStateFile⟩] } := by
  have hmoved : Inv { s with child := .serving } := h.move (.inl (by simp [hchild])) trivial
  have hat := h.child
  rw [hchild] at hat
  refine ⟨h.ready_le, hmoved.engine, trivial, h.file, h.pending, h.le_request,
    h.kept.order, h.kept.saved, ?_, ?_⟩
  · intro r hr data hdata
    rcases List.mem_append.mp hr with hold | hnew
    · exact h.kept.restored r hold data hdata
    · rw [List.mem_singleton.mp hnew] at hdata
      obtain ⟨file, hsome, hread⟩ := Option.bind_eq_some_iff.mp hdata
      obtain ⟨whole, hknown, hprefix⟩ := h.file file hsome
      exact ⟨whole, hknown, fun hfits => readStateFile_of_prefix hprefix hfits hread⟩
  · intro r hr hne hlength
    rcases List.mem_append.mp hr with hold | hnew
    · exact h.kept.staged r hold hne hlength
    · rw [List.mem_singleton.mp hnew] at hne hlength ⊢
      show s.file.bind readStateFile = some staged
      rw [hat hne, Option.bind_some, readStateFile_writeStateFile hlength]

theorem Inv.answer (h : Inv s) (hchild : s.child = .answering request) :
    Inv { s with state_ready_seq := request, child := .serving } := by
  have hat := h.child
  rw [hchild] at hat
  obtain ⟨⟨hlt, hle⟩, hanswered⟩ := hat
  refine ⟨hle, ?_, trivial, h.file, h.pending, h.le_request,
    h.kept.grow (fun _ hg => hg) (fun _ hd => hd) rfl rfl⟩
  have hengine := h.engine
  show Bridge.EngineAt _ s.engine
  cases hstate : s.engine with
  | idle => trivial
  | waiting r =>
      rw [hstate] at hengine
      refine ⟨hengine.1, ?_⟩
      intro heq
      dsimp only at heq
      rw [← heq]
      exact hanswered
  | reading r =>
      rw [hstate] at hengine
      obtain ⟨⟨hlast, -⟩, heq, -⟩ := hengine
      omega
  | staging =>
      rw [hstate] at hengine
      exact absurd (hchild.symm.trans hengine.1) (by simp)

theorem Inv.step (h : Inv s) (hstep : Step s next) : Inv next := by
  cases hstep with
  | setPendingState blob hengine => exact h.setPendingState blob hengine
  | saveState hengine => exact h.saveState
  | giveUp hengine hready => exact h.turn trivial
  | @ready r hengine hready =>
      have hat := h.engine
      have hle := h.ready_le
      rw [hengine] at hat
      obtain ⟨hasked, hanswered⟩ := hat
      have heq : s.state_ready_seq = r := by
        have hlast := hasked.1
        omega
      exact h.turn ⟨hasked, heq, hanswered heq⟩
  | read hengine hfile => exact h.read hengine hfile
  | refused hengine hfile => exact h.turn trivial
  | spawn hengine hchild hpending =>
      have hspawned : Inv { s with engine := .idle, child := .starting [] } :=
        h.spawn fun hne => absurd rfl hne
      rw [← hengine] at hspawned
      exact hspawned
  | stage hengine hchild hpending => exact h.stage hchild hpending List.nil_prefix
  | stageMore hengine hfile hold hnew =>
      have hat := h.engine
      rw [hengine] at hat
      have hstaged := h.stage hat.1 hat.2.1 hnew
      rw [← hengine] at hstaged
      exact hstaged
  | stageFail hengine => exact h.turn trivial
  | staged hengine hfile => exact h.spawn fun _ => hfile
  | die => exact h.move (.inr rfl) trivial
  | restore hchild => exact h.restore hchild
  | ask hchild hrequest =>
      exact h.move (.inl (by simp [hchild]))
        ⟨lt_of_le_of_ne h.ready_le hrequest.symm, Nat.le_refl _⟩
  | @give r data hchild =>
      have hat := h.child
      rw [hchild] at hat
      refine h.serve hat (by simp [hchild]) (fun g hg => List.mem_append_left _ hg) ?_
        ⟨hat, List.mem_append_right _ List.mem_cons_self, [], rfl, List.nil_prefix⟩
      intro f hf
      obtain rfl := Option.some.inj hf
      exact .inr ⟨⟨r, data⟩, List.mem_append_right _ List.mem_cons_self, List.nil_prefix⟩
  | refuse hchild =>
      have hat := h.child
      rw [hchild] at hat
      exact h.move (.inl (by simp [hchild])) hat
  | @write r data old new hchild hfile hold hnew =>
      have hat := h.child
      rw [hchild] at hat
      have hfiles : ∀ f ∈ some new, f ∈ s.file ∨ ∃ g ∈ s.given, f <+: writeStateFile g.data := by
        intro f hf
        obtain rfl := Option.some.inj hf
        exact .inr ⟨_, hat.2.1, hnew⟩
      have hserved : Inv { s with file := some new, child := .writing r data } :=
        h.serve hat.1 (by simp [hchild]) (fun _ hg => hg) hfiles
          ⟨hat.1, hat.2.1, new, rfl, hnew⟩
      rw [← hchild] at hserved
      exact hserved
  | writeFail hchild =>
      have hat := h.child
      rw [hchild] at hat
      exact h.move (.inl (by simp [hchild])) hat.1
  | @written r data hchild hfile =>
      have hat := h.child
      rw [hchild] at hat
      refine h.move (.inl (by simp [hchild])) ⟨hat.1, ?_⟩
      intro file hsome
      exact ⟨_, hat.2.1, rfl, Option.some.inj (hsome.symm.trans hfile)⟩
  | remove hchild =>
      have hat := h.child
      rw [hchild] at hat
      exact h.serve hat (by simp [hchild]) (fun _ hg => hg) (fun _ hf => by cases hf)
        ⟨hat, fun _ hf => by cases hf⟩
  | answer hchild => exact h.answer hchild

theorem Inv.start : Inv {} where
  ready_le := Nat.le_refl 0
  engine := trivial
  child := trivial
  file := fun _ hf => by cases hf
  pending := fun hne => absurd rfl hne
  le_request := fun _ hr => absurd hr List.not_mem_nil
  kept :=
    ⟨List.Pairwise.nil, fun _ hr => absurd hr List.not_mem_nil,
      fun _ hr => absurd hr List.not_mem_nil, fun _ hr => absurd hr List.not_mem_nil⟩

end Preserved

/-- In every run of the bridge and its children. -/
theorem restored_of_run {s : Bridge} (hrun : Run.Reaches Step {} s) : s.Kept := by
  have hinv : Inv s := hrun.invariant .start fun _ _ hstep h => h.step hstep
  exact hinv.kept

section Example

/-- A child starts and is asked for a state, and the plugin gives one byte. -/
theorem restored_of_run_oneByte :
    ∃ s : Bridge, s.Kept ∧ s.saved.map Saved.data = [[7]] := by
  have hspawned : Run.Reaches Step {} _ := Relation.ReflTransGen.single (.spawn rfl rfl rfl)
  have hserving := hspawned.tail (.restore rfl)
  have hasked := (hserving.tail (.saveState rfl)).tail (.ask rfl Nat.one_ne_zero)
  have hgave := hasked.tail (.give [7] rfl)
  have hwrote := hgave.tail
    (.write rfl rfl List.nil_prefix (List.prefix_refl (writeStateFile [7])))
  have hanswered := (hwrote.tail (.written rfl rfl)).tail (.answer rfl)
  have hready := hanswered.tail (.ready rfl (Nat.le_refl 1))
  exact ⟨_, restored_of_run (hready.tail (.read rfl (readStateFile_writeStateFile (by decide)))), rfl⟩

end Example

end DawProject.Host.SaveState
