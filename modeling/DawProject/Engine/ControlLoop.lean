import DawProject.Lib.Run
import Mathlib.Data.List.Basic
import Mathlib.Order.Basic

/-!
The engine follows the tab: the control loop of `doPlayWithServer` in
`engine/src/main.cpp`, with the callbacks of its connection to the server and the
handler of the switch requests. Three kinds of thread share the document, its
version and the target of a switch. What is played and what is sent is of one
project, the builder comes to the newest document, and the engine comes to the
project that was asked for last.
-/

namespace DawProject.Engine.ControlLoop

section Request

/-- The contract of a project id. -/
def validId (id : String) : Bool :=
  !id.isEmpty && decide (id.length ≤ 64) && id.toList.all fun c =>
    ('A' ≤ c && c ≤ 'Z') || ('a' ≤ c && c ≤ 'z') || ('0' ≤ c && c ≤ '9') || c = '_' || c = '-'

end Request

/-- What has been put into the document: a document or a change of the server, or
a change that the engine authors. -/
structure Put (W : Type) where
  project : String
  data : W
  /-- The version of the document tells of it. -/
  told : Bool
deriving DecidableEq, Repr

/-- Where the network thread is. -/
inductive Callback (W : Type) where
  | idle
  /-- The document has changed, and the lock is released. -/
  | changed (to_push : List (Put W))
  | pushing (to_push : List (Put W))
deriving DecidableEq, Repr

def Callback.to_push {W : Type} : Callback W → List (Put W)
  | .idle => []
  | .changed to_push | .pushing to_push => to_push

def Callback.bumps {W : Type} : Callback W → Bool
  | .changed _ => true
  | _ => false

/-- The connection to the server. -/
structure Socket (W : Type) where
  project : String
  received_initial_ : Bool := false
  callback : Callback W := .idle
deriving DecidableEq, Repr

/-- Where the control loop is. -/
inductive Control (W : Type) where
  | top
  /-- The flag was set. -/
  | reading
  | disconnecting (target : String)
  | resetting (target : String)
  | connecting (target : String)
  | building
  | snapshotting (target_version : Nat)
  | swapping (target_version : Nat) (snapshot : List (Put W))
  | capturing
deriving DecidableEq, Repr

/-- The engine. `requests`, `tried`, `built` and `sent` hold what has happened; no
step reads them. -/
structure PlayWithServer (W : Type) where
  /-- What has been put into the document, once one is loaded. -/
  doc : Option (List (Put W)) := none
  doc_version : Nat := 0
  socket : Option (Socket W) := none
  switch_target : String := ""
  switch_pending : Bool := false
  /-- The handlers that have left their target and have not set the flag. -/
  flagging : Nat := 0
  control : Control W := .top
  current_project : String
  last_built_version : Nat := 0
  requests : List String := []
  /-- The content of this document that was last given to the builder. -/
  tried : List (Put W) := []
  /-- The graphs that were built, with the project of their time. -/
  built : List (String × List (Put W)) := []
  /-- What was sent, with the project of the connection. -/
  sent : List (String × Put W) := []
deriving DecidableEq, Repr

variable {W : Type}

def PlayWithServer.start (project_id : String) : PlayWithServer W :=
  { current_project := project_id, socket := some { project := project_id } }

inductive Step : PlayWithServer W → PlayWithServer W → Prop where
  /-- A handler takes a request, under the lock. -/
  | request {s : PlayWithServer W} (id : String) (hvalid : validId id = true) :
      Step s
        { s with
          switch_target := id
          flagging := s.flagging + 1
          requests := s.requests ++ [id] }
  | flag {s : PlayWithServer W} {flagging : Nat} (hflagging : s.flagging = flagging + 1) :
      Step s { s with switch_pending := true, flagging := flagging }
  /-- The socket opens, for the first time or again. -/
  | opened {s : PlayWithServer W} {k : Socket W} (hsocket : s.socket = some k)
      (hidle : k.callback = .idle) :
      Step s { s with socket := some { k with received_initial_ := false } }
  /-- The first document is adopted. -/
  | adopt {s : PlayWithServer W} {k : Socket W} (data : W) (hsocket : s.socket = some k)
      (hidle : k.callback = .idle) (hinitial : k.received_initial_ = false)
      (hdoc : s.doc = none) :
      Step s
        { s with
          doc := some [⟨k.project, data, true⟩]
          socket := some { k with received_initial_ := true, callback := .changed [] } }
  /-- A later one is merged, and what the server misses is computed. -/
  | merge {s : PlayWithServer W} {k : Socket W} {puts : List (Put W)} (data : W)
      (to_push : List (Put W)) (hsocket : s.socket = some k) (hidle : k.callback = .idle)
      (hinitial : k.received_initial_ = false) (hdoc : s.doc = some puts)
      (hpush : ∀ put ∈ to_push, put ∈ puts) :
      Step s
        { s with
          doc := some (puts ++ [⟨k.project, data, true⟩])
          socket := some { k with received_initial_ := true, callback := .changed to_push } }
  /-- A document that cannot be loaded. -/
  | notLoaded {s : PlayWithServer W} {k : Socket W} (hsocket : s.socket = some k)
      (hidle : k.callback = .idle) (hinitial : k.received_initial_ = false) :
      Step s { s with socket := some { k with received_initial_ := true } }
  /-- The merged document cannot be read: it stays, and nothing tells of it. -/
  | notRead {s : PlayWithServer W} {k : Socket W} {puts : List (Put W)} (data : W)
      (hsocket : s.socket = some k) (hidle : k.callback = .idle)
      (hinitial : k.received_initial_ = false) (hdoc : s.doc = some puts) :
      Step s
        { s with
          doc := some (puts ++ [⟨k.project, data, false⟩])
          socket := some { k with received_initial_ := true } }
  | change {s : PlayWithServer W} {k : Socket W} {puts : List (Put W)} (data : W)
      (hsocket : s.socket = some k) (hidle : k.callback = .idle)
      (hinitial : k.received_initial_ = true) (hdoc : s.doc = some puts) :
      Step s
        { s with
          doc := some (puts ++ [⟨k.project, data, true⟩])
          socket := some { k with callback := .changed [] } }
  | bump {s : PlayWithServer W} {k : Socket W} {to_push : List (Put W)}
      (hsocket : s.socket = some k) (hchanged : k.callback = .changed to_push) :
      Step s
        { s with
          doc_version := s.doc_version + 1
          socket := some { k with callback := .pushing to_push } }
  | push {s : PlayWithServer W} {k : Socket W} {put : Put W} {rest : List (Put W)}
      (hsocket : s.socket = some k) (hpushing : k.callback = .pushing (put :: rest)) :
      Step s
        { s with
          socket := some { k with callback := .pushing rest }
          sent := s.sent ++ [(k.project, put)] }
  /-- `sendChange` does nothing while the socket is down. -/
  | notPushed {s : PlayWithServer W} {k : Socket W} {put : Put W} {rest : List (Put W)}
      (hsocket : s.socket = some k) (hpushing : k.callback = .pushing (put :: rest)) :
      Step s { s with socket := some { k with callback := .pushing rest } }
  | returned {s : PlayWithServer W} {k : Socket W} (hsocket : s.socket = some k)
      (hpushing : k.callback = .pushing []) :
      Step s { s with socket := some { k with callback := .idle } }
  | exchange {s : PlayWithServer W} (htop : s.control = .top) :
      Step s
        { s with
          switch_pending := false
          control := if s.switch_pending then .reading else .building }
  | read {s : PlayWithServer W} (hreading : s.control = .reading) :
      Step s
        { s with
          control :=
            if s.switch_target ≠ "" ∧ s.switch_target ≠ s.current_project then
              .disconnecting s.switch_target
            else .building }
  /-- The thread of the socket is joined. -/
  | disconnect {s : PlayWithServer W} {target : String}
      (hcontrol : s.control = .disconnecting target) (hidle : ∀ k ∈ s.socket, k.callback = .idle) :
      Step s { s with socket := none, control := .resetting target }
  | reset {s : PlayWithServer W} {target : String} (hcontrol : s.control = .resetting target) :
      Step s { s with doc := none, tried := [], control := .connecting target }
  | connect {s : PlayWithServer W} {target : String} (hcontrol : s.control = .connecting target) :
      Step s
        { s with
          current_project := target
          socket := some { project := target }
          control := .building }
  | notConnected {s : PlayWithServer W} {target : String}
      (hcontrol : s.control = .connecting target) :
      Step s { s with current_project := target, control := .building }
  | load {s : PlayWithServer W} (hcontrol : s.control = .building) :
      Step s
        { s with
          control :=
            if s.doc_version ≠ 0 ∧ s.doc_version ≠ s.last_built_version then
              .snapshotting s.doc_version
            else .capturing }
  | snapshot {s : PlayWithServer W} {target_version : Nat}
      (hcontrol : s.control = .snapshotting target_version) :
      Step s { s with control := .swapping target_version (s.doc.getD []) }
  | swap {s : PlayWithServer W} {target_version : Nat} {snapshot : List (Put W)}
      (hcontrol : s.control = .swapping target_version snapshot) :
      Step s
        { s with
          last_built_version := target_version
          tried := snapshot
          built := s.built ++ [(s.current_project, snapshot)]
          control := .capturing }
  | notBuilt {s : PlayWithServer W} {target_version : Nat} {snapshot : List (Put W)}
      (hcontrol : s.control = .swapping target_version snapshot) :
      Step s
        { s with
          last_built_version := target_version
          tried := snapshot
          control := .capturing }
  /-- `setProcessorState` or `setProcessorStem`, and `sendChange` under the lock. -/
  | author {s : PlayWithServer W} {puts : List (Put W)} (data : W)
      (hcontrol : s.control = .capturing) (hdoc : s.doc = some puts) :
      Step s
        { s with
          doc := some (puts ++ [⟨s.current_project, data, false⟩])
          sent := s.sent ++ s.socket.toList.map fun k =>
            (k.project, ⟨s.current_project, data, false⟩) }
  | notSent {s : PlayWithServer W} {puts : List (Put W)} (data : W)
      (hcontrol : s.control = .capturing) (hdoc : s.doc = some puts) :
      Step s { s with doc := some (puts ++ [⟨s.current_project, data, false⟩]) }
  | next {s : PlayWithServer W} (hcontrol : s.control = .capturing) :
      Step s { s with control := .top }

/-- A graph that is built, and a change that is sent, is of the one project. With
no callback running, a version that has been built has all that was told of; and
with no request on its way, the loop is at the project of the last one. -/
structure PlayWithServer.Follows (project_id : String) (s : PlayWithServer W) : Prop where
  played : ∀ graph ∈ s.built, ∀ put ∈ graph.2, put.project = graph.1
  sent : ∀ message ∈ s.sent, message.2.project = message.1
  newest : s.control = .top → (∀ k ∈ s.socket, k.callback = .idle) →
    s.doc_version = s.last_built_version →
    ∃ later, s.doc.getD [] = s.tried ++ later ∧ ∀ put ∈ later, put.told = false
  last : s.control = .top → s.switch_pending = false → s.flagging = 0 →
    s.current_project = s.requests.getLast?.getD project_id

section Isolation

variable {s next : PlayWithServer W}

/-- What is held is of the project that the loop is at. -/
structure Isolated (s : PlayWithServer W) : Prop where
  doc : ∀ put ∈ s.doc.getD [], put.project = s.current_project
  socket : ∀ k ∈ s.socket, k.project = s.current_project ∧
    ∀ put ∈ k.callback.to_push, put.project = s.current_project
  snapshot : ∀ v snapshot, s.control = .swapping v snapshot →
    ∀ put ∈ snapshot, put.project = s.current_project
  resetting : ∀ target, s.control = .resetting target → s.socket = none
  connecting : ∀ target, s.control = .connecting target → s.socket = none ∧ s.doc = none
  played : ∀ graph ∈ s.built, ∀ put ∈ graph.2, put.project = graph.1
  sent : ∀ message ∈ s.sent, message.2.project = message.1

/-- The document grows by something of the project. -/
theorem Isolated.put (h : Isolated s) {puts : List (Put W)} (hdoc : s.doc = some puts)
    {put : Put W} (hput : put.project = s.current_project) :
    ∀ p ∈ (some (puts ++ [put])).getD [], p.project = s.current_project := by
  intro p hp
  rcases List.mem_append.mp hp with hp | hp
  · exact h.doc p (by rw [hdoc]; exact hp)
  · rw [List.mem_singleton.mp hp]
    exact hput

/-- A callback takes a step while there is a socket. -/
theorem Isolated.callback (h : Isolated s) {k : Socket W} (hsocket : s.socket = some k)
    {initial : Bool} {callback : Callback W} {doc : Option (List (Put W))} {doc_version : Nat}
    {sent : List (String × Put W)}
    (hpush : ∀ put ∈ callback.to_push, put.project = s.current_project)
    (hdoc : ∀ put ∈ doc.getD [], put.project = s.current_project)
    (hsent : ∀ message ∈ sent, message.2.project = message.1) :
    Isolated
      { s with
        doc := doc
        doc_version := doc_version
        socket := some ⟨k.project, initial, callback⟩
        sent := sent } := by
  have hopen : s.socket ≠ none := by
    rw [hsocket]
    exact Option.some_ne_none k
  refine ⟨hdoc, ?_, h.snapshot, fun target htarget => absurd (h.resetting target htarget) hopen,
    fun target htarget => absurd (h.connecting target htarget).1 hopen, h.played, hsent⟩
  intro k' hk'
  obtain rfl := Option.some.inj hk'
  exact ⟨(h.socket k hsocket).1, hpush⟩

/-- The loop goes on, and is not in the middle of a switch. -/
theorem Isolated.go (h : Isolated s) (pending : Bool) (control : Control W)
    (hsnapshot : ∀ v snapshot, control = .swapping v snapshot →
      ∀ put ∈ snapshot, put.project = s.current_project)
    (hresetting : ∀ target, control ≠ .resetting target)
    (hconnecting : ∀ target, control ≠ .connecting target) :
    Isolated { s with switch_pending := pending, control := control } :=
  ⟨h.doc, h.socket, hsnapshot, fun target htarget => absurd htarget (hresetting target),
    fun target htarget => absurd htarget (hconnecting target), h.played, h.sent⟩

/-- Something of the project is written and sent. -/
theorem Isolated.author (h : Isolated s) (hcontrol : s.control = .capturing)
    {doc : Option (List (Put W))} (hdoc : ∀ put ∈ doc.getD [], put.project = s.current_project)
    {sent : List (String × Put W)} (hsent : ∀ message ∈ sent, message.2.project = message.1) :
    Isolated { s with doc := doc, sent := sent } := by
  refine ⟨hdoc, h.socket, h.snapshot, ?_, ?_, h.played, hsent⟩
  · intro target htarget
    rw [hcontrol] at htarget
    cases htarget
  · intro target htarget
    rw [hcontrol] at htarget
    cases htarget

theorem Isolated.step (h : Isolated s) (hstep : Step s next) : Isolated next := by
  cases hstep with
  | request id hvalid | flag hflagging =>
      exact ⟨h.doc, h.socket, h.snapshot, h.resetting, h.connecting, h.played, h.sent⟩
  | opened hsocket hidle =>
      exact h.callback hsocket (h.socket _ hsocket).2 h.doc h.sent
  | adopt data hsocket hidle hinitial hdoc =>
      refine h.callback hsocket (fun _ hput => absurd hput List.not_mem_nil) ?_ h.sent
      intro put hput
      rw [List.mem_singleton.mp hput]
      exact (h.socket _ hsocket).1
  | merge data to_push hsocket hidle hinitial hdoc hpush =>
      refine h.callback hsocket ?_ (h.put hdoc (h.socket _ hsocket).1) h.sent
      intro put hput
      exact h.doc put (by rw [hdoc]; exact hpush put hput)
  | notLoaded hsocket hidle hinitial =>
      exact h.callback hsocket (h.socket _ hsocket).2 h.doc h.sent
  | notRead data hsocket hidle hinitial hdoc =>
      exact h.callback hsocket (h.socket _ hsocket).2 (h.put hdoc (h.socket _ hsocket).1) h.sent
  | change data hsocket hidle hinitial hdoc =>
      exact h.callback hsocket (fun _ hput => absurd hput List.not_mem_nil)
        (h.put hdoc (h.socket _ hsocket).1) h.sent
  | bump hsocket hchanged =>
      have hpush := (h.socket _ hsocket).2
      rw [hchanged] at hpush
      exact h.callback hsocket hpush h.doc h.sent
  | push hsocket hpushing =>
      obtain ⟨hproject, hpush⟩ := h.socket _ hsocket
      rw [hpushing] at hpush
      refine h.callback hsocket (fun put hput => hpush put (List.mem_cons_of_mem _ hput)) h.doc ?_
      intro message hmessage
      rcases List.mem_append.mp hmessage with hmessage | hmessage
      · exact h.sent message hmessage
      · rw [List.mem_singleton.mp hmessage]
        exact (hpush _ List.mem_cons_self).trans hproject.symm
  | notPushed hsocket hpushing =>
      have hpush := (h.socket _ hsocket).2
      rw [hpushing] at hpush
      exact h.callback hsocket (fun put hput => hpush put (List.mem_cons_of_mem _ hput)) h.doc
        h.sent
  | returned hsocket hpushing =>
      exact h.callback hsocket (fun _ hput => absurd hput List.not_mem_nil) h.doc h.sent
  | exchange htop =>
      refine h.go false _ ?_ ?_ ?_ <;> split <;> simp
  | read hreading =>
      refine h.go s.switch_pending _ ?_ ?_ ?_ <;> split <;> simp
  | disconnect hcontrol hidle =>
      refine ⟨h.doc, fun k hk => absurd hk.symm (Option.some_ne_none k), ?_, fun _ _ => rfl, ?_,
        h.played, h.sent⟩
      · intro v snapshot hswapping
        cases hswapping
      · intro target hconnecting
        cases hconnecting
  | reset hcontrol =>
      have hsocket := h.resetting _ hcontrol
      refine ⟨fun _ hput => absurd hput List.not_mem_nil, h.socket, ?_, ?_,
        fun _ _ => ⟨hsocket, rfl⟩, h.played, h.sent⟩
      · intro v snapshot hswapping
        cases hswapping
      · intro target hresetting
        cases hresetting
  | connect hcontrol =>
      have hdoc := (h.connecting _ hcontrol).2
      refine ⟨?_, ?_, ?_, ?_, ?_, h.played, h.sent⟩
      · intro put hput
        rw [hdoc] at hput
        exact absurd hput List.not_mem_nil
      · intro k hk
        obtain rfl := Option.some.inj hk
        exact ⟨rfl, fun _ hput => absurd hput List.not_mem_nil⟩
      · intro v snapshot hswapping
        cases hswapping
      · intro target hresetting
        cases hresetting
      · intro target hconnecting
        cases hconnecting
  | notConnected hcontrol =>
      obtain ⟨hsocket, hdoc⟩ := h.connecting _ hcontrol
      refine ⟨?_, ?_, ?_, ?_, ?_, h.played, h.sent⟩
      · intro put hput
        rw [hdoc] at hput
        exact absurd hput List.not_mem_nil
      · intro k hk
        rw [hsocket] at hk
        exact absurd hk.symm (Option.some_ne_none k)
      · intro v snapshot hswapping
        cases hswapping
      · intro target hresetting
        cases hresetting
      · intro target hconnecting
        cases hconnecting
  | load hcontrol =>
      refine h.go s.switch_pending _ ?_ ?_ ?_ <;> split <;> simp
  | snapshot hcontrol =>
      refine h.go s.switch_pending _ ?_ (fun _ => by simp) (fun _ => by simp)
      intro v snapshot hswapping
      injection hswapping with _ hsnapshot
      exact hsnapshot ▸ h.doc
  | swap hcontrol =>
      refine ⟨h.doc, h.socket, ?_, ?_, ?_, ?_, h.sent⟩
      · intro v snapshot hswapping
        cases hswapping
      · intro target hresetting
        cases hresetting
      · intro target hconnecting
        cases hconnecting
      · intro graph hgraph
        rcases List.mem_append.mp hgraph with hgraph | hgraph
        · exact h.played graph hgraph
        · rw [List.mem_singleton.mp hgraph]
          exact h.snapshot _ _ hcontrol
  | notBuilt hcontrol =>
      have hgo := h.go s.switch_pending .capturing (fun _ _ => by simp) (fun _ => by simp)
        (fun _ => by simp)
      exact ⟨hgo.doc, hgo.socket, hgo.snapshot, hgo.resetting, hgo.connecting, hgo.played, hgo.sent⟩
  | author data hcontrol hdoc =>
      refine h.author hcontrol (h.put hdoc rfl) ?_
      intro message hmessage
      rcases List.mem_append.mp hmessage with hmessage | hmessage
      · exact h.sent message hmessage
      · obtain ⟨k, hk, rfl⟩ := List.mem_map.mp hmessage
        exact ((h.socket k (Option.mem_toList.mp hk)).1).symm
  | notSent data hcontrol hdoc => exact h.author hcontrol (h.put hdoc rfl) h.sent
  | next hcontrol =>
      exact h.go s.switch_pending .top (fun _ _ => by simp) (fun _ => by simp) (fun _ => by simp)

end Isolation

section Newest

variable {s next : PlayWithServer W}

/-- What the builder has taken last. -/
def PlayWithServer.taken (s : PlayWithServer W) : List (Put W) :=
  match s.control with
  | .swapping _ snapshot => snapshot
  | _ => s.tried

/-- The version that it has taken it for. -/
def PlayWithServer.version (s : PlayWithServer W) : Nat :=
  match s.control with
  | .swapping target_version _ => target_version
  | _ => s.last_built_version

def PlayWithServer.bumps (s : PlayWithServer W) : Bool :=
  (s.socket.map fun k => k.callback.bumps).getD false

/-- What the builder has not taken is told of by a version to come. -/
structure Newest (s : PlayWithServer W) : Prop where
  le : s.version ≤ s.doc_version
  loaded : ∀ v, s.control = .snapshotting v → s.last_built_version < v ∧ v ≤ s.doc_version
  later : ∃ later, s.doc.getD [] = s.taken ++ later ∧
    (s.version = s.doc_version → s.bumps = false → ∀ put ∈ later, put.told = false)

theorem bumps_of_socket {k : Socket W} (hsocket : s.socket = some k) :
    s.bumps = k.callback.bumps := by
  rw [PlayWithServer.bumps, hsocket]
  rfl

/-- Between two builds it is what the last one had. -/
theorem taken_eq (hcontrol : ∀ v snapshot, s.control ≠ .swapping v snapshot) :
    s.taken = s.tried ∧ s.version = s.last_built_version := by
  unfold PlayWithServer.taken PlayWithServer.version
  split
  · rename_i v snapshot hswapping
    exact absurd hswapping (hcontrol v snapshot)
  · exact ⟨rfl, rfl⟩

/-- A callback puts something into the document and is to bump the version. -/
theorem Newest.put (h : Newest s) {put : Put W} {doc : Option (List (Put W))} {k : Socket W}
    (hdoc : doc.getD [] = s.doc.getD [] ++ [put]) (hbumps : k.callback.bumps = true) :
    Newest { s with doc := doc, socket := some k } := by
  obtain ⟨later, hlater, -⟩ := h.later
  refine ⟨h.le, h.loaded, later ++ [put], ?_, fun _ hquiet => ?_⟩
  · show doc.getD [] = s.taken ++ (later ++ [put])
    rw [hdoc, hlater, List.append_assoc]
  · rw [bumps_of_socket rfl, hbumps] at hquiet
    cases hquiet

/-- What no version tells of is put into the document. -/
theorem Newest.quietly (h : Newest s) {put : Put W} {puts : List (Put W)}
    {socket : Option (Socket W)} {sent : List (String × Put W)} (hdoc : s.doc = some puts)
    (hput : put.told = false)
    (hbumps : (socket.map fun k => k.callback.bumps).getD false = s.bumps) :
    Newest { s with doc := some (puts ++ [put]), socket := socket, sent := sent } := by
  obtain ⟨later, hlater, htold⟩ := h.later
  refine ⟨h.le, h.loaded, later ++ [put], ?_, fun hversion hquiet => ?_⟩
  · show puts ++ [put] = s.taken ++ (later ++ [put])
    rw [hdoc, Option.getD_some] at hlater
    rw [hlater, List.append_assoc]
  · intro p hp
    rcases List.mem_append.mp hp with hp | hp
    · exact htold hversion (hbumps.symm.trans hquiet) p hp
    · rw [List.mem_singleton.mp hp]
      exact hput

/-- A callback goes on, or the loop does between two builds. -/
theorem Newest.go (h : Newest s) {socket : Option (Socket W)} {control : Control W}
    {pending : Bool} {sent : List (String × Put W)} {project : String}
    (hbumps : (socket.map fun k => k.callback.bumps).getD false = s.bumps)
    (hnow : ∀ v snapshot, s.control ≠ .swapping v snapshot)
    (hcontrol : ∀ v snapshot, control ≠ .swapping v snapshot)
    (hloaded : ∀ v, control = .snapshotting v → s.last_built_version < v ∧ v ≤ s.doc_version) :
    Newest
      { s with
        socket := socket
        switch_pending := pending
        control := control
        current_project := project
        sent := sent } := by
  obtain ⟨htaken, hversion⟩ := taken_eq hnow
  obtain ⟨later, hlater, htold⟩ := h.later
  have hle := h.le
  rw [hversion] at hle htold
  rw [htaken] at hlater
  refine ⟨?_, hloaded, later, ?_, fun hnew hquiet => ?_⟩
  · rw [(taken_eq hcontrol).2]
    exact hle
  · rw [(taken_eq hcontrol).1]
    exact hlater
  · rw [(taken_eq hcontrol).2] at hnew
    exact htold hnew (hbumps.symm.trans hquiet)

/-- A callback goes on. -/
theorem Newest.callback (h : Newest s) {k : Socket W} (hsocket : s.socket = some k)
    {initial : Bool} {callback : Callback W} (hbumps : callback.bumps = k.callback.bumps)
    {sent : List (String × Put W)} :
    Newest { s with socket := some ⟨k.project, initial, callback⟩, sent := sent } := by
  obtain ⟨later, hlater, htold⟩ := h.later
  refine ⟨h.le, h.loaded, later, hlater, fun hversion hquiet => htold hversion ?_⟩
  rw [bumps_of_socket hsocket, ← hbumps]
  exact hquiet

theorem Newest.step (h : Newest s) (hi : Isolated s) (hstep : Step s next) : Newest next := by
  cases hstep with
  | request id hvalid | flag hflagging => exact ⟨h.le, h.loaded, h.later⟩
  | opened hsocket hidle | notLoaded hsocket hidle hinitial => exact h.callback hsocket rfl
  | adopt data hsocket hidle hinitial hdoc =>
      exact h.put (by rw [hdoc]; rfl) rfl
  | merge data to_push hsocket hidle hinitial hdoc hpush =>
      exact h.put (by rw [hdoc]; rfl) rfl
  | notRead data hsocket hidle hinitial hdoc =>
      exact h.quietly hdoc rfl (bumps_of_socket hsocket).symm
  | change data hsocket hidle hinitial hdoc =>
      exact h.put (by rw [hdoc]; rfl) rfl
  | bump hsocket hchanged =>
      obtain ⟨later, hlater, -⟩ := h.later
      have hle := h.le
      refine ⟨Nat.le_succ_of_le hle, fun v hv => ?_, later, hlater, fun hversion _ => ?_⟩
      · obtain ⟨hlt, hv⟩ := h.loaded v hv
        exact ⟨hlt, Nat.le_succ_of_le hv⟩
      · have hversion : s.version = s.doc_version + 1 := hversion
        omega
  | push hsocket hpushing | notPushed hsocket hpushing | returned hsocket hpushing =>
      exact h.callback hsocket (by rw [hpushing]; rfl)
  | exchange htop =>
      refine h.go rfl (by simp [htop]) ?_ ?_ <;> split <;> simp
  | read hreading =>
      refine h.go rfl (by simp [hreading]) ?_ ?_ <;> split <;> simp
  | disconnect hcontrol hidle =>
      refine h.go ?_ (by simp [hcontrol]) (by simp) (by simp)
      cases hsocket : s.socket with
      | none => rw [PlayWithServer.bumps, hsocket]
      | some k =>
          rw [bumps_of_socket hsocket, hidle k hsocket]
          rfl
  | reset hcontrol =>
      have hversion := (taken_eq (s := s) (by simp [hcontrol])).2
      have hle := h.le
      rw [hversion] at hle
      exact ⟨hle, fun _ hv => absurd hv (by simp), [], rfl,
        fun _ _ _ hput => absurd hput List.not_mem_nil⟩
  | connect hcontrol =>
      refine h.go ?_ (by simp [hcontrol]) (by simp) (by simp)
      rw [PlayWithServer.bumps, (hi.connecting _ hcontrol).1]
      rfl
  | notConnected hcontrol => exact h.go rfl (by simp [hcontrol]) (by simp) (by simp)
  | load hcontrol =>
      have hversion := (taken_eq (s := s) (by simp [hcontrol])).2
      have hle := h.le
      rw [hversion] at hle
      refine h.go rfl (by simp [hcontrol]) ?_ ?_
      · split <;> simp
      · intro v hv
        split at hv
        · rename_i hnew
          injection hv with hv
          exact ⟨by omega, Nat.le_of_eq hv.symm⟩
        · cases hv
  | snapshot hcontrol =>
      obtain ⟨-, hle⟩ := h.loaded _ hcontrol
      exact ⟨hle, fun _ hv => absurd hv (by simp), [], (List.append_nil _).symm,
        fun _ _ _ hput => absurd hput List.not_mem_nil⟩
  | swap hcontrol | notBuilt hcontrol =>
      have hle := h.le
      have hlater := h.later
      unfold PlayWithServer.version at hle hlater
      unfold PlayWithServer.taken at hlater
      rw [hcontrol] at hle hlater
      exact ⟨hle, fun _ hv => absurd hv (by simp), hlater⟩
  | author data hcontrol hdoc | notSent data hcontrol hdoc => exact h.quietly hdoc rfl rfl
  | next hcontrol => exact h.go rfl (by simp [hcontrol]) (by simp) (by simp)

end Newest

section Heading

variable {project_id : String} {s next : PlayWithServer W}

/-- The project that the loop is at, or on its way to. -/
def PlayWithServer.heading (s : PlayWithServer W) : String :=
  match s.control with
  | .disconnecting target | .resetting target | .connecting target => target
  | _ => s.current_project

/-- The loop is on its way to the last request, or is to hear of it. -/
structure Heading (project_id : String) (s : PlayWithServer W) : Prop where
  target : s.switch_target = s.requests.getLast?.getD ""
  named : ∀ id ∈ s.requests, id ≠ ""
  first : s.requests = [] → s.heading = project_id
  last : s.heading = s.requests.getLast?.getD project_id ∨ s.switch_pending = true ∨
    0 < s.flagging ∨ s.control = .reading

theorem ne_of_validId {id : String} (hvalid : validId id = true) : id ≠ "" := by
  rintro rfl
  cases hvalid

/-- The loop goes on, and its goal stays. -/
theorem Heading.go (h : Heading project_id s) (hreading : s.control ≠ .reading)
    (hsame : next.heading = s.heading) (htarget : next.switch_target = s.switch_target)
    (hrequests : next.requests = s.requests) (hflagging : next.flagging = s.flagging)
    (hpending : s.switch_pending = true → next.switch_pending = true ∨ next.control = .reading) :
    Heading project_id next := by
  refine ⟨?_, ?_, ?_, ?_⟩
  · rw [htarget, hrequests]
    exact h.target
  · rw [hrequests]
    exact h.named
  · rw [hrequests, hsame]
    exact h.first
  · rw [hrequests, hsame, hflagging]
    rcases h.last with hlast | hlast | hlast | hlast
    · exact .inl hlast
    · rcases hpending hlast with hnext | hnext
      · exact .inr (.inl hnext)
      · exact .inr (.inr (.inr hnext))
    · exact .inr (.inr (.inl hlast))
    · exact absurd hlast hreading

theorem Heading.step (h : Heading project_id s) (hstep : Step s next) :
    Heading project_id next := by
  cases hstep with
  | request id hvalid =>
      refine ⟨by simp, ?_, fun hnone => ?_, .inr (.inr (.inl (Nat.succ_pos _)))⟩
      · intro other hother
        rcases List.mem_append.mp hother with hother | hother
        · exact h.named other hother
        · rw [List.mem_singleton.mp hother]
          exact ne_of_validId hvalid
      · exact absurd hnone (List.append_ne_nil_of_right_ne_nil _ (List.cons_ne_nil _ _))
  | flag hflagging => exact ⟨h.target, h.named, h.first, .inr (.inl rfl)⟩
  | opened | adopt | merge | notLoaded | notRead | change | bump | push | notPushed | returned =>
      exact ⟨h.target, h.named, h.first, h.last⟩
  | exchange htop =>
      refine h.go (by simp [htop]) ?_ rfl rfl rfl (fun hpending => .inr ?_)
      · unfold PlayWithServer.heading
        rw [htop]
        cases s.switch_pending <;> rfl
      · show (if s.switch_pending then Control.reading else Control.building) = _
        rw [if_pos hpending]
  | read hreading =>
      have hat : s.heading = s.current_project := by
        rw [PlayWithServer.heading, hreading]
      have hlast : s.requests = [] ∨ s.requests.getLast? = some s.switch_target := by
        rcases List.eq_nil_or_concat s.requests with hnil | ⟨_, id, hid⟩
        · exact .inl hnil
        · refine .inr ?_
          rw [h.target, hid, List.concat_eq_append, List.getLast?_concat]
          rfl
      refine ⟨h.target, h.named, fun hnone => ?_, .inl ?_⟩
      · have htarget := h.target
        rw [hnone] at htarget
        have hnamed : ¬(s.switch_target ≠ "" ∧ s.switch_target ≠ s.current_project) :=
          fun hne => hne.1 htarget
        rw [PlayWithServer.heading]
        dsimp only
        rw [if_neg hnamed]
        exact hat.symm.trans (h.first hnone)
      · rw [PlayWithServer.heading]
        dsimp only
        rcases hlast with hnone | hsome
        · have htarget := h.target
          rw [hnone] at htarget
          rw [if_neg (fun hne => hne.1 htarget), hnone]
          exact hat.symm.trans (h.first hnone)
        · have hne : s.switch_target ≠ "" := h.named _ (List.mem_of_getLast? hsome)
          rw [hsome, Option.getD_some]
          by_cases hsame : s.switch_target = s.current_project
          · rw [if_neg (fun hne => hne.2 hsame)]
            exact hsame.symm
          · rw [if_pos ⟨hne, hsame⟩]
  | disconnect hcontrol | reset hcontrol | connect hcontrol | notConnected hcontrol
  | snapshot hcontrol | swap hcontrol | notBuilt hcontrol | next hcontrol =>
      refine h.go (by simp [hcontrol]) ?_ rfl rfl rfl .inl
      simp [PlayWithServer.heading, hcontrol]
  | load hcontrol =>
      refine h.go (by simp [hcontrol]) ?_ rfl rfl rfl .inl
      unfold PlayWithServer.heading
      rw [hcontrol]
      dsimp only
      by_cases hnew : s.doc_version ≠ 0 ∧ s.doc_version ≠ s.last_built_version
      · rw [if_pos hnew]
      · rw [if_neg hnew]
  | author data hcontrol hdoc | notSent data hcontrol hdoc =>
      exact ⟨h.target, h.named, h.first, h.last⟩

end Heading

section Run

variable {project_id : String} {s : PlayWithServer W}

theorem Isolated.start : Isolated (PlayWithServer.start project_id : PlayWithServer W) where
  doc := fun _ hput => absurd hput List.not_mem_nil
  socket := by
    intro k hk
    obtain rfl := Option.some.inj hk
    exact ⟨rfl, fun _ hput => absurd hput List.not_mem_nil⟩
  snapshot := by
    intro v snapshot hswapping
    cases hswapping
  resetting := by
    intro target hresetting
    cases hresetting
  connecting := by
    intro target hconnecting
    cases hconnecting
  played := fun _ hgraph => absurd hgraph List.not_mem_nil
  sent := fun _ hmessage => absurd hmessage List.not_mem_nil

theorem Newest.start : Newest (PlayWithServer.start project_id : PlayWithServer W) where
  le := Nat.le_refl 0
  loaded := by
    intro v hloaded
    cases hloaded
  later := ⟨[], rfl, fun _ _ _ hput => absurd hput List.not_mem_nil⟩

theorem Heading.start : Heading project_id (PlayWithServer.start project_id : PlayWithServer W) :=
  ⟨rfl, fun _ hid => absurd hid List.not_mem_nil, fun _ => rfl, .inl rfl⟩

/-- In every interleaving of the handlers, the callbacks and the control loop. -/
theorem follows_of_run (hrun : Run.Reaches Step (PlayWithServer.start project_id) s) :
    s.Follows project_id := by
  have h : (Isolated s ∧ Newest s) ∧ Heading project_id s := by
    refine hrun.invariant (P := fun s => (Isolated s ∧ Newest s) ∧ Heading project_id s)
      ⟨⟨.start, .start⟩, .start⟩ ?_
    rintro s next hstep ⟨⟨hi, hn⟩, hh⟩
    exact ⟨⟨hi.step hstep, hn.step hi hstep⟩, hh.step hstep⟩
  obtain ⟨⟨hi, hn⟩, hh⟩ := h
  refine ⟨hi.played, hi.sent, fun htop hidle hversion => ?_, fun htop hpending hflagging => ?_⟩
  · obtain ⟨later, hlater, htold⟩ := hn.later
    obtain ⟨htaken, hbuilt⟩ := taken_eq (s := s) (by simp [htop])
    refine ⟨later, htaken ▸ hlater, htold (hbuilt.trans hversion.symm) ?_⟩
    cases hsocket : s.socket with
    | none =>
        rw [PlayWithServer.bumps, hsocket]
        rfl
    | some k =>
        rw [bumps_of_socket hsocket, hidle k hsocket]
        rfl
  · have hat : s.heading = s.current_project := by
      rw [PlayWithServer.heading, htop]
    rcases hh.last with hlast | hlast | hlast | hlast
    · exact hat.symm.trans hlast
    · rw [hpending] at hlast
      cases hlast
    · omega
    · rw [htop] at hlast
      cases hlast

section Example

/-- A document is adopted and played, and a switch to another project follows. -/
theorem follows_of_run_switched : ∃ s : PlayWithServer Nat, s.Follows "a" ∧
    s.current_project = "b" ∧ s.built = [("a", [⟨"a", 1, true⟩])] := by
  have hadopted : Run.Reaches Step (PlayWithServer.start "a" : PlayWithServer Nat) _ :=
    Relation.ReflTransGen.single (.adopt 1 rfl rfl rfl rfl)
  have hreturned := (hadopted.tail (.bump rfl rfl)).tail (.returned rfl rfl)
  have hloaded := (hreturned.tail (.exchange rfl)).tail (.load rfl)
  have hbuilt := (hloaded.tail (.snapshot rfl)).tail (.swap rfl)
  have hasked := ((hbuilt.tail (.next rfl)).tail (.request "b" (by decide))).tail (.flag rfl)
  have hread := (hasked.tail (.exchange rfl)).tail (.read rfl)
  have hclosed := hread.tail (.disconnect rfl (by
    intro k hk
    obtain rfl := Option.some.inj hk
    rfl))
  have hswitched := ((hclosed.tail (.reset rfl)).tail (.connect rfl)).tail (.load rfl)
  exact ⟨_, follows_of_run (hswitched.tail (.next rfl)), rfl, rfl⟩

end Example

end Run

end DawProject.Engine.ControlLoop
