import DawProject.Server.Causality

/-!
The changes the engine authors, on their way to the server:
`setProcessorState`, `setProcessorStem` and the document and change callbacks of
`engine/src/main.cpp` over the socket of `engine/src/network/server_client.cpp`.
The control thread writes and sends under `doc_mutex`; the network thread merges
the document of the server and computes what to push under the lock, and sends
it outside. Project switches are left out.
-/

namespace DawProject.Network

open Document.Exchange (Doc apply_change)

/-- A message on the socket: the push loop sent it, or the control thread. -/
structure Packet (H : Type) where
  change : H
  pushed : Bool
deriving DecidableEq, Repr

/-- The engine, one project of the server and what is between them. `merged`,
`authored` and `refused` are history: no step reads them. -/
structure EngineLink (H : Type) where
  /-- The engine's document, once one is loaded. -/
  doc : Option (Doc H) := none
  /-- What the control thread has written and not sent, holding `doc_mutex`. -/
  writing : Option H := none
  connected_ : Bool := false
  received_initial_ : Bool := false
  /-- What the document callback still has to send. -/
  to_push : List H := []
  /-- The socket carries messages. -/
  up : Bool := false
  /-- The session of the server has read the document and reads the socket. -/
  joined : Bool := false
  /-- The document that session has sent, until the engine handles it. -/
  initial : Option (Doc H) := none
  wire : List (Packet H) := []
  /-- What reached the server on sockets that have failed since. -/
  late : List (List (Packet H)) := []
  server : Doc H
  /-- The document of this socket is in the engine's, and its push computed. -/
  merged : Bool := false
  authored : List H := []
  refused : List (Packet H) := []
deriving DecidableEq, Repr

inductive LinkStep (H : Type) where
  /-- The callbacks of the socket. -/
  | opened
  | document
  | change (change : H)
  | closed
  /-- The next `sendChange` of the document callback. -/
  | push
  /-- `setProcessorState` or `setProcessorStem`, then `sendChange`. -/
  | setProcessor (change : H)
  | sendChange
  /-- The session of the server starts, or takes the next message. -/
  | join
  | deliver
  | deliverLate (i : Nat)
  /-- A change of another session is taken. -/
  | peer (change : H)
  /-- The socket stops carrying messages, before the engine hears of it. -/
  | fail
deriving DecidableEq, Repr

namespace EngineLink

variable {H : Type}

/-- `ServerClient::sendChange`. -/
def sendChange (s : EngineLink H) (change : H) (pushed : Bool) : EngineLink H :=
  if s.connected_ && s.up then { s with wire := s.wire ++ [⟨change, pushed⟩] } else s

def history (s : EngineLink H) : List H := (s.doc.map (·.history)).getD []

variable [DecidableEq H] (deps : H → List H) (seed : List H)

/-- The session of the server applies a change or refuses it. -/
def serve (s : EngineLink H) (p : Packet H) : EngineLink H :=
  match apply_change deps seed (some s.server) p.change with
  | some server => { s with server := server }
  | none => { s with refused := p :: s.refused }

-- `readDocument` succeeds, and `AMgetChangesAdded`.
variable (readDocument : Doc H → Bool) (getChangesAdded : Doc H → Doc H → List H)

/-- The document callback: adopt the first document, merge a later one. -/
def onDocument (s : EngineLink H) (data : Doc H) : EngineLink H :=
  let s := { s with received_initial_ := true, initial := none }
  match s.doc with
  | none => if readDocument data then { s with doc := some data, merged := true } else s
  | some doc =>
      let doc := doc.merge deps data
      if readDocument doc then
        { s with doc := some doc, to_push := getChangesAdded data doc, merged := true }
      else { s with doc := some doc }

/-- One step. A callback runs when the one before has returned; the callbacks
that change the document and the control thread exclude each other. -/
def step (s : EngineLink H) : LinkStep H → Option (EngineLink H)
  | .opened =>
      if !s.connected_ && !s.up && s.to_push.isEmpty then
        some { s with
          connected_ := true, received_initial_ := false, up := true
          joined := false, initial := none, merged := false }
      else none
  | .document =>
      match s.initial with
      | none => none
      | some data =>
          if s.connected_ && !s.received_initial_ && s.to_push.isEmpty && s.writing.isNone then
            some (s.onDocument deps readDocument getChangesAdded data)
          else none
  | .change change =>
      match s.doc with
      | none => none
      | some doc =>
          if s.connected_ && s.received_initial_ && s.to_push.isEmpty && s.writing.isNone &&
              decide (change ∈ s.server.history) then
            some { s with doc := some (doc.applyChanges deps [change]) }
          else none
  | .closed =>
      if s.connected_ && !s.up && s.to_push.isEmpty then some { s with connected_ := false }
      else none
  | .push =>
      match s.to_push with
      | [] => none
      | change :: rest => some ({ s with to_push := rest }.sendChange change true)
  | .setProcessor change =>
      match s.doc with
      | none => none
      | some doc =>
          if s.writing.isNone && decide (change ∉ doc.history) &&
              (deps change).all (fun d => decide (d ∈ doc.getHeads deps)) &&
              (doc.getHeads deps).all (fun d => decide (d ∈ deps change)) then
            some { s with
              doc := some { doc with history := doc.history ++ [change] }
              writing := some change
              authored := s.authored ++ [change] }
          else none
  | .sendChange =>
      match s.writing with
      | none => none
      | some change => some ({ s with writing := none }.sendChange change false)
  | .join =>
      if s.up && !s.joined then some { s with joined := true, initial := some s.server } else none
  | .deliver =>
      match s.joined, s.wire with
      | true, p :: rest => some ({ s with wire := rest }.serve deps seed p)
      | _, _ => none
  | .deliverLate i =>
      match s.late[i]? with
      | some (p :: rest) => some ({ s with late := s.late.set i rest }.serve deps seed p)
      | _ => none
  | .peer change => (apply_change deps seed (some s.server) change).map ({ s with server := · })
  | .fail =>
      if s.up then some { s with up := false, wire := [], late := s.wire :: s.late } else none

/-- Once the push on an open socket is complete and what was sent has arrived,
the server has every change of the engine; and no push was ever refused. -/
def Delivers (s : EngineLink H) : Prop :=
  (s.up = true → s.merged = true → s.to_push = [] → s.writing = none → s.wire = [] →
    ∀ change ∈ s.authored, change ∈ s.server.history) ∧
  ∀ p ∈ s.refused, p.pushed = false

end EngineLink

variable {H : Type}

/-- The control thread writes nothing while the document callback pushes. -/
def LinkStep.Clean (s : EngineLink H) : LinkStep H → Prop
  | .setProcessor _ => s.to_push = []
  | _ => True

instance [DecidableEq H] (s : EngineLink H) : DecidablePred (LinkStep.Clean s)
  | .setProcessor _ => inferInstanceAs (Decidable (s.to_push = []))
  | .opened | .document | .change _ | .closed | .push | .sendChange | .join | .deliver
  | .deliverLate _ | .peer _ | .fail => inferInstanceAs (Decidable True)

section Steps

variable [DecidableEq H] (deps : H → List H) (seed : List H) (readDocument : Doc H → Bool)
  (getChangesAdded : Doc H → Doc H → List H)

def Linked (s next : EngineLink H) : Prop :=
  ∃ l, s.step deps seed readDocument getChangesAdded l = some next

def CleanLinked (s next : EngineLink H) : Prop :=
  ∃ l : LinkStep H, l.Clean s ∧ s.step deps seed readDocument getChangesAdded l = some next

/-- Missing changes that form a single line are listed from the oldest on. -/
def ListsLines : Prop :=
  ∀ (remote doc : Doc H) (line : List H), remote.Settled deps →
    Causal.Extends deps [] doc.history → Causal.IsLine deps [] line →
    (∀ h, h ∈ line ↔ h ∈ doc.history ∧ h ∉ remote.history) → getChangesAdded remote doc = line

end Steps

end DawProject.Network
