import DawProject.Document.Exchange
import DawProject.Lib.Run

/-!
The sessions of one project on the server: `handle_socket` of
`server/src/api/websocket.rs`, the channel of `server/src/sync/mod.rs` and the
project file of `server/src/document/file_store.rs`. A session subscribes to
the channel, loads the file under `store_lock` and sends it; from then on its
receive task persists the changes of its client under `store_lock` and
broadcasts each of them after releasing it. Every await point is a step of its
own. A write or a rename whose task is aborted still reaches the disk later.
-/

namespace DawProject.Server

open Document.Exchange (Doc apply_change)

/-- What the channel carries: a change, or a jam signal. -/
inductive Msg (H : Type) where
  | change (change : H)
  | signal
deriving DecidableEq, Repr

/-- A disk operation whose task was aborted. -/
inductive FsOp (H : Type) where
  | write (doc : Doc H)
  | rename
deriving DecidableEq, Repr

/-- Where the receive task of a session waits. -/
inductive Recv (H : Type) where
  | idle
  | waiting (change : H)
  | reading (change : H)
  | writing (change : H) (doc : Doc H)
  | moving (change : H)
  /-- The rename is done, the guard is still held. -/
  | renamed (change : H)
  | broadcasting (change : H)
deriving DecidableEq, Repr

/-- Where `handle_socket` is. -/
inductive Phase (H : Type) where
  | absent
  | subscribed
  | loading
  | seedWriting
  | seedRenaming
  /-- The initial document is read, the guard is still held. -/
  | loaded (data : Doc H)
  | sending (data : Doc H)
  | live (data : Doc H) (recv : Recv H)
  /-- One of the two tasks has finished. -/
  | ended
  /-- Returned before the tasks were spawned; the session id stays registered. -/
  | gone
deriving DecidableEq, Repr

/-- The task at this point holds `store_lock`. -/
def Recv.holdsLock : Recv H → Bool
  | .reading _ | .writing _ _ | .moving _ | .renamed _ => true
  | .idle | .waiting _ | .broadcasting _ => false

def Phase.holdsLock : Phase H → Bool
  | .loading | .seedWriting | .seedRenaming | .loaded _ => true
  | .live _ recv => recv.holdsLock
  | .absent | .subscribed | .sending _ | .ended | .gone => false

/-- The change is on the disk and the task has not broadcast it yet. -/
def Recv.pending : Recv H → Option H
  | .renamed change | .broadcasting change => some change
  | _ => none

def Phase.pending : Phase H → Option H
  | .live _ recv => recv.pending
  | _ => none

/-- The session has a receiver of the channel. -/
def Phase.subscribes : Phase H → Bool
  | .absent | .ended | .gone => false
  | _ => true

/-- The initial document, once it is read. -/
def Phase.data : Phase H → Option (Doc H)
  | .loaded data | .sending data | .live data _ => some data
  | _ => none

structure Session (H : Type) where
  phase : Phase H := .absent
  /-- What the receiver has not read yet. -/
  inbox : List (Msg H) := []
  /-- What the send task has read and forwarded. -/
  received : List (Msg H) := []
  /-- A message was overwritten before the receiver read it. -/
  lagged : Bool := false
deriving DecidableEq, Repr

/-- Capacity of the broadcast channel. -/
def CHANNEL_CAPACITY : Nat := 256

def Session.push (session : Session H) (msg : Msg H) : Session H :=
  if session.phase.subscribes = false then session
  else if session.inbox.length ≥ CHANNEL_CAPACITY then
    { session with inbox := session.inbox.tail ++ [msg], lagged := true }
  else { session with inbox := session.inbox ++ [msg] }

/-- The server for one project. `persisted` lists every change that has been in
the file and `broadcasted` every change sent on the channel; no step reads
them. -/
structure AppState (H : Type) where
  sessions : Nat → Session H := fun _ => {}
  /-- The registered session ids. -/
  members : List Nat := []
  store_lock : Option Nat := none
  file : Option (Doc H) := none
  tmp : Option (Doc H) := none
  detached : List (FsOp H) := []
  persisted : List H := []
  broadcasted : List H := []

/-- The changes of a document, applied or buffered. -/
def known (doc : Doc H) : List H := doc.history ++ doc.queue

def AppState.enter (s : AppState H) (i : Nat) (phase : Phase H) : AppState H :=
  { s with
    sessions := fun j => if j = i then { s.sessions i with phase := phase } else s.sessions j }

/-- Send on the channel of the project, when it exists. -/
def AppState.send (s : AppState H) (msg : Msg H) : AppState H :=
  if s.members = [] then s else { s with sessions := fun j => (s.sessions j).push msg }

/-- The temporary file becomes the project file. -/
def AppState.rename (s : AppState H) (doc : Doc H) : AppState H :=
  { s with file := some doc, tmp := none, persisted := s.persisted ++ known doc }

/-- The disk operation in flight at an await point of the receive task. -/
def Recv.inFlight : Recv H → List (FsOp H)
  | .writing _ doc => [.write doc]
  | .moving _ => [.rename]
  | _ => []

variable {H : Type} [DecidableEq H] (deps : H → List H) (seed : List H)

/-- One step of the server, with no receive task aborted once it has started to
write a change. -/
inductive Step : AppState H → AppState H → Prop where
  | join {s : AppState H} {i : Nat} (hphase : (s.sessions i).phase = .absent) :
      Step s { s.enter i .subscribed with members := s.members ++ [i] }
  | lockJoin {s : AppState H} {i : Nat} (hphase : (s.sessions i).phase = .subscribed)
      (hlock : s.store_lock = none) :
      Step s { s.enter i .loading with store_lock := some i }
  | load {s : AppState H} {i : Nat} {data : Doc H} (hphase : (s.sessions i).phase = .loading)
      (hfile : s.file = some data) : Step s (s.enter i (.loaded data))
  | loadNone {s : AppState H} {i : Nat} (hphase : (s.sessions i).phase = .loading)
      (hfile : s.file = none) : Step s (s.enter i .seedWriting)
  | seedWrite {s : AppState H} {i : Nat} (hphase : (s.sessions i).phase = .seedWriting) :
      Step s { s.enter i .seedRenaming with tmp := some { history := seed } }
  | seedRename {s : AppState H} {i : Nat} {doc : Doc H}
      (hphase : (s.sessions i).phase = .seedRenaming) (htmp : s.tmp = some doc) :
      Step s ((s.enter i (.loaded { history := seed })).rename doc)
  | unlockJoin {s : AppState H} {i : Nat} {data : Doc H}
      (hphase : (s.sessions i).phase = .loaded data) :
      Step s { s.enter i (.sending data) with store_lock := none }
  | opened {s : AppState H} {i : Nat} {data : Doc H}
      (hphase : (s.sessions i).phase = .sending data) : Step s (s.enter i (.live data .idle))
  | failStore {s : AppState H} {i : Nat}
      (hphase : (s.sessions i).phase = .loading ∨ (s.sessions i).phase = .seedWriting ∨
        (s.sessions i).phase = .seedRenaming) :
      Step s { s.enter i .gone with store_lock := none }
  | failSend {s : AppState H} {i : Nat} {data : Doc H}
      (hphase : (s.sessions i).phase = .sending data) : Step s (s.enter i .gone)
  | forward {s : AppState H} {i : Nat} {data : Doc H} {recv : Recv H} {msg : Msg H}
      {rest : List (Msg H)} (hphase : (s.sessions i).phase = .live data recv)
      (hinbox : (s.sessions i).inbox = msg :: rest) :
      Step s
        { s with
          sessions := fun j =>
            if j = i then
              { s.sessions i with
                inbox := rest, received := (s.sessions i).received ++ [msg] }
            else s.sessions j }
  | signal {s : AppState H} {i : Nat} {data : Doc H}
      (hphase : (s.sessions i).phase = .live data .idle) : Step s (s.send .signal)
  | submit {s : AppState H} {i : Nat} {data : Doc H} (change : H)
      (hphase : (s.sessions i).phase = .live data .idle) :
      Step s (s.enter i (.live data (.waiting change)))
  | lockStore {s : AppState H} {i : Nat} {data : Doc H} {change : H}
      (hphase : (s.sessions i).phase = .live data (.waiting change))
      (hlock : s.store_lock = none) :
      Step s { s.enter i (.live data (.reading change)) with store_lock := some i }
  | accept {s : AppState H} {i : Nat} {data doc : Doc H} {change : H}
      (hphase : (s.sessions i).phase = .live data (.reading change))
      (happly : apply_change deps seed s.file change = some doc) :
      Step s (s.enter i (.live data (.writing change doc)))
  | refuse {s : AppState H} {i : Nat} {data : Doc H} {change : H}
      (hphase : (s.sessions i).phase = .live data (.reading change))
      (happly : apply_change deps seed s.file change = none) :
      Step s { s.enter i (.live data .idle) with store_lock := none }
  | write {s : AppState H} {i : Nat} {data doc : Doc H} {change : H}
      (hphase : (s.sessions i).phase = .live data (.writing change doc)) :
      Step s { s.enter i (.live data (.moving change)) with tmp := some doc }
  | rename {s : AppState H} {i : Nat} {data doc : Doc H} {change : H}
      (hphase : (s.sessions i).phase = .live data (.moving change)) (htmp : s.tmp = some doc) :
      Step s ((s.enter i (.live data (.renamed change))).rename doc)
  | failApply {s : AppState H} {i : Nat} {data : Doc H} {recv : Recv H}
      (hphase : (s.sessions i).phase = .live data recv) (hholds : recv.holdsLock = true)
      (hpending : recv.pending = none) :
      Step s { s.enter i (.live data .idle) with store_lock := none }
  | unlockStore {s : AppState H} {i : Nat} {data : Doc H} {change : H}
      (hphase : (s.sessions i).phase = .live data (.renamed change)) :
      Step s { s.enter i (.live data (.broadcasting change)) with store_lock := none }
  | broadcast {s : AppState H} {i : Nat} {data : Doc H} {change : H}
      (hphase : (s.sessions i).phase = .live data (.broadcasting change)) :
      Step s
        { (s.send (.change change)).enter i (.live data .idle) with
          broadcasted := s.broadcasted ++ [change] }
  /-- The receive task finishes, or the send task does while the receive task
  has not written anything; the other one is aborted. -/
  | close {s : AppState H} {i : Nat} {data : Doc H} {recv : Recv H}
      (hphase : (s.sessions i).phase = .live data recv) (hinFlight : recv.inFlight = [])
      (hpending : recv.pending = none) :
      Step s
        { s.enter i .ended with
          store_lock := if recv.holdsLock then none else s.store_lock }
  | cleanup {s : AppState H} {i : Nat} (hphase : (s.sessions i).phase = .ended) :
      Step s
        { s with
          sessions := fun j => if j = i then {} else s.sessions j
          members := s.members.erase i }
  /-- A write of an aborted task reaches the disk. -/
  | lateWrite {s : AppState H} {before after : List (FsOp H)} {doc : Doc H}
      (hdetached : s.detached = before ++ FsOp.write doc :: after) :
      Step s { s with tmp := some doc, detached := before ++ after }
  | lateRename {s : AppState H} {before after : List (FsOp H)} {doc : Doc H}
      (hdetached : s.detached = before ++ FsOp.rename :: after) (htmp : s.tmp = some doc) :
      Step s { s.rename doc with detached := before ++ after }

/-- The send task ends while the receive task writes the file, or between its
rename and its broadcast: the receive task is aborted there. -/
inductive Abort : AppState H → AppState H → Prop where
  | abort {s : AppState H} {i : Nat} {data : Doc H} {recv : Recv H}
      (hphase : (s.sessions i).phase = .live data recv)
      (hinside : recv.inFlight ≠ [] ∨ recv.pending ≠ none) :
      Abort s
        { s.enter i .ended with
          store_lock := if recv.holdsLock then none else s.store_lock
          detached := s.detached ++ recv.inFlight }

/-- Any step of the server. -/
def AnyStep (s t : AppState H) : Prop := Step deps seed s t ∨ Abort s t

/-- The server when it starts on the file of the project. -/
def started (file : Option (Doc H)) : AppState H where
  file := file
  persisted := (file.map known).getD []

end DawProject.Server
