import DawProject.Lib.Causal
import DawProject.Lib.Run
import Mathlib.Logic.Function.Basic

/-!
The outbox of `web/src/network/server_client.ts`: `sendChange`, `flushOutbox`,
`persistOutbox` and `adoptOrphanOutboxes` of the tabs of one browser profile,
over its `localStorage`. The app connects a tab to one project. The browser runs
one task of the tabs at a time; a tab can crash inside its task, and any write
can fail. A stored queue is the list it encodes, or text that is none.
-/

namespace DawProject.Network.Outbox

/-- What a tab has queued: its own `seq`-th change. -/
structure Change (T : Type) where
  tab : T
  seq : Nat
deriving DecidableEq, Repr

/-- The text under a key `daw-outbox:<project>:<tab>`. -/
inductive Stored (T : Type) where
  | queue (changes : List (Change T))
  | unreadable
deriving DecidableEq, Repr

structure Tab (T : Type) where
  crashed : Bool := false
  /-- `readyState` is `OPEN`. -/
  isOpen : Bool := false
  awaitingInitialDoc : Bool := true
  outbox : List (Change T) := []
  /-- How many changes it has queued, and whether its last write to the storage
  succeeded: no step reads the second. -/
  queued : Nat := 0
  saved : Bool := true
deriving DecidableEq, Repr

/-- Where the task of a document message is. -/
inductive Task (T : Type) where
  | onDocument
  /-- The queues under these keys are in front of the outbox. -/
  | persisting (orphanKeys : List T)
  | removing (orphanKeys : List T)
  | flushing
deriving DecidableEq, Repr

/-- The browser profile. `handed` lists the queued changes given to an open
socket; `dropped` what was in the outbox of a tab that crashed after its last
write had failed. No step reads them. -/
structure Profile (T : Type) where
  storage : T → Option (Stored T)
  tabs : T → Tab T := fun _ => {}
  running : Option (T × Task T) := none
  handed : List (Change T) := []
  dropped : List (Change T) := []

namespace Profile

variable {T : Type} [DecidableEq T] (s : Profile T) (t : T)

def put (tab : Tab T) : Profile T := { s with tabs := Function.update s.tabs t tab }

/-- `persistOutbox`; `written` tells whether the storage took the write. -/
def persistOutbox (written : Bool) : Profile T :=
  let tab := s.tabs t
  if written then
    { s.put t { tab with saved := true } with
      storage := Function.update s.storage t
        (if tab.outbox.isEmpty then none else some (.queue tab.outbox)) }
  else s.put t { tab with saved := false }

def sendChange (written : Bool) : Profile T :=
  let tab := s.tabs t
  if tab.isOpen && !tab.awaitingInitialDoc then s
  else
    (s.put t { tab with
      outbox := tab.outbox ++ [⟨t, tab.queued⟩], queued := tab.queued + 1 }).persistOutbox t written

/-- `flushOutbox`, when the socket is found open for the first `sent` changes. -/
def flushOutbox (sent : Nat) (written : Bool) : Profile T :=
  let tab := s.tabs t
  if !tab.isOpen || tab.outbox.isEmpty then s
  else
    let s := { s with handed := s.handed ++ tab.outbox.take sent }
    if sent < tab.outbox.length then s
    else (s.put t { tab with outbox := [] }).persistOutbox t written

/-- The changes under the orphaned keys; one unreadable text is an exception. -/
def readOrphans : List T → Option (List (Change T))
  | [] => some []
  | key :: rest =>
      match s.storage key with
      | none => readOrphans rest
      | some (.queue changes) => (readOrphans rest).map (changes ++ ·)
      | some .unreadable => none

/-- `adoptOrphanOutboxes` up to its first write. -/
def adoptOrphanOutboxes (orphanKeys : List T) : Profile T :=
  if orphanKeys.isEmpty then { s with running := some (t, .flushing) }
  else
    match s.readOrphans orphanKeys with
    | none => { s with running := some (t, .flushing) }
    | some adopted =>
        { s.put t { s.tabs t with outbox := adopted ++ (s.tabs t).outbox } with
          running := some (t, .persisting orphanKeys) }

def crash : Profile T :=
  { s.put t { s.tabs t with crashed := true } with
    running := if s.running.map Prod.fst = some t then none else s.running
    dropped := if (s.tabs t).saved then s.dropped else s.dropped ++ (s.tabs t).outbox }

/-- The tab runs no task, or is in the callback of a document message. -/
def MayCall : Prop := s.running = none ∨ s.running = some (t, .onDocument)

end Profile

section Steps

-- The project of a tab; the orphaned keys of a project, in any order.
variable {T P : Type} [DecidableEq T] (projectId : T → P)

def OrphanKeys (s : Profile T) (t : T) (keys : List T) : Prop :=
  ∀ key, key ∈ keys ↔ key ≠ t ∧ projectId key = projectId t ∧ (s.storage key).isSome = true

inductive Step : Profile T → Profile T → Prop where
  | connect {s : Profile T} {t : T} (hidle : s.running = none)
      (hlive : (s.tabs t).crashed = false) : Step s (s.put t { s.tabs t with isOpen := false })
  | opened {s : Profile T} {t : T} (hidle : s.running = none)
      (hlive : (s.tabs t).crashed = false) :
      Step s (s.put t { s.tabs t with isOpen := true, awaitingInitialDoc := true })
  /-- The socket closes, or the app disconnects. -/
  | closed {s : Profile T} {t : T} (hcall : s.MayCall t) (hlive : (s.tabs t).crashed = false) :
      Step s (s.put t { s.tabs t with isOpen := false })
  | sendChange {s : Profile T} {t : T} {written : Bool} (hcall : s.MayCall t)
      (hlive : (s.tabs t).crashed = false) : Step s (s.sendChange t written)
  | document {s : Profile T} {t : T} (hidle : s.running = none)
      (hlive : (s.tabs t).crashed = false) (hopen : (s.tabs t).isOpen = true)
      (hawaiting : (s.tabs t).awaitingInitialDoc = true) :
      Step s { s.put t { s.tabs t with awaitingInitialDoc := false } with
        running := some (t, .onDocument) }
  | adopt {s : Profile T} {t : T} {keys : List T} (hrunning : s.running = some (t, .onDocument))
      (hkeys : OrphanKeys projectId s t keys) : Step s (s.adoptOrphanOutboxes t keys)
  | persist {s : Profile T} {t : T} {keys : List T} {written : Bool}
      (hrunning : s.running = some (t, .persisting keys)) :
      Step s { s.persistOutbox t written with running := some (t, .removing keys) }
  | remove {s : Profile T} {t key : T} {rest : List T}
      (hrunning : s.running = some (t, .removing (key :: rest))) :
      Step s { s with
        storage := Function.update s.storage key none, running := some (t, .removing rest) }
  /-- A removal fails, or none is left. -/
  | removed {s : Profile T} {t : T} {keys : List T}
      (hrunning : s.running = some (t, .removing keys)) :
      Step s { s with running := some (t, .flushing) }
  | flush {s : Profile T} {t : T} {sent : Nat} {written : Bool}
      (hrunning : s.running = some (t, .flushing)) :
      Step s { s.flushOutbox t sent written with running := none }
  | crash {s : Profile T} {t : T} (hlive : (s.tabs t).crashed = false) : Step s (s.crash t)

/-- Nothing is stored when the profile is new, but for unreadable texts. -/
def started (junk : T → Bool) : Profile T where
  storage key := if junk key then some .unreadable else none

/-- Every queued change is stored for its project, in the outbox of a tab,
handed to an open socket, or excused. -/
def Kept (s : Profile T) (excused : List (Change T)) : Prop :=
  ∀ t n, n < (s.tabs t).queued →
    (∃ key changes, projectId key = projectId t ∧ s.storage key = some (.queue changes) ∧
      ⟨t, n⟩ ∈ changes) ∨
    (∃ u, (s.tabs u).crashed = false ∧ ⟨t, n⟩ ∈ (s.tabs u).outbox) ∨
    ⟨t, n⟩ ∈ s.handed ∨ ⟨t, n⟩ ∈ excused

/-- What the same tab queued before. -/
def before (c : Change T) : List (Change T) := (List.range c.seq).map fun n => ⟨c.tab, n⟩

/-- A tab's changes are first handed to a socket in the order it queued them. -/
def InOrder (s : Profile T) : Prop := Causal.Ready before [] s.handed

/-- An adoption by the tab takes every readable queue of the project into its
outbox. -/
def Recovers (s : Profile T) (t : T) : Prop :=
  ∀ keys, s.running = some (t, .onDocument) → OrphanKeys projectId s t keys →
    ∀ key ∈ keys, ∀ changes, s.storage key = some (.queue changes) →
      ∀ c ∈ changes, c ∈ ((s.adoptOrphanOutboxes t keys).tabs t).outbox

/-- No text stored for the project of the tab is unreadable. -/
def Readable (s : Profile T) (t : T) : Prop :=
  ∀ key, projectId key = projectId t → s.storage key ≠ some .unreadable

end Steps

end DawProject.Network.Outbox
