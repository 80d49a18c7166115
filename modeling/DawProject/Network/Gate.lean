import DawProject.Lib.Bytes
import DawProject.Lib.ConstantTime
import DawProject.Lib.Run
import Mathlib.Data.Finset.Basic
import Mathlib.Data.List.Nodup
import Mathlib.Logic.Function.Basic

/-!
The door of the engine, `engine/src/websocket/websocket_server.cpp`: the token,
the sockets that may command and the ones that listen to the tap. A socket is
known by its address, and a new connection may get the address of an old one.
The callbacks of the sockets, the threads that send and the reaper interleave
between any two locked regions. A send that fails runs the close callback of
its target on the sending thread. Unless that happens while the target is about
to subscribe to the tap, only a connection whose first message was the token
commands or hears anything.
-/

namespace DawProject.Network.Gate

/-- What a message asks for. -/
inductive Payload (C : Type) where
  | tapControl (enabled : Bool)
  | command (c : C)

structure Config (C : Type) where
  auth_token_ : List UInt8
  allowed_origins_ : List String
  catalog_frame_ : List UInt8
  /-- Reads a serialized message. -/
  ParseFromArray : List UInt8 → Option (Payload C)

def AUTH_TIMEOUT_MS : Nat := 2000

def constantTimeEquals (a b : List UInt8) : Bool :=
  if a.length != b.length then false else ConstantTime.differences a b == 0

variable {A C : Type}

def Config.originAllowed (config : Config C) (origin : String) : Bool :=
  config.allowed_origins_.isEmpty ||
    config.allowed_origins_.any fun allowed => allowed == "*" || allowed == origin

/-- A native client sends no origin. -/
def Config.admitsOrigin (config : Config C) (origin : String) : Bool :=
  origin.isEmpty || config.originAllowed origin

def Config.validateConnection (config : Config C) (origin : String) (token : List UInt8) : Bool :=
  constantTimeEquals token config.auth_token_ && config.admitsOrigin origin

/-- What the first message of a connection is checked for. -/
def Config.authenticates (config : Config C) (origin : String) (data : List UInt8) : Bool :=
  decide (2 ≤ data.length) && data.head? == some 0 && config.validateConnection origin data.tail

def serializeWithLength (payload : List UInt8) : List UInt8 :=
  (Bytes.leBytes 4 payload.length).reverse ++ payload

def Config.parseWithLength (config : Config C) (data : List UInt8) : Option (Payload C) :=
  if data.length < 4 then none
  else
    let len := Bytes.ofLE (data.take 4).reverse
    if data.length < len + 4 then none else config.ParseFromArray ((data.drop 4).take len)

structure PendingAuth where
  origin : String
  deadline : Nat

/-- Where the thread of a socket is. -/
inductive Handler where
  /-- The handshake is not over. -/
  | connecting
  | idle
  /-- The socket was awaiting this message. -/
  | checking (origin : String) (data : List UInt8)
  | greeting
  /-- The socket was not awaited, `connections_` is asked next. -/
  | known (data : List UInt8)
  | admitted (data : List UInt8)

/-- The connection that has an address, by its number. -/
structure Tenant where
  conn : Nat
  /-- The close callback has run. -/
  closed : Bool := false
  handler : Handler := .connecting

/-- One message on its way to all, or to the subscribers of the tap. -/
structure Send (A : Type) where
  tap : Bool
  /-- The clients have been reduced to the ones that may hear it. -/
  locked : Bool := false
  targets : List A

inductive Reaper (A : Type) where
  | sleeping
  | gathered (clients : List A) (now : Nat)
  | closing (expired : List A)

def Reaper.clients : Reaper A → List A
  | .sleeping => []
  | .gathered clients _ => clients
  | .closing expired => expired

/-- The message that a connection was awaited for. -/
structure First where
  conn : Nat
  origin : String
  data : List UInt8

structure Command (C : Type) where
  conn : Nat
  command : C

structure Sent where
  conn : Nat
  tap : Bool

/-- The server and its sockets. `opened` counts the connections, `firsts`, `commands`
and `sent` hold what they have done; no step reads them. -/
structure WebSocketServer (A C : Type) where
  connections_ : Finset A := ∅
  pending_auth_ : A → Option PendingAuth := fun _ => none
  tap_subscribers_ : Finset A := ∅
  /-- The tap ring is written. -/
  enabled : Bool := false
  now : Nat := 0
  sockets : A → Option Tenant := fun _ => none
  sends : List (Send A) := []
  reaper : Reaper A := .sleeping
  opened : Nat := 0
  firsts : List First := []
  commands : List (Command C) := []
  sent : List Sent := []

namespace WebSocketServer

variable [DecidableEq A]

def put (s : WebSocketServer A C) (a : A) (tenant : Tenant) : WebSocketServer A C :=
  { s with sockets := Function.update s.sockets a (some tenant) }

/-- The close callback. -/
def close (s : WebSocketServer A C) (a : A) (tenant : Tenant) : WebSocketServer A C :=
  { s.put a { tenant with closed := true } with
    connections_ := s.connections_.erase a
    pending_auth_ := Function.update s.pending_auth_ a none
    tap_subscribers_ := s.tap_subscribers_.erase a
    enabled := if s.tap_subscribers_.erase a = ∅ then false else s.enabled }

def handleTapControl (s : WebSocketServer A C) (a : A) (enabled : Bool) : WebSocketServer A C :=
  let subscribers := if enabled then insert a s.tap_subscribers_ else s.tap_subscribers_.erase a
  { s with tap_subscribers_ := subscribers, enabled := decide (subscribers ≠ ∅) }

/-- Who hears a message. -/
def hearers (s : WebSocketServer A C) (tap : Bool) : Finset A :=
  if tap then s.tap_subscribers_ else s.connections_

/-- A client whose deadline is over. -/
def expired (s : WebSocketServer A C) (now : Nat) (a : A) : Bool :=
  match s.pending_auth_ a with
  | some pending => decide (pending.deadline ≤ now)
  | none => false

end WebSocketServer

variable [DecidableEq A] (config : Config C)

inductive Step : WebSocketServer A C → WebSocketServer A C → Prop where
  /-- A connection gets a free address. -/
  | connect {s : WebSocketServer A C} (a : A) (hfree : s.sockets a = none) :
      Step s { s.put a { conn := s.opened } with opened := s.opened + 1 }
  /-- The handshake fails. -/
  | abort {s : WebSocketServer A C} {a : A} {t : Tenant} (hsocket : s.sockets a = some t)
      (hhandler : t.handler = .connecting) :
      Step s (s.put a { t with closed := true, handler := .idle })
  | refuse {s : WebSocketServer A C} {a : A} {t : Tenant} (origin : String)
      (hsocket : s.sockets a = some t) (hhandler : t.handler = .connecting)
      (horigin : config.admitsOrigin origin = false) :
      Step s (s.put a { t with handler := .idle })
  | open_ {s : WebSocketServer A C} {a : A} {t : Tenant} (origin : String)
      (hsocket : s.sockets a = some t) (hhandler : t.handler = .connecting)
      (horigin : config.admitsOrigin origin = true) :
      Step s
        { s.put a { t with handler := .idle } with
          pending_auth_ := Function.update s.pending_auth_ a <|
            some ⟨origin, s.now + AUTH_TIMEOUT_MS⟩ }
  | awaited {s : WebSocketServer A C} {a : A} {t : Tenant} {pending : PendingAuth}
      (data : List UInt8) (hsocket : s.sockets a = some t) (hhandler : t.handler = .idle)
      (hpending : s.pending_auth_ a = some pending) :
      Step s
        { s.put a { t with handler := .checking pending.origin data } with
          pending_auth_ := Function.update s.pending_auth_ a none
          firsts := s.firsts ++ [⟨t.conn, pending.origin, data⟩] }
  | accept {s : WebSocketServer A C} {a : A} {t : Tenant} {origin : String} {data : List UInt8}
      (hsocket : s.sockets a = some t) (hhandler : t.handler = .checking origin data)
      (hvalid : config.authenticates origin data = true) :
      Step s
        { s.put a { t with handler := .greeting } with connections_ := insert a s.connections_ }
  | deny {s : WebSocketServer A C} {a : A} {t : Tenant} {origin : String} {data : List UInt8}
      (hsocket : s.sockets a = some t) (hhandler : t.handler = .checking origin data)
      (hvalid : config.authenticates origin data = false) :
      Step s (s.put a { t with handler := .idle })
  | greet {s : WebSocketServer A C} {a : A} {t : Tenant} (hsocket : s.sockets a = some t)
      (hhandler : t.handler = .greeting) :
      Step s
        { s.put a { t with handler := .idle } with
          sent := if config.catalog_frame_ = [] then s.sent else s.sent ++ [⟨t.conn, false⟩] }
  | unawaited {s : WebSocketServer A C} {a : A} {t : Tenant} (data : List UInt8)
      (hsocket : s.sockets a = some t) (hhandler : t.handler = .idle)
      (hpending : s.pending_auth_ a = none) :
      Step s (s.put a { t with handler := .known data })
  | enter {s : WebSocketServer A C} {a : A} {t : Tenant} {data : List UInt8}
      (hsocket : s.sockets a = some t) (hhandler : t.handler = .known data)
      (hmember : a ∈ s.connections_) : Step s (s.put a { t with handler := .admitted data })
  | ignore {s : WebSocketServer A C} {a : A} {t : Tenant} {data : List UInt8}
      (hsocket : s.sockets a = some t) (hhandler : t.handler = .known data)
      (hmember : a ∉ s.connections_) : Step s (s.put a { t with handler := .idle })
  | malformed {s : WebSocketServer A C} {a : A} {t : Tenant} {data : List UInt8}
      (hsocket : s.sockets a = some t) (hhandler : t.handler = .admitted data)
      (hparse : config.parseWithLength data = none) : Step s (s.put a { t with handler := .idle })
  | command {s : WebSocketServer A C} {a : A} {t : Tenant} {data : List UInt8} {c : C}
      (hsocket : s.sockets a = some t) (hhandler : t.handler = .admitted data)
      (hparse : config.parseWithLength data = some (.command c)) :
      Step s
        { s.put a { t with handler := .idle } with commands := s.commands ++ [⟨t.conn, c⟩] }
  | tapControl {s : WebSocketServer A C} {a : A} {t : Tenant} {data : List UInt8} {enabled : Bool}
      (hsocket : s.sockets a = some t) (hhandler : t.handler = .admitted data)
      (hparse : config.parseWithLength data = some (.tapControl enabled)) :
      Step s ((s.put a { t with handler := .idle }).handleTapControl a enabled)
  /-- The callback runs on the thread of the socket. -/
  | close {s : WebSocketServer A C} {a : A} {t : Tenant} (hsocket : s.sockets a = some t)
      (hhandler : t.handler = .idle) : Step s (s.close a t)
  /-- Nobody holds the socket any more. -/
  | destroy {s : WebSocketServer A C} {a : A} {t : Tenant} (hsocket : s.sockets a = some t)
      (hhandler : t.handler = .idle) (hclosed : t.closed = true)
      (hsends : ∀ send ∈ s.sends, a ∉ send.targets) (hreaper : a ∉ s.reaper.clients) :
      Step s { s with sockets := Function.update s.sockets a none }
  | gather {s : WebSocketServer A C} (tap : Bool) (clients : List A)
      (hclients : ∀ a ∈ clients, s.sockets a ≠ none) :
      Step s { s with sends := s.sends ++ [{ tap := tap, targets := clients }] }
  | lock {s : WebSocketServer A C} {before after : List (Send A)} {send : Send A}
      (hsends : s.sends = before ++ send :: after) (hlocked : send.locked = false) :
      Step s
        { s with
          sends := before ++
            { send with
              locked := true
              targets := send.targets.filter (· ∈ s.hearers send.tap) } :: after }
  | deliver {s : WebSocketServer A C} {before after : List (Send A)} {send : Send A} {a : A}
      {rest : List A} {t : Tenant} (hsends : s.sends = before ++ send :: after)
      (hlocked : send.locked = true) (htargets : send.targets = a :: rest)
      (hsocket : s.sockets a = some t) :
      Step s
        { s with
          sends := before ++ { send with targets := rest } :: after
          sent := s.sent ++ [⟨t.conn, send.tap⟩] }
  /-- The send fails, and the callback runs on the sending thread. -/
  | fail {s : WebSocketServer A C} {before after : List (Send A)} {send : Send A} {a : A}
      {rest : List A} {t : Tenant} (hsends : s.sends = before ++ send :: after)
      (hlocked : send.locked = true) (htargets : send.targets = a :: rest)
      (hsocket : s.sockets a = some t) :
      Step s { s.close a t with sends := before ++ { send with targets := rest } :: after }
  | done {s : WebSocketServer A C} {before after : List (Send A)} {send : Send A}
      (hsends : s.sends = before ++ send :: after) (hlocked : send.locked = true)
      (htargets : send.targets = []) : Step s { s with sends := before ++ after }
  | wake {s : WebSocketServer A C} (clients : List A) (hreaper : s.reaper = .sleeping)
      (hclients : ∀ a ∈ clients, s.sockets a ≠ none) :
      Step s { s with reaper := .gathered clients s.now }
  | expire {s : WebSocketServer A C} {clients : List A} {now : Nat}
      (hreaper : s.reaper = .gathered clients now) :
      Step s
        { s with
          reaper := .closing (clients.filter (s.expired now))
          pending_auth_ := fun a =>
            if a ∈ clients ∧ s.expired now a = true then none else s.pending_auth_ a }
  /-- The callback runs later, on the thread of the socket. -/
  | reap {s : WebSocketServer A C} {a : A} {rest : List A}
      (hreaper : s.reaper = .closing (a :: rest)) : Step s { s with reaper := .closing rest }
  | reapNow {s : WebSocketServer A C} {a : A} {rest : List A} {t : Tenant}
      (hreaper : s.reaper = .closing (a :: rest)) (hsocket : s.sockets a = some t) :
      Step s { s.close a t with reaper := .closing rest }
  | sleep {s : WebSocketServer A C} (hreaper : s.reaper = .closing []) :
      Step s { s with reaper := .sleeping }
  | tick {s : WebSocketServer A C} : Step s { s with now := s.now + 1 }

/-- The thread of the socket is past the gate, with a subscription to the tap. -/
def Config.Subscribing (t : Tenant) : Prop :=
  ∃ data, t.handler = .admitted data ∧ config.parseWithLength data = some (.tapControl true)

/-- A step that closes no socket that is about to subscribe. -/
structure QuietStep (s next : WebSocketServer A C) : Prop where
  step : Step config s next
  quiet : ∀ a t t', s.sockets a = some t → next.sockets a = some t' → config.Subscribing t →
    t.closed = false → config.Subscribing t' → t'.closed = false

/-- The first message of a connection was the token, from an origin that is allowed. -/
def Config.Vouched (firsts : List First) (conn : Nat) : Prop :=
  ∃ first ∈ firsts, first.conn = conn ∧ first.data = 0 :: config.auth_token_ ∧
    config.admitsOrigin first.origin = true

/-- Only who gave the token commands and hears, and the tap runs for such a one. -/
structure WebSocketServer.Guarded (s : WebSocketServer A C) : Prop where
  single : (s.firsts.map First.conn).Nodup
  commands : ∀ c ∈ s.commands, config.Vouched s.firsts c.conn
  sent : ∀ m ∈ s.sent, config.Vouched s.firsts m.conn
  connections : ∀ a ∈ s.connections_, ∃ t, s.sockets a = some t ∧ t.closed = false ∧
    config.Vouched s.firsts t.conn
  tap : s.enabled = true → ∃ a ∈ s.tap_subscribers_, ∃ t, s.sockets a = some t ∧
    t.closed = false ∧ config.Vouched s.firsts t.conn

section Token

/-- The comparison of the tokens is equality. -/
theorem constantTimeEquals_iff (a b : List UInt8) : constantTimeEquals a b = true ↔ a = b :=
  ConstantTime.compare_iff a b

theorem Config.authenticates_eq {origin : String} {data : List UInt8}
    (hvalid : config.authenticates origin data = true) :
    data = 0 :: config.auth_token_ ∧ config.admitsOrigin origin = true := by
  simp only [Config.authenticates, Config.validateConnection, Bool.and_eq_true,
    decide_eq_true_eq, beq_iff_eq, constantTimeEquals_iff] at hvalid
  obtain ⟨⟨-, hhead⟩, htail, horigin⟩ := hvalid
  cases data with
  | nil => cases hhead
  | cons first token =>
      obtain rfl := Option.some.inj hhead
      exact ⟨congrArg (List.cons 0) htail, horigin⟩

/-- A message is read as it was written, whatever follows it. -/
theorem parseWithLength_serializeWithLength {payload : List UInt8} (rest : List UInt8)
    (hlength : payload.length < 2 ^ 31) :
    config.parseWithLength (serializeWithLength payload ++ rest) =
      config.ParseFromArray payload := by
  have hprefix : ((Bytes.leBytes 4 payload.length).reverse).length = 4 := by simp
  have hvalue : Bytes.ofLE (Bytes.leBytes 4 payload.length).reverse.reverse = payload.length := by
    rw [List.reverse_reverse, Bytes.ofLE_leBytes]
    exact Nat.mod_eq_of_lt (by omega)
  unfold Config.parseWithLength serializeWithLength
  generalize (Bytes.leBytes 4 payload.length).reverse = size at hprefix hvalue
  have hlong : (size ++ payload ++ rest).length = 4 + payload.length + rest.length := by
    rw [List.length_append, List.length_append, hprefix]
  rw [if_neg (by omega), List.append_assoc, List.take_left' hprefix, List.drop_left' hprefix]
  dsimp only
  rw [hvalue, ← List.append_assoc, if_neg (by omega), List.take_left]

end Token

section Invariant

/-- The first message is behind. -/
def Handler.Past : Handler → Prop
  | .connecting | .checking _ _ => False
  | _ => True

/-- The thread is behind the gate. -/
def Handler.Inside : Handler → Prop
  | .greeting | .admitted _ => True
  | _ => False

namespace WebSocketServer

variable (s : WebSocketServer A C)

def Member (a : A) : Prop := a ∈ s.connections_ ∨ a ∈ s.tap_subscribers_

/-- A message is on its way to the socket. -/
def Targeted (a : A) : Prop := ∃ send ∈ s.sends, send.locked = true ∧ a ∈ send.targets

def Reaped (a : A) : Prop := ∃ expired, s.reaper = .closing expired ∧ a ∈ expired

/-- A thread other than its own holds the socket. -/
def Held (a : A) : Prop := (∃ send ∈ s.sends, a ∈ send.targets) ∨ a ∈ s.reaper.clients

end WebSocketServer

/-- What holds of a connection while it has its address. -/
structure Seat (t : Tenant) (pending : Option PendingAuth) (member targeted reaped : Prop)
    (firsts : List First) : Prop where
  fresh : t.handler = .connecting ∨ pending ≠ none → ∀ f ∈ firsts, f.conn ≠ t.conn
  connecting : t.handler = .connecting → t.closed = false
  awaiting : pending ≠ none → t.handler = .idle ∧ t.closed = false
  checking : ∀ origin data, t.handler = .checking origin data →
    t.closed = false ∧ ⟨t.conn, origin, data⟩ ∈ firsts
  live : member → t.closed = false
  past : member ∨ targeted ∨ reaped → pending = none ∧ t.handler.Past
  vouched : member ∨ targeted ∨ t.handler.Inside → config.Vouched firsts t.conn
  subscribing : config.Subscribing t → t.closed = false

structure Seated (s : WebSocketServer A C) : Prop where
  seat : ∀ a t, s.sockets a = some t → Seat config t (s.pending_auth_ a) (s.Member a)
    (s.Targeted a) (s.Reaped a) s.firsts
  absent : ∀ a, s.sockets a = none → s.pending_auth_ a = none ∧ ¬ s.Member a ∧ ¬ s.Held a

/-- The connections are numbered, and each of them has one first message. -/
structure Numbered (s : WebSocketServer A C) : Prop where
  lt : ∀ a t, s.sockets a = some t → t.conn < s.opened
  unique : ∀ a b t u, s.sockets a = some t → s.sockets b = some u → t.conn = u.conn → a = b
  firsts_lt : ∀ f ∈ s.firsts, f.conn < s.opened
  single : (s.firsts.map First.conn).Nodup

/-- What was done was done for connections that gave the token. -/
structure Heard (s : WebSocketServer A C) : Prop where
  commands : ∀ c ∈ s.commands, config.Vouched s.firsts c.conn
  sent : ∀ m ∈ s.sent, config.Vouched s.firsts m.conn
  enabled : s.enabled = decide (s.tap_subscribers_ ≠ ∅)

end Invariant

section Seat

variable {config} {s : WebSocketServer A C} {a : A} {t : Tenant} {pending : Option PendingAuth}
  {member member' targeted targeted' reaped reaped' : Prop} {firsts firsts' : List First}

omit [DecidableEq A] in
theorem Config.Vouched.mono {conn : Nat} (hvouched : config.Vouched firsts conn)
    (hsub : ∀ f ∈ firsts, f ∈ firsts') : config.Vouched firsts' conn := by
  obtain ⟨f, hf, hfirst⟩ := hvouched
  exact ⟨f, hsub f hf, hfirst⟩

theorem Seat.mono (h : Seat config t pending member targeted reaped firsts)
    (hmember : member' → member) (htargeted : targeted' → member ∨ targeted)
    (hreaped : reaped' → reaped) (hsub : ∀ f ∈ firsts, f ∈ firsts')
    (hnew : ∀ f ∈ firsts', f.conn = t.conn → f ∈ firsts) :
    Seat config t pending member' targeted' reaped' firsts' where
  fresh := fun hfresh f hf hconn => h.fresh hfresh f (hnew f hf hconn) hconn
  connecting := h.connecting
  awaiting := h.awaiting
  checking := fun origin data hhandler =>
    ⟨(h.checking origin data hhandler).1, hsub _ (h.checking origin data hhandler).2⟩
  live := fun hm => h.live (hmember hm)
  past := by
    rintro (hm | ht | hr)
    · exact h.past (.inl (hmember hm))
    · rcases htargeted ht with hm | ht
      · exact h.past (.inl hm)
      · exact h.past (.inr (.inl ht))
    · exact h.past (.inr (.inr (hreaped hr)))
  vouched := by
    rintro (hm | ht | hi)
    · exact (h.vouched (.inl (hmember hm))).mono hsub
    · rcases htargeted ht with hm | ht
      · exact (h.vouched (.inl hm)).mono hsub
      · exact (h.vouched (.inr (.inl ht))).mono hsub
    · exact (h.vouched (.inr (.inr hi))).mono hsub
  subscribing := h.subscribing

/-- The thread of a socket that is past its first message moves on. -/
theorem Seat.move (h : Seat config t none member targeted reaped firsts) {handler : Handler}
    (hpast : handler.Past) (hinside : handler.Inside → config.Vouched firsts t.conn)
    (hsubscribing : config.Subscribing { t with handler := handler } → t.closed = false) :
    Seat config { t with handler := handler } none member targeted reaped firsts where
  fresh := by
    rintro (hconnecting | hnone)
    · rw [show handler = .connecting from hconnecting] at hpast
      exact hpast.elim
    · exact absurd rfl hnone
  connecting := by
    intro hconnecting
    rw [show handler = .connecting from hconnecting] at hpast
    exact hpast.elim
  awaiting := fun hnone => absurd rfl hnone
  checking := by
    intro origin data hchecking
    rw [show handler = .checking origin data from hchecking] at hpast
    exact hpast.elim
  live := h.live
  past := fun _ => ⟨rfl, hpast⟩
  vouched := by
    rintro (hm | ht | hi)
    · exact h.vouched (.inl hm)
    · exact h.vouched (.inr (.inl ht))
    · exact hinside hi
  subscribing := hsubscribing

theorem Seat.pending_eq (h : Seat config t pending member targeted reaped firsts)
    (hbusy : t.handler ≠ .idle) : pending = none := by
  by_contra hsome
  exact hbusy (h.awaiting hsome).1

theorem Seat.outside (h : Seat config t pending member targeted reaped firsts)
    (hnot : ¬ (pending = none ∧ t.handler.Past)) : ¬ (member ∨ targeted ∨ reaped) :=
  fun hm => hnot (h.past hm)

/-- A connection that nobody knows yet, or that was refused. -/
theorem Seat.idle (hout : ¬ (member ∨ targeted ∨ reaped)) (hidle : t.handler = .idle) :
    Seat config t none member targeted reaped firsts where
  fresh := by
    rintro (hconnecting | hnone)
    · rw [hidle] at hconnecting
      cases hconnecting
    · exact absurd rfl hnone
  connecting := by
    intro hconnecting
    rw [hidle] at hconnecting
    cases hconnecting
  awaiting := fun hnone => absurd rfl hnone
  checking := by
    intro origin data hchecking
    rw [hidle] at hchecking
    cases hchecking
  live := fun hm => absurd (Or.inl hm) hout
  past := fun hm => absurd hm hout
  vouched := by
    rintro (hm | ht | hi)
    · exact absurd (Or.inl hm) hout
    · exact absurd (Or.inr (Or.inl ht)) hout
    · rw [hidle] at hi
      exact hi.elim
  subscribing := by
    rintro ⟨data, hadmitted, -⟩
    rw [hidle] at hadmitted
    cases hadmitted

end Seat

section Frame

variable {config} {s : WebSocketServer A C} {a : A}

/-- A step at one address. -/
theorem Seated.change (hs : Seated config s) (hn : Numbered s) (a : A)
    {sockets : A → Option Tenant} {pending_auth_ : A → Option PendingAuth}
    {connections_ tap_subscribers_ : Finset A} {enabled : Bool} {now opened : Nat}
    {firsts : List First} {commands : List (Command C)} {sent : List Sent}
    (hsockets : ∀ b, b ≠ a → sockets b = s.sockets b)
    (hpending : ∀ b, b ≠ a → pending_auth_ b = s.pending_auth_ b)
    (hconnections : ∀ b, b ≠ a → b ∈ connections_ → b ∈ s.connections_)
    (htap : ∀ b, b ≠ a → b ∈ tap_subscribers_ → b ∈ s.tap_subscribers_)
    (hsub : ∀ f ∈ s.firsts, f ∈ firsts)
    (hnew : ∀ f ∈ firsts, f ∈ s.firsts ∨ ∃ t, s.sockets a = some t ∧ f.conn = t.conn)
    (hseat : ∀ t, sockets a = some t → Seat config t (pending_auth_ a)
      (a ∈ connections_ ∨ a ∈ tap_subscribers_) (s.Targeted a) (s.Reaped a) firsts)
    (habsent : sockets a = none → pending_auth_ a = none ∧
      ¬ (a ∈ connections_ ∨ a ∈ tap_subscribers_) ∧ ¬ s.Held a) :
    Seated config
      { s with
        sockets := sockets, pending_auth_ := pending_auth_, connections_ := connections_,
        tap_subscribers_ := tap_subscribers_, enabled := enabled, now := now, opened := opened,
        firsts := firsts, commands := commands, sent := sent } where
  seat := by
    intro b t hb
    by_cases hba : b = a
    · subst hba
      exact hseat t hb
    · have hold : s.sockets b = some t := (hsockets b hba).symm.trans hb
      have hkept := hs.seat b t hold
      rw [← hpending b hba] at hkept
      refine hkept.mono ?_ .inr id hsub ?_
      · exact Or.imp (hconnections b hba) (htap b hba)
      · intro f hf hconn
        rcases hnew f hf with hf | ⟨u, hu, hnumber⟩
        · exact hf
        · exact absurd (hn.unique b a t u hold hu (hconn.symm.trans hnumber)) hba
  absent := by
    intro b hb
    by_cases hba : b = a
    · subst hba
      exact habsent hb
    · obtain ⟨hnone, hmember, hheld⟩ := hs.absent b ((hsockets b hba).symm.trans hb)
      exact ⟨(hpending b hba).trans hnone,
        fun hm => hmember (hm.imp (hconnections b hba) (htap b hba)), hheld⟩

omit [DecidableEq A] in
/-- The messages on their way and the reaper change. -/
theorem Seated.carry (hs : Seated config s) {sends : List (Send A)} {reaper : Reaper A} {now : Nat}
    {sent : List Sent}
    (htargeted : ∀ a, (∃ send ∈ sends, send.locked = true ∧ a ∈ send.targets) →
      s.Member a ∨ s.Targeted a)
    (hreaped : ∀ a, (∃ expired, reaper = .closing expired ∧ a ∈ expired) → s.Reaped a)
    (hheld : ∀ a, ((∃ send ∈ sends, a ∈ send.targets) ∨ a ∈ reaper.clients) →
      s.Held a ∨ s.sockets a ≠ none) :
    Seated config { s with sends := sends, reaper := reaper, now := now, sent := sent } where
  seat := fun a t hsocket => (hs.seat a t hsocket).mono id (htargeted a) (hreaped a)
    (fun _ hf => hf) fun _ hf _ => hf
  absent := by
    intro a hnone
    obtain ⟨hpending, hmember, hold⟩ := hs.absent a hnone
    refine ⟨hpending, hmember, ?_⟩
    intro hnow
    rcases hheld a hnow with hheld | hsome
    · exact hold hheld
    · exact hsome hnone

omit [DecidableEq A] in
theorem Targeted.held {s : WebSocketServer A C} {a : A} (h : s.Targeted a) : s.Held a := by
  obtain ⟨send, hsend, -, ha⟩ := h
  exact .inl ⟨send, hsend, ha⟩

omit [DecidableEq A] in
theorem Reaped.held {s : WebSocketServer A C} {a : A} (h : s.Reaped a) : s.Held a := by
  obtain ⟨expired, hreaper, ha⟩ := h
  refine .inr ?_
  rw [hreaper]
  exact ha

end Frame

section Address

variable {config} {s : WebSocketServer A C} {a : A} {t : Tenant}

@[simp] theorem put_sockets_self (t : Tenant) : (s.put a t).sockets a = some t :=
  Function.update_self a _ _

theorem Seated.connect (hs : Seated config s) (hn : Numbered s) (hfree : s.sockets a = none) :
    Seated config { s.put a { conn := s.opened } with opened := s.opened + 1 } := by
  obtain ⟨hpending, hmember, hheld⟩ := hs.absent a hfree
  have hout : ¬ (s.Member a ∨ s.Targeted a ∨ s.Reaped a) := by
    rintro (hm | ht | hr)
    · exact hmember hm
    · exact hheld (Targeted.held ht)
    · exact hheld (Reaped.held hr)
  refine hs.change hn a (fun b hba => Function.update_of_ne hba _ _) (fun _ _ => rfl)
    (fun _ _ h => h) (fun _ _ h => h) (fun _ h => h) (fun _ h => .inl h) ?_ ?_
  · intro t ht
    rw [put_sockets_self] at ht
    obtain rfl := Option.some.inj ht
    show Seat config _ (s.pending_auth_ a) (s.Member a) (s.Targeted a) (s.Reaped a) s.firsts
    rw [hpending]
    refine ⟨fun _ f hf => (hn.firsts_lt f hf).ne, fun _ => rfl, fun hnone => absurd rfl hnone, ?_,
      fun hm => absurd (Or.inl hm) hout, fun hm => absurd hm hout, ?_, fun _ => rfl⟩
    · intro origin data hchecking
      cases hchecking
    · rintro (hm | ht | hi)
      · exact absurd (Or.inl hm) hout
      · exact absurd (Or.inr (Or.inl ht)) hout
      · exact hi.elim
  · intro hnone
    rw [put_sockets_self] at hnone
    cases hnone

/-- The connection at an address changes, with what the server knows of it. -/
theorem Seated.put (hs : Seated config s) (hn : Numbered s) (hsocket : s.sockets a = some t)
    {u : Tenant} {pending_auth_ : A → Option PendingAuth} {connections_ tap_subscribers_ : Finset A}
    {enabled : Bool} {firsts : List First} {commands : List (Command C)} {sent : List Sent}
    (hpending : ∀ b, b ≠ a → pending_auth_ b = s.pending_auth_ b)
    (hconnections : ∀ b, b ≠ a → b ∈ connections_ → b ∈ s.connections_)
    (htap : ∀ b, b ≠ a → b ∈ tap_subscribers_ → b ∈ s.tap_subscribers_)
    (hsub : ∀ f ∈ s.firsts, f ∈ firsts)
    (hnew : ∀ f ∈ firsts, f ∈ s.firsts ∨ f.conn = t.conn)
    (hseat : Seat config u (pending_auth_ a) (a ∈ connections_ ∨ a ∈ tap_subscribers_)
      (s.Targeted a) (s.Reaped a) firsts) :
    Seated config
      { s.put a u with
        pending_auth_ := pending_auth_, connections_ := connections_,
        tap_subscribers_ := tap_subscribers_, enabled := enabled, firsts := firsts,
        commands := commands, sent := sent } := by
  refine hs.change hn a (fun b hba => Function.update_of_ne hba _ _) hpending hconnections htap hsub
    (fun f hf => (hnew f hf).imp_right fun hconn => ⟨t, hsocket, hconn⟩) ?_ ?_
  · intro v hv
    rw [put_sockets_self] at hv
    obtain rfl := Option.some.inj hv
    exact hseat
  · intro hnone
    rw [put_sockets_self] at hnone
    cases hnone

/-- The thread of a socket moves on. -/
theorem Seated.handler (hs : Seated config s) (hn : Numbered s) (hsocket : s.sockets a = some t)
    (hpending : s.pending_auth_ a = none) {handler : Handler} (hpast : handler.Past)
    (hinside : handler.Inside → config.Vouched s.firsts t.conn)
    (hsubscribing : config.Subscribing { t with handler := handler } → t.closed = false)
    {commands : List (Command C)} {sent : List Sent} :
    Seated config
      { s.put a { t with handler := handler } with commands := commands, sent := sent } := by
  have hseat := hs.seat a t hsocket
  rw [hpending] at hseat
  refine hs.put hn hsocket (fun _ _ => rfl) (fun _ _ h => h) (fun _ _ h => h) (fun _ h => h)
    (fun _ h => .inl h) ?_
  show Seat config _ (s.pending_auth_ a) (s.Member a) _ _ s.firsts
  rw [hpending]
  exact hseat.move hpast hinside hsubscribing

theorem not_subscribing_of_handler (hnot : ∀ data, t.handler ≠ .admitted data) :
    ¬ config.Subscribing t := by
  rintro ⟨data, hadmitted, -⟩
  exact hnot data hadmitted

/-- The thread of a socket is done with a message. -/
theorem Seated.rest (hs : Seated config s) (hn : Numbered s) (hsocket : s.sockets a = some t)
    (hbusy : t.handler ≠ .idle) {commands : List (Command C)} {sent : List Sent} :
    Seated config
      { s.put a { t with handler := .idle } with commands := commands, sent := sent } := by
  have hpending := (hs.seat a t hsocket).pending_eq hbusy
  refine hs.handler hn hsocket hpending (by trivial) False.elim ?_
  intro hsubscribing
  exact absurd hsubscribing (not_subscribing_of_handler (by simp))

/-- A handshake that opens nothing. -/
theorem Seated.refuse (hs : Seated config s) (hn : Numbered s) (hsocket : s.sockets a = some t)
    (hhandler : t.handler = .connecting) (closed : Bool) :
    Seated config (s.put a { t with closed := closed, handler := .idle }) := by
  have hseat := hs.seat a t hsocket
  have hpending : s.pending_auth_ a = none := hseat.pending_eq (by simp [hhandler])
  have hout := hseat.outside (by rw [hhandler]; exact fun h => h.2)
  refine hs.put hn hsocket (fun _ _ => rfl) (fun _ _ h => h) (fun _ _ h => h) (fun _ h => h)
    (fun _ h => .inl h) ?_
  rw [hpending]
  exact Seat.idle hout rfl

theorem Seated.open_ (hs : Seated config s) (hn : Numbered s) (hsocket : s.sockets a = some t)
    (hhandler : t.handler = .connecting) (pending : PendingAuth) :
    Seated config
      { s.put a { t with handler := .idle } with
        pending_auth_ := Function.update s.pending_auth_ a (some pending) } := by
  have hseat := hs.seat a t hsocket
  have hout := hseat.outside (by rw [hhandler]; exact fun h => h.2)
  refine hs.put hn hsocket (fun b hba => Function.update_of_ne hba _ _) (fun _ _ h => h)
    (fun _ _ h => h) (fun _ h => h) (fun _ h => .inl h) ?_
  rw [Function.update_self]
  refine ⟨fun _ => hseat.fresh (.inl hhandler), fun _ => hseat.connecting hhandler,
    fun _ => ⟨rfl, hseat.connecting hhandler⟩, ?_, fun hm => absurd (Or.inl hm) hout,
    fun hm => absurd hm hout, ?_, fun _ => hseat.connecting hhandler⟩
  · intro origin data hchecking
    cases hchecking
  · rintro (hm | ht | hi)
    · exact absurd (Or.inl hm) hout
    · exact absurd (Or.inr (Or.inl ht)) hout
    · exact hi.elim

theorem Seated.awaited (hs : Seated config s) (hn : Numbered s) (hsocket : s.sockets a = some t)
    {pending : PendingAuth} (hpending : s.pending_auth_ a = some pending) (data : List UInt8) :
    Seated config
      { s.put a { t with handler := .checking pending.origin data } with
        pending_auth_ := Function.update s.pending_auth_ a none
        firsts := s.firsts ++ [⟨t.conn, pending.origin, data⟩] } := by
  have hseat := hs.seat a t hsocket
  have hsome : s.pending_auth_ a ≠ none := by simp [hpending]
  have hclosed := (hseat.awaiting hsome).2
  have hout := hseat.outside fun h => hsome h.1
  refine hs.put hn hsocket (fun b hba => Function.update_of_ne hba _ _) (fun _ _ h => h)
    (fun _ _ h => h) (fun _ h => List.mem_append_left _ h) ?_ ?_
  · intro f hf
    refine (List.mem_append.mp hf).imp_right ?_
    intro hlast
    rw [List.mem_singleton.mp hlast]
  · rw [Function.update_self]
    refine ⟨?_, fun _ => hclosed, fun hnone => absurd rfl hnone, ?_,
      fun hm => absurd (Or.inl hm) hout, fun hm => absurd hm hout, ?_, fun _ => hclosed⟩
    · rintro (hconnecting | hnone)
      · cases hconnecting
      · exact absurd rfl hnone
    · intro origin data' hchecking
      injection hchecking with horigin hdata
      rw [← horigin, ← hdata]
      exact ⟨hclosed, List.mem_append_right _ List.mem_cons_self⟩
    · rintro (hm | ht | hi)
      · exact absurd (Or.inl hm) hout
      · exact absurd (Or.inr (Or.inl ht)) hout
      · exact hi.elim

theorem Seated.accept (hs : Seated config s) (hn : Numbered s) (hsocket : s.sockets a = some t)
    {origin : String} {data : List UInt8} (hhandler : t.handler = .checking origin data)
    (hvalid : config.authenticates origin data = true) :
    Seated config
      { s.put a { t with handler := .greeting } with
        connections_ := insert a s.connections_ } := by
  have hseat := hs.seat a t hsocket
  have hpending : s.pending_auth_ a = none := hseat.pending_eq (by simp [hhandler])
  obtain ⟨hclosed, hfirst⟩ := hseat.checking origin data hhandler
  obtain ⟨hdata, horigin⟩ := config.authenticates_eq hvalid
  have hvouched : config.Vouched s.firsts t.conn := ⟨_, hfirst, rfl, hdata, horigin⟩
  refine hs.put hn hsocket (fun _ _ => rfl) (fun b hba h => ?_) (fun _ _ h => h) (fun _ h => h)
    (fun _ h => .inl h) ?_
  · exact (Finset.mem_insert.mp h).resolve_left hba
  · show Seat config _ (s.pending_auth_ a) _ _ _ s.firsts
    rw [hpending]
    refine ⟨?_, fun _ => hclosed, fun hnone => absurd rfl hnone, ?_, fun _ => hclosed,
      fun _ => ⟨rfl, trivial⟩, fun _ => hvouched, fun _ => hclosed⟩
    · rintro (hconnecting | hnone)
      · cases hconnecting
      · exact absurd rfl hnone
    · intro origin' data' hchecking
      cases hchecking

theorem Seated.tapControl (hs : Seated config s) (hn : Numbered s)
    (hsocket : s.sockets a = some t) {data : List UInt8} {enabled : Bool}
    (hhandler : t.handler = .admitted data)
    (hparse : config.parseWithLength data = some (.tapControl enabled)) :
    Seated config ((s.put a { t with handler := .idle }).handleTapControl a enabled) := by
  have hseat := hs.seat a t hsocket
  have hpending : s.pending_auth_ a = none := hseat.pending_eq (by simp [hhandler])
  have hvouched : config.Vouched s.firsts t.conn :=
    hseat.vouched (.inr (.inr (by rw [hhandler]; trivial)))
  have hlive : a ∈ s.connections_ ∨
      a ∈ (if enabled = true then insert a s.tap_subscribers_ else s.tap_subscribers_.erase a) →
      t.closed = false := by
    rintro (hm | hm)
    · exact hseat.live (.inl hm)
    · cases enabled with
      | true => exact hseat.subscribing ⟨data, hhandler, hparse⟩
      | false => exact absurd hm (Finset.notMem_erase a _)
  refine hs.put hn hsocket (fun _ _ => rfl) (fun _ _ h => h) (fun b hba h => ?_) (fun _ h => h)
    (fun _ h => .inl h) ?_
  · cases enabled with
    | true => exact (Finset.mem_insert.mp h).resolve_left hba
    | false => exact Finset.mem_of_mem_erase h
  · show Seat config _ (s.pending_auth_ a) _ _ _ _
    rw [hpending]
    refine ⟨?_, ?_, fun hnone => absurd rfl hnone, ?_, hlive, fun _ => ⟨rfl, trivial⟩,
      fun _ => hvouched, ?_⟩
    · rintro (hconnecting | hnone)
      · cases hconnecting
      · exact absurd rfl hnone
    · intro hconnecting
      cases hconnecting
    · intro origin' data' hchecking
      cases hchecking
    · rintro ⟨data', hadmitted, -⟩
      cases hadmitted

/-- The close callback of a socket that is not about to subscribe. -/
theorem Seated.close (hs : Seated config s) (hn : Numbered s) (hsocket : s.sockets a = some t)
    (hpast : t.handler.Past) (hquiet : ¬ config.Subscribing t) :
    Seated config (s.close a t) := by
  have hseat := hs.seat a t hsocket
  have hgone : ¬ (a ∈ s.connections_.erase a ∨ a ∈ s.tap_subscribers_.erase a) :=
    not_or.mpr ⟨Finset.notMem_erase a _, Finset.notMem_erase a _⟩
  refine hs.put hn hsocket (fun b hba => Function.update_of_ne hba _ _)
    (fun _ _ h => Finset.mem_of_mem_erase h) (fun _ _ h => Finset.mem_of_mem_erase h)
    (fun _ h => h) (fun _ h => .inl h) ?_
  rw [Function.update_self]
  refine ⟨?_, ?_, fun hnone => absurd rfl hnone, ?_, fun hm => absurd hm hgone,
    fun _ => ⟨rfl, hpast⟩, ?_, fun hsubscribing => absurd hsubscribing hquiet⟩
  · rintro (hconnecting | hnone)
    · rw [show t.handler = .connecting from hconnecting] at hpast
      exact hpast.elim
    · exact absurd rfl hnone
  · intro hconnecting
    rw [show t.handler = .connecting from hconnecting] at hpast
    exact hpast.elim
  · intro origin data hchecking
    rw [show t.handler = .checking origin data from hchecking] at hpast
    exact hpast.elim
  · rintro (hm | ht | hi)
    · exact absurd hm hgone
    · exact hseat.vouched (.inr (.inl ht))
    · exact hseat.vouched (.inr (.inr hi))

theorem Seated.destroy (hs : Seated config s) (hn : Numbered s) (hsocket : s.sockets a = some t)
    (hclosed : t.closed = true) (hheld : ¬ s.Held a) :
    Seated config { s with sockets := Function.update s.sockets a none } := by
  have hseat := hs.seat a t hsocket
  refine hs.change hn a (fun b hba => Function.update_of_ne hba _ _) (fun _ _ => rfl)
    (fun _ _ h => h) (fun _ _ h => h) (fun _ h => h) (fun _ h => .inl h) ?_ ?_
  · intro u hu
    rw [Function.update_self] at hu
    cases hu
  · intro _
    refine ⟨?_, ?_, hheld⟩
    · by_contra hsome
      exact absurd (hclosed.symm.trans (hseat.awaiting hsome).2) (by decide)
    · intro hm
      exact absurd (hclosed.symm.trans (hseat.live hm)) (by decide)

end Address

section Messages

variable {config} {s : WebSocketServer A C} {a : A} {before after : List (Send A)} {send : Send A}
  {rest : List A}

omit [DecidableEq A] in
theorem Seated.gather (hs : Seated config s) (tap : Bool) {clients : List A}
    (hclients : ∀ a ∈ clients, s.sockets a ≠ none) :
    Seated config { s with sends := s.sends ++ [{ tap := tap, targets := clients }] } := by
  refine hs.carry ?_ (fun _ h => h) ?_
  · rintro b ⟨other, hother, hlocked, hb⟩
    rcases List.mem_append.mp hother with hold | hlast
    · exact .inr ⟨other, hold, hlocked, hb⟩
    · rw [List.mem_singleton.mp hlast] at hlocked
      exact absurd hlocked Bool.false_ne_true
  · rintro b (⟨other, hother, hb⟩ | hb)
    · rcases List.mem_append.mp hother with hold | hlast
      · exact .inl (.inl ⟨other, hold, hb⟩)
      · rw [List.mem_singleton.mp hlast] at hb
        exact .inr (hclients b hb)
    · exact .inl (.inr hb)

omit [DecidableEq A] in
/-- One message loses targets. -/
theorem Seated.narrow (hs : Seated config s) (hsends : s.sends = before ++ send :: after)
    {locked : Bool} {targets : List A} (hsub : ∀ b ∈ targets, b ∈ send.targets)
    (hlocked : locked = true → ∀ b ∈ targets, s.Member b ∨ send.locked = true) {sent : List Sent} :
    Seated config
      { s with
        sends := before ++ { send with locked := locked, targets := targets } :: after
        sent := sent } := by
  have hmem : ∀ other ∈ before ++ { send with locked := locked, targets := targets } :: after,
      other ∈ s.sends ∨ other = { send with locked := locked, targets := targets } := by
    intro other hother
    rw [hsends]
    rcases List.mem_append.mp hother with hbefore | htail
    · exact .inl (List.mem_append_left _ hbefore)
    · rcases List.mem_cons.mp htail with rfl | hafter
      · exact .inr rfl
      · exact .inl (List.mem_append_right _ (List.mem_cons_of_mem _ hafter))
  have hsend : send ∈ s.sends := by
    rw [hsends]
    exact List.mem_append_right _ List.mem_cons_self
  refine hs.carry ?_ (fun _ h => h) ?_
  · rintro b ⟨other, hother, hl, hb⟩
    rcases hmem other hother with hold | rfl
    · exact .inr ⟨other, hold, hl, hb⟩
    · exact (hlocked hl b hb).imp_right fun hwas => ⟨send, hsend, hwas, hsub b hb⟩
  · rintro b (⟨other, hother, hb⟩ | hb)
    · rcases hmem other hother with hold | rfl
      · exact .inl (.inl ⟨other, hold, hb⟩)
      · exact .inl (.inl ⟨send, hsend, hsub b hb⟩)
    · exact .inl (.inr hb)

theorem Seated.lock (hs : Seated config s) (hsends : s.sends = before ++ send :: after) :
    Seated config
      { s with
        sends := before ++
          { send with
            locked := true
            targets := send.targets.filter (· ∈ s.hearers send.tap) } :: after } := by
  refine hs.narrow hsends (fun b hb => List.mem_of_mem_filter hb) (fun _ b hb => .inl ?_)
  have hhears := of_decide_eq_true (List.mem_filter.mp hb).2
  unfold WebSocketServer.hearers at hhears
  split at hhears
  · exact .inr hhears
  · exact .inl hhears

omit [DecidableEq A] in
/-- The first target has been sent to. -/
theorem Seated.shift (hs : Seated config s) (hsends : s.sends = before ++ send :: after)
    (hlocked : send.locked = true) (htargets : send.targets = a :: rest) {sent : List Sent} :
    Seated config
      { s with sends := before ++ { send with targets := rest } :: after, sent := sent } := by
  refine hs.narrow hsends (fun b hb => ?_) fun _ _ _ => .inr hlocked
  rw [htargets]
  exact List.mem_cons_of_mem _ hb

omit [DecidableEq A] in
theorem Seated.done (hs : Seated config s) (hsends : s.sends = before ++ send :: after) :
    Seated config { s with sends := before ++ after } := by
  have hsub : ∀ other ∈ before ++ after, other ∈ s.sends := by
    intro other hother
    rw [hsends]
    rcases List.mem_append.mp hother with hbefore | hafter
    · exact List.mem_append_left _ hbefore
    · exact List.mem_append_right _ (List.mem_cons_of_mem _ hafter)
  refine hs.carry ?_ (fun _ h => h) ?_
  · rintro b ⟨other, hother, hlocked, hb⟩
    exact .inr ⟨other, hsub other hother, hlocked, hb⟩
  · rintro b (⟨other, hother, hb⟩ | hb)
    · exact .inl (.inl ⟨other, hsub other hother, hb⟩)
    · exact .inl (.inr hb)

omit [DecidableEq A] in
/-- A target of a message on its way is past its first message. -/
theorem targeted_of_head (hsends : s.sends = before ++ send :: after)
    (hlocked : send.locked = true) (htargets : send.targets = a :: rest) : s.Targeted a := by
  refine ⟨send, ?_, hlocked, ?_⟩
  · rw [hsends]
    exact List.mem_append_right _ List.mem_cons_self
  · rw [htargets]
    exact List.mem_cons_self

omit [DecidableEq A] in
theorem Seated.wake (hs : Seated config s) {clients : List A}
    (hclients : ∀ a ∈ clients, s.sockets a ≠ none) :
    Seated config { s with reaper := .gathered clients s.now } := by
  refine hs.carry (fun _ h => .inr h) ?_ ?_
  · rintro b ⟨expired, hreaper, -⟩
    cases hreaper
  · rintro b (hb | hb)
    · exact .inl (.inl hb)
    · exact .inr (hclients b hb)

/-- The sockets whose deadline is over are awaited no longer. -/
theorem Seated.expire (hs : Seated config s) {clients : List A} {now : Nat}
    (hreaper : s.reaper = .gathered clients now) :
    Seated config
      { s with
        reaper := .closing (clients.filter (s.expired now))
        pending_auth_ := fun a =>
          if a ∈ clients ∧ s.expired now a = true then none else s.pending_auth_ a } where
  seat := by
    intro b t hsocket
    have hseat := hs.seat b t hsocket
    dsimp only
    by_cases hb : b ∈ clients ∧ s.expired now b = true
    · rw [if_pos hb]
      have hsome : s.pending_auth_ b ≠ none := by
        intro hnone
        have hexpired := hb.2
        unfold WebSocketServer.expired at hexpired
        rw [hnone] at hexpired
        exact absurd hexpired Bool.false_ne_true
      have hout := hseat.outside fun h => hsome h.1
      have hidle := (hseat.awaiting hsome).1
      have hclear : Seat config t none (s.Member b) (s.Targeted b) (s.Reaped b) s.firsts :=
        Seat.idle hout hidle
      exact
        { hclear with
          past := by
            rintro (hm | ht | -)
            · exact absurd (Or.inl hm) hout
            · exact absurd (Or.inr (Or.inl ht)) hout
            · rw [hidle]
              exact ⟨rfl, trivial⟩ }
    · rw [if_neg hb]
      refine hseat.mono id .inr ?_ (fun _ hf => hf) fun _ hf _ => hf
      rintro ⟨expired, hclosing, hmem⟩
      injection hclosing with hlist
      rw [← hlist] at hmem
      exact absurd (List.mem_filter.mp hmem) hb
  absent := by
    intro b hnone
    obtain ⟨hpending, hmember, hheld⟩ := hs.absent b hnone
    refine ⟨?_, hmember, ?_⟩
    · dsimp only
      rw [hpending, ite_self]
    · rintro (hsend | hclient)
      · exact hheld (.inl hsend)
      · refine hheld (.inr ?_)
        rw [hreaper]
        exact List.mem_of_mem_filter hclient

omit [DecidableEq A] in
theorem Seated.reap (hs : Seated config s) (hreaper : s.reaper = .closing (a :: rest)) :
    Seated config { s with reaper := .closing rest } := by
  refine hs.carry (fun _ h => .inr h) ?_ ?_
  · rintro b ⟨expired, hclosing, hb⟩
    injection hclosing with hlist
    rw [← hlist] at hb
    exact ⟨a :: rest, hreaper, List.mem_cons_of_mem _ hb⟩
  · rintro b (hb | hb)
    · exact .inl (.inl hb)
    · refine .inl (.inr ?_)
      rw [hreaper]
      exact List.mem_cons_of_mem _ hb

end Messages

section Step

variable {config} {s next : WebSocketServer A C} {a : A} {t : Tenant}

omit [DecidableEq A] in
/-- A quiet step does not close a socket that is about to subscribe. -/
theorem not_subscribing_of_quiet (hs : Seated config s) (hsocket : s.sockets a = some t)
    (hclosed : next.sockets a = some { t with closed := true })
    (hquiet : ∀ a t t', s.sockets a = some t → next.sockets a = some t' → config.Subscribing t →
      t.closed = false → config.Subscribing t' → t'.closed = false) :
    ¬ config.Subscribing t := by
  intro hsubscribing
  have hopen := (hs.seat a t hsocket).subscribing hsubscribing
  have hstill := hquiet a t _ hsocket hclosed hsubscribing hopen hsubscribing
  exact absurd hstill.symm Bool.false_ne_true

theorem Seated.step (hs : Seated config s) (hn : Numbered s) (hstep : QuietStep config s next) :
    Seated config next := by
  obtain ⟨hstep, hquiet⟩ := hstep
  cases hstep with
  | connect a hfree => exact hs.connect hn hfree
  | abort hsocket hhandler => exact hs.refuse hn hsocket hhandler true
  | @refuse a t origin hsocket hhandler horigin => exact hs.refuse hn hsocket hhandler t.closed
  | open_ origin hsocket hhandler horigin => exact hs.open_ hn hsocket hhandler _
  | awaited data hsocket hhandler hpending => exact hs.awaited hn hsocket hpending data
  | accept hsocket hhandler hvalid => exact hs.accept hn hsocket hhandler hvalid
  | deny hsocket hhandler hvalid => exact hs.rest hn hsocket (by simp [hhandler])
  | greet hsocket hhandler => exact hs.rest hn hsocket (by simp [hhandler])
  | unawaited data hsocket hhandler hpending =>
      exact hs.handler hn hsocket hpending (by trivial) False.elim
        fun hsub => absurd hsub (not_subscribing_of_handler (by simp))
  | @enter a t data hsocket hhandler hmember =>
      have hseat := hs.seat a t hsocket
      exact hs.handler hn hsocket (hseat.pending_eq (by simp [hhandler])) (by trivial)
        (fun _ => hseat.vouched (.inl (.inl hmember))) fun _ => hseat.live (.inl hmember)
  | ignore hsocket hhandler hmember => exact hs.rest hn hsocket (by simp [hhandler])
  | malformed hsocket hhandler hparse => exact hs.rest hn hsocket (by simp [hhandler])
  | command hsocket hhandler hparse => exact hs.rest hn hsocket (by simp [hhandler])
  | tapControl hsocket hhandler hparse => exact hs.tapControl hn hsocket hhandler hparse
  | close hsocket hhandler =>
      exact hs.close hn hsocket (by rw [hhandler]; trivial)
        (not_subscribing_of_handler (by simp [hhandler]))
  | destroy hsocket hhandler hclosed hsends hreaper =>
      refine hs.destroy hn hsocket hclosed ?_
      rintro (⟨send, hsend, ha⟩ | ha)
      · exact hsends send hsend ha
      · exact hreaper ha
  | gather tap clients hclients => exact hs.gather tap hclients
  | lock hsends hlocked => exact hs.lock hsends
  | deliver hsends hlocked htargets hsocket => exact hs.shift hsends hlocked htargets
  | @fail before after send a rest t hsends hlocked htargets hsocket =>
      have hpast := (hs.seat a t hsocket).past
        (.inr (.inl (targeted_of_head hsends hlocked htargets)))
      have hnot := not_subscribing_of_quiet hs hsocket (put_sockets_self _) hquiet
      exact (hs.close hn hsocket hpast.2 hnot).shift hsends hlocked htargets
  | done hsends hlocked htargets => exact hs.done hsends
  | wake clients hreaper hclients => exact hs.wake hclients
  | expire hreaper => exact hs.expire hreaper
  | reap hreaper => exact hs.reap hreaper
  | @reapNow a rest t hreaper hsocket =>
      have hpast := (hs.seat a t hsocket).past
        (.inr (.inr ⟨_, hreaper, List.mem_cons_self⟩))
      have hnot := not_subscribing_of_quiet hs hsocket (put_sockets_self _) hquiet
      exact (hs.close hn hsocket hpast.2 hnot).reap hreaper
  | sleep hreaper =>
      refine hs.carry (fun _ h => .inr h) ?_ ?_
      · rintro b ⟨expired, hclosing, -⟩
        cases hclosing
      · rintro b (hb | hb)
        · exact .inl (.inl hb)
        · exact absurd hb List.not_mem_nil
  | tick => exact ⟨hs.seat, hs.absent⟩

omit [DecidableEq A] in
/-- The connections keep their numbers. -/
theorem Numbered.keep (hn : Numbered s)
    (hsockets : ∀ b u, next.sockets b = some u → ∃ t, s.sockets b = some t ∧ t.conn = u.conn)
    (hopened : next.opened = s.opened) (hfirsts : next.firsts = s.firsts) : Numbered next where
  lt := by
    intro b u hu
    obtain ⟨t, ht, hconn⟩ := hsockets b u hu
    rw [← hconn, hopened]
    exact hn.lt b t ht
  unique := by
    intro b c u v hu hv hconn
    obtain ⟨t, ht, htu⟩ := hsockets b u hu
    obtain ⟨w, hw, hwv⟩ := hsockets c v hv
    exact hn.unique b c t w ht hw (htu.trans (hconn.trans hwv.symm))
  firsts_lt := by
    rw [hfirsts, hopened]
    exact hn.firsts_lt
  single := by
    rw [hfirsts]
    exact hn.single

theorem put_conn (hsocket : s.sockets a = some t) {u : Tenant} (hconn : t.conn = u.conn) :
    ∀ b v, (s.put a u).sockets b = some v → ∃ t, s.sockets b = some t ∧ t.conn = v.conn := by
  intro b v hv
  by_cases hba : b = a
  · subst hba
    rw [put_sockets_self] at hv
    obtain rfl := Option.some.inj hv
    exact ⟨t, hsocket, hconn⟩
  · exact ⟨v, (Function.update_of_ne hba _ _).symm.trans hv, rfl⟩

theorem Numbered.connect (hn : Numbered s) (hfree : s.sockets a = none) :
    Numbered { s.put a { conn := s.opened } with opened := s.opened + 1 } where
  lt := by
    intro b u hu
    by_cases hba : b = a
    · subst hba
      rw [put_sockets_self] at hu
      obtain rfl := Option.some.inj hu
      exact Nat.lt_succ_self _
    · exact Nat.lt_succ_of_lt (hn.lt b u ((Function.update_of_ne hba _ _).symm.trans hu))
  unique := by
    have hnew : ∀ b u, b ≠ a → (s.put a { conn := s.opened }).sockets b = some u →
        u.conn < s.opened := fun b u hba hu =>
      hn.lt b u ((Function.update_of_ne hba _ _).symm.trans hu)
    have hself : ∀ u, (s.put a { conn := s.opened }).sockets a = some u → u.conn = s.opened := by
      intro u hu
      rw [put_sockets_self] at hu
      obtain rfl := Option.some.inj hu
      rfl
    intro b c u v hu hv hconn
    by_cases hba : b = a
    · by_cases hca : c = a
      · rw [hba, hca]
      · subst hba
        have hlt := hnew c v hca hv
        rw [← hconn, hself u hu] at hlt
        exact absurd hlt (Nat.lt_irrefl _)
    · by_cases hca : c = a
      · subst hca
        have hlt := hnew b u hba hu
        rw [hconn, hself v hv] at hlt
        exact absurd hlt (Nat.lt_irrefl _)
      · exact hn.unique b c u v ((Function.update_of_ne hba _ _).symm.trans hu)
          ((Function.update_of_ne hca _ _).symm.trans hv) hconn
  firsts_lt := fun f hf => Nat.lt_succ_of_lt (hn.firsts_lt f hf)
  single := hn.single

theorem Numbered.step (hn : Numbered s) (hs : Seated config s) (hstep : Step config s next) :
    Numbered next := by
  cases hstep with
  | connect a hfree => exact hn.connect hfree
  | @awaited a t pending data hsocket hhandler hpending =>
      have hkeep : Numbered (s.put a { t with handler := .checking pending.origin data }) :=
        hn.keep (put_conn hsocket rfl) rfl rfl
      have hfresh := (hs.seat a t hsocket).fresh (.inr (by simp [hpending]))
      refine ⟨hkeep.lt, hkeep.unique, ?_, ?_⟩
      · intro f hf
        rcases List.mem_append.mp hf with hold | hlast
        · exact hn.firsts_lt f hold
        · rw [List.mem_singleton.mp hlast]
          exact hn.lt a t hsocket
      · show ((s.firsts ++ _).map First.conn).Nodup
        rw [List.map_append, List.map_singleton, List.nodup_append]
        refine ⟨hn.single, List.nodup_singleton _, ?_⟩
        intro c hc d hd
        obtain ⟨f, hf, rfl⟩ := List.mem_map.mp hc
        rw [List.mem_singleton.mp hd]
        exact hfresh f hf
  | destroy hsocket hhandler hclosed hsends hreaper =>
      refine hn.keep ?_ rfl rfl
      intro b u hu
      rename_i a t
      by_cases hba : b = a
      · subst hba
        cases (Function.update_self b none s.sockets).symm.trans hu
      · exact ⟨u, (Function.update_of_ne hba _ _).symm.trans hu, rfl⟩
  | abort hsocket hhandler => exact hn.keep (put_conn hsocket rfl) rfl rfl
  | refuse origin hsocket hhandler horigin => exact hn.keep (put_conn hsocket rfl) rfl rfl
  | open_ origin hsocket hhandler horigin => exact hn.keep (put_conn hsocket rfl) rfl rfl
  | accept hsocket hhandler hvalid => exact hn.keep (put_conn hsocket rfl) rfl rfl
  | deny hsocket hhandler hvalid => exact hn.keep (put_conn hsocket rfl) rfl rfl
  | greet hsocket hhandler => exact hn.keep (put_conn hsocket rfl) rfl rfl
  | unawaited data hsocket hhandler hpending => exact hn.keep (put_conn hsocket rfl) rfl rfl
  | enter hsocket hhandler hmember => exact hn.keep (put_conn hsocket rfl) rfl rfl
  | ignore hsocket hhandler hmember => exact hn.keep (put_conn hsocket rfl) rfl rfl
  | malformed hsocket hhandler hparse => exact hn.keep (put_conn hsocket rfl) rfl rfl
  | command hsocket hhandler hparse => exact hn.keep (put_conn hsocket rfl) rfl rfl
  | tapControl hsocket hhandler hparse => exact hn.keep (put_conn hsocket rfl) rfl rfl
  | close hsocket hhandler => exact hn.keep (put_conn hsocket rfl) rfl rfl
  | fail hsends hlocked htargets hsocket => exact hn.keep (put_conn hsocket rfl) rfl rfl
  | reapNow hreaper hsocket => exact hn.keep (put_conn hsocket rfl) rfl rfl
  | gather tap clients hclients => exact ⟨hn.lt, hn.unique, hn.firsts_lt, hn.single⟩
  | lock hsends hlocked => exact ⟨hn.lt, hn.unique, hn.firsts_lt, hn.single⟩
  | deliver hsends hlocked htargets hsocket => exact ⟨hn.lt, hn.unique, hn.firsts_lt, hn.single⟩
  | done hsends hlocked htargets => exact ⟨hn.lt, hn.unique, hn.firsts_lt, hn.single⟩
  | wake clients hreaper hclients => exact ⟨hn.lt, hn.unique, hn.firsts_lt, hn.single⟩
  | expire hreaper => exact ⟨hn.lt, hn.unique, hn.firsts_lt, hn.single⟩
  | reap hreaper => exact ⟨hn.lt, hn.unique, hn.firsts_lt, hn.single⟩
  | sleep hreaper => exact ⟨hn.lt, hn.unique, hn.firsts_lt, hn.single⟩
  | tick => exact ⟨hn.lt, hn.unique, hn.firsts_lt, hn.single⟩

theorem enabled_close (henabled : s.enabled = decide (s.tap_subscribers_ ≠ ∅)) (a : A)
    (t : Tenant) : (s.close a t).enabled = decide ((s.close a t).tap_subscribers_ ≠ ∅) := by
  show (if s.tap_subscribers_.erase a = ∅ then false else s.enabled) =
    decide (s.tap_subscribers_.erase a ≠ ∅)
  by_cases hempty : s.tap_subscribers_.erase a = ∅
  · rw [if_pos hempty, hempty]
    rfl
  · have hsome : s.tap_subscribers_ ≠ ∅ := by
      rintro hnone
      rw [hnone] at hempty
      exact hempty rfl
    rw [if_neg hempty, henabled, decide_eq_true hsome, decide_eq_true hempty]

theorem Vouched.append {firsts : List First} {conn : Nat} (hvouched : config.Vouched firsts conn)
    (more : List First) : config.Vouched (firsts ++ more) conn :=
  hvouched.mono fun _ hf => List.mem_append_left _ hf

theorem Heard.step (hh : Heard config s) (hs : Seated config s) (hstep : Step config s next) :
    Heard config next := by
  cases hstep with
  | @awaited a t pending data hsocket hhandler hpending =>
      exact ⟨fun c hc => Vouched.append (hh.commands c hc) _,
        fun m hm => Vouched.append (hh.sent m hm) _, hh.enabled⟩
  | @greet a t hsocket hhandler =>
      have hvouched := (hs.seat a t hsocket).vouched (.inr (.inr (by rw [hhandler]; trivial)))
      refine ⟨hh.commands, ?_, hh.enabled⟩
      intro m hm
      dsimp only at hm
      split at hm
      · exact hh.sent m hm
      · rcases List.mem_append.mp hm with hold | hlast
        · exact hh.sent m hold
        · rw [List.mem_singleton.mp hlast]
          exact hvouched
  | @command a t data c hsocket hhandler hparse =>
      have hvouched := (hs.seat a t hsocket).vouched (.inr (.inr (by rw [hhandler]; trivial)))
      refine ⟨?_, hh.sent, hh.enabled⟩
      intro d hd
      rcases List.mem_append.mp hd with hold | hlast
      · exact hh.commands d hold
      · rw [List.mem_singleton.mp hlast]
        exact hvouched
  | @deliver before after send a rest t hsends hlocked htargets hsocket =>
      have hvouched := (hs.seat a t hsocket).vouched
        (.inr (.inl (targeted_of_head hsends hlocked htargets)))
      refine ⟨hh.commands, ?_, hh.enabled⟩
      intro m hm
      rcases List.mem_append.mp hm with hold | hlast
      · exact hh.sent m hold
      · rw [List.mem_singleton.mp hlast]
        exact hvouched
  | tapControl hsocket hhandler hparse => exact ⟨hh.commands, hh.sent, rfl⟩
  | @close a t hsocket hhandler => exact ⟨hh.commands, hh.sent, enabled_close hh.enabled a t⟩
  | @fail before after send a rest t hsends hlocked htargets hsocket =>
      exact ⟨hh.commands, hh.sent, enabled_close hh.enabled a t⟩
  | @reapNow a rest t hreaper hsocket =>
      exact ⟨hh.commands, hh.sent, enabled_close hh.enabled a t⟩
  | connect a hfree => exact ⟨hh.commands, hh.sent, hh.enabled⟩
  | abort hsocket hhandler => exact ⟨hh.commands, hh.sent, hh.enabled⟩
  | refuse origin hsocket hhandler horigin => exact ⟨hh.commands, hh.sent, hh.enabled⟩
  | open_ origin hsocket hhandler horigin => exact ⟨hh.commands, hh.sent, hh.enabled⟩
  | accept hsocket hhandler hvalid => exact ⟨hh.commands, hh.sent, hh.enabled⟩
  | deny hsocket hhandler hvalid => exact ⟨hh.commands, hh.sent, hh.enabled⟩
  | unawaited data hsocket hhandler hpending => exact ⟨hh.commands, hh.sent, hh.enabled⟩
  | enter hsocket hhandler hmember => exact ⟨hh.commands, hh.sent, hh.enabled⟩
  | ignore hsocket hhandler hmember => exact ⟨hh.commands, hh.sent, hh.enabled⟩
  | malformed hsocket hhandler hparse => exact ⟨hh.commands, hh.sent, hh.enabled⟩
  | destroy hsocket hhandler hclosed hsends hreaper => exact ⟨hh.commands, hh.sent, hh.enabled⟩
  | gather tap clients hclients => exact ⟨hh.commands, hh.sent, hh.enabled⟩
  | lock hsends hlocked => exact ⟨hh.commands, hh.sent, hh.enabled⟩
  | done hsends hlocked htargets => exact ⟨hh.commands, hh.sent, hh.enabled⟩
  | wake clients hreaper hclients => exact ⟨hh.commands, hh.sent, hh.enabled⟩
  | expire hreaper => exact ⟨hh.commands, hh.sent, hh.enabled⟩
  | reap hreaper => exact ⟨hh.commands, hh.sent, hh.enabled⟩
  | sleep hreaper => exact ⟨hh.commands, hh.sent, hh.enabled⟩
  | tick => exact ⟨hh.commands, hh.sent, hh.enabled⟩

/-- The three invariants. -/
structure Sound (config : Config C) (s : WebSocketServer A C) : Prop where
  seated : Seated config s
  numbered : Numbered s
  heard : Heard config s

theorem Sound.start : Sound config ({} : WebSocketServer A C) where
  seated := by
    refine ⟨fun a t hsocket => absurd hsocket (by simp), fun a _ => ⟨rfl, ?_, ?_⟩⟩
    · rintro (hm | hm) <;> exact absurd hm (Finset.notMem_empty a)
    · rintro (⟨send, hsend, -⟩ | hclient)
      · exact absurd hsend List.not_mem_nil
      · exact absurd hclient List.not_mem_nil
  numbered := by
    refine ⟨fun a t hsocket => absurd hsocket (by simp), ?_,
      fun f hf => absurd hf List.not_mem_nil, List.nodup_nil⟩
    intro a b t u hsocket
    exact absurd hsocket (by simp)
  heard := ⟨fun c hc => absurd hc List.not_mem_nil, fun m hm => absurd hm List.not_mem_nil, rfl⟩

theorem Sound.step (h : Sound config s) (hstep : QuietStep config s next) : Sound config next :=
  ⟨h.seated.step h.numbered hstep, h.numbered.step h.seated hstep.step,
    h.heard.step h.seated hstep.step⟩

theorem Sound.member (h : Sound config s) (hmember : s.Member a) : ∃ t, s.sockets a = some t ∧
    t.closed = false ∧ config.Vouched s.firsts t.conn := by
  cases hsocket : s.sockets a with
  | none => exact absurd hmember (h.seated.absent a hsocket).2.1
  | some t =>
      have hseat := h.seated.seat a t hsocket
      exact ⟨t, rfl, hseat.live hmember, hseat.vouched (.inl hmember)⟩

end Step

/-- In every run in which no socket is closed while it is about to subscribe. -/
theorem guarded_of_run {s : WebSocketServer A C} (hrun : Run.Reaches (QuietStep config) {} s) :
    s.Guarded config := by
  have hsound : Sound config s := hrun.invariant .start fun _ _ hstep h => h.step hstep
  refine ⟨hsound.numbered.single, hsound.heard.commands, hsound.heard.sent,
    fun a ha => hsound.member (.inl ha), ?_⟩
  intro henabled
  rw [hsound.heard.enabled, decide_eq_true_eq] at henabled
  obtain ⟨a, ha⟩ := Finset.nonempty_iff_ne_empty.mpr henabled
  exact ⟨a, ha, hsound.member (.inr ha)⟩

section Example

/-- The token is one byte, and the message of one byte 1 subscribes. -/
def oneByte : Config Unit where
  auth_token_ := [7]
  allowed_origins_ := []
  catalog_frame_ := []
  ParseFromArray := fun payload =>
    if payload = [1] then some (.tapControl true) else some (.command ())

theorem oneByte_tapControl :
    oneByte.parseWithLength (serializeWithLength [1]) = some (.tapControl true) := rfl

/-- There is room for one socket. -/
abbrev OneSocket : Type := WebSocketServer Unit Unit

theorem quiet_of_open {s next : OneSocket} (hstep : Step oneByte s next)
    (hopen : ∀ t, next.sockets () = some t → t.closed = false) : QuietStep oneByte s next :=
  ⟨hstep, fun _ _ t' _ hnext _ _ _ => hopen t' hnext⟩

/-- The first connection gives the token, and is past the gate with a message. -/
def admittedFirst (data : List UInt8) : OneSocket where
  connections_ := insert () ∅
  pending_auth_ := fun _ => none
  sockets := fun _ => some { conn := 0, handler := .admitted data }
  opened := 1
  firsts := [⟨0, "", [0, 7]⟩]

theorem reaches_admittedFirst (data : List UInt8) :
    Run.Reaches (QuietStep oneByte) {} (admittedFirst data) := by
  have hconnect : Run.Reaches (QuietStep oneByte) ({} : OneSocket) _ :=
    Relation.ReflTransGen.single (quiet_of_open (.connect () rfl) (by intro t ht; cases ht; rfl))
  have hopened := hconnect.tail
    (quiet_of_open (.open_ (a := ()) "" rfl rfl rfl) (by intro t ht; cases ht; rfl))
  have hawaited := hopened.tail
    (quiet_of_open (.awaited (a := ()) [0, 7] rfl rfl rfl) (by intro t ht; cases ht; rfl))
  have haccepted := hawaited.tail
    (quiet_of_open (.accept (a := ()) rfl rfl (by decide)) (by intro t ht; cases ht; rfl))
  have hgreeted := haccepted.tail
    (quiet_of_open (.greet (a := ()) rfl rfl) (by intro t ht; cases ht; rfl))
  have hknown := hgreeted.tail
    (quiet_of_open (.unawaited (a := ()) data rfl rfl rfl) (by intro t ht; cases ht; rfl))
  have hadmitted := hknown.tail
    (quiet_of_open (.enter (a := ()) rfl rfl (Finset.mem_insert_self () ∅))
      (by intro t ht; cases ht; rfl))
  exact hadmitted

/-- The first connection subscribes, and hears the tap. -/
theorem guarded_of_run_subscribed : ∃ s : OneSocket, s.Guarded oneByte ∧ s.enabled = true ∧
    s.sent.map Sent.tap = [true] := by
  have hsubscribed := (reaches_admittedFirst (serializeWithLength [1])).tail
    (quiet_of_open (.tapControl (a := ()) rfl rfl oneByte_tapControl)
      (by intro t ht; cases ht; rfl))
  have hgathered := hsubscribed.tail
    (quiet_of_open (.gather true [()] fun _ _ => Option.some_ne_none _) (by intro t ht; cases ht; rfl))
  have hlocked := hgathered.tail
    (quiet_of_open (.lock (show _ = [] ++ _ :: [] from rfl) rfl) (by intro t ht; cases ht; rfl))
  have hdelivered := hlocked.tail
    (quiet_of_open (.deliver (show _ = [] ++ _ :: [] from rfl) rfl rfl rfl)
      (by intro t ht; cases ht; rfl))
  exact ⟨_, guarded_of_run oneByte hdelivered, rfl, rfl⟩

/-- The first connection is closed by a failing send while it is about to
subscribe. It subscribes all the same, and the next connection at its address
hears the tap before it has said anything. -/
theorem not_guarded_subscribing : ∃ s : OneSocket, Run.Reaches (Step oneByte) {} s ∧
    ¬ s.Guarded oneByte := by
  have hadmitted : Run.Reaches (Step oneByte) {} (admittedFirst (serializeWithLength [1])) :=
    Relation.ReflTransGen.mono (fun _ _ hstep => hstep.step) _ _ (reaches_admittedFirst _)
  have hgathered := hadmitted.tail (.gather false [()] fun _ _ => Option.some_ne_none _)
  have hlocked := hgathered.tail (.lock (show _ = [] ++ _ :: [] from rfl) rfl)
  have hfailed := hlocked.tail (.fail (show _ = [] ++ _ :: [] from rfl) rfl rfl rfl)
  have hsubscribed := hfailed.tail
    (.tapControl (a := ()) rfl rfl oneByte_tapControl)
  have hdone := hsubscribed.tail (.done (show _ = [] ++ _ :: [] from rfl) rfl rfl)
  have hdestroyed := hdone.tail
    (.destroy (a := ()) rfl rfl rfl (fun _ hsend => absurd hsend List.not_mem_nil)
      List.not_mem_nil)
  have hconnected := hdestroyed.tail (.connect () rfl)
  have hpumped := hconnected.tail (.gather true [()] fun _ _ => Option.some_ne_none _)
  have htapped := hpumped.tail (.lock (show _ = [] ++ _ :: [] from rfl) rfl)
  have hdelivered := htapped.tail (.deliver (show _ = [] ++ _ :: [] from rfl) rfl rfl rfl)
  refine ⟨_, hdelivered, fun hguarded => ?_⟩
  obtain ⟨f, hf, hconn, -⟩ := hguarded.sent ⟨1, true⟩ List.mem_cons_self
  rw [List.mem_singleton.mp hf] at hconn
  exact absurd hconn (by decide)

end Example

end DawProject.Network.Gate
