import DawProject.Lib.Run
import Mathlib.Data.List.Basic
import Mathlib.Data.Bool.Basic

/-!
The page dials the engine, `web/src/network/engine_client.ts`: `connect`, the
handlers of its sockets, the token that `tokenRefresher` of
`web/src/app/wiring.ts` fetches, and `scheduleReconnect`. At the other end the
engine starts, with a new token each time, judges the first message of a socket
and stops; the token it wrote is in a file that others may write too. A failed
socket has an error event and a close event in one task of the browser.
-/

namespace DawProject.Network.Redial

/-- A socket of the page, as the engine and the browser have left it. -/
inductive Socket where
  | connecting
  /-- Open, with this token as its first message. -/
  | awaiting (token : String)
  | accepted
  /-- Closed by the engine with 4001, the page does not know it yet. -/
  | refused
  /-- Closed in another way, the page does not know it yet. -/
  | lost
  /-- The close event has come. -/
  | closed
deriving DecidableEq, Repr

/-- The page. `refreshing` counts the calls of `tokenRefresher` that have not
returned. -/
structure EngineClient where
  token : String
  sockets : List Socket := []
  ws : Option Nat := none
  reconnectTimer : Bool := false
  refreshedOnce : Bool := false
  refreshing : Nat := 0
deriving DecidableEq, Repr

namespace EngineClient

def connect (c : EngineClient) : EngineClient :=
  { c with sockets := c.sockets ++ [.connecting], ws := some c.sockets.length }

def scheduleReconnect (c : EngineClient) : EngineClient :=
  if c.reconnectTimer then c else { c with reconnectTimer := true }

/-- The timer of `scheduleReconnect` fires. -/
def reconnect (c : EngineClient) : EngineClient :=
  { c with reconnectTimer := false, refreshedOnce := false }.connect

/-- `onclose`, until it awaits the token. -/
def onclose (c : EngineClient) (refused : Bool) : EngineClient :=
  if refused && !c.refreshedOnce then
    { c with refreshedOnce := true, refreshing := c.refreshing + 1 }
  else c.scheduleReconnect

/-- `onclose` with the token, or without one. -/
def refreshed (c : EngineClient) (fresh : Option String) : EngineClient :=
  let c := { c with refreshing := c.refreshing - 1 }
  match fresh with
  | some token => if token = "" then c.scheduleReconnect else { c with token := token }.connect
  | none => c.scheduleReconnect

/-- `onerror` and the `onclose` after it. -/
def onerror (c : EngineClient) : EngineClient := c.scheduleReconnect.onclose false

/-- The part of `handleMessage` that the connection depends on. -/
def handleMessage (c : EngineClient) : EngineClient := { c with refreshedOnce := false }

def setSocket (c : EngineClient) (i : Nat) (socket : Socket) : EngineClient :=
  { c with sockets := c.sockets.set i socket }

/-- The sockets whose close event has not come. -/
def live (c : EngineClient) : List Socket := c.sockets.filter fun socket => socket != .closed

end EngineClient

/-- The page, the token of the engine that runs, and the file. `attempts` counts the
sockets and `fired` the timers; no step reads them. -/
structure World where
  page : EngineClient
  engine : Option String
  file : Option String
  attempts : Nat
  fired : Nat := 0
deriving DecidableEq, Repr

inductive Event where
  /-- The engine starts; it can fail to write the file. -/
  | engineStarts (token : String) (written : Bool)
  | engineStops
  /-- Another program writes the file or removes it. -/
  | fileWritten (content : Option String)
  | opened (i : Nat)
  | judged (i : Nat)
  /-- The origin is not allowed, or the token came too late. -/
  | turnedAway (i : Nat)
  | dropped (i : Nat)
  | message (i : Nat)
  | closed (i : Nat)
  | failed (i : Nat)
  /-- `/api/engine-token` answers, or cannot be reached. -/
  | fetched (reached : Bool)
  | timerFires
deriving DecidableEq, Repr

/-- The first message is the token of the engine, and not empty. -/
def accepts (engine token : String) : Bool := token != "" && token == engine

/-- What a socket is once the engine has stopped. -/
def Socket.cut : Socket → Socket
  | .awaiting _ | .accepted => .lost
  | socket => socket

namespace World

def withPage (w : World) (page : EngineClient) : World := { w with page := page }

/-- A new socket is an attempt. -/
def dialled (w : World) (page : EngineClient) : World :=
  { w with page := page, attempts := w.attempts + (page.sockets.length - w.page.sockets.length) }

def step (w : World) : Event → Option World
  | .engineStarts token written =>
      match w.engine with
      | none =>
          some { w with engine := some token, file := if written then some token else w.file }
      | some _ => none
  | .engineStops =>
      some { w with
        engine := none
        page := { w.page with sockets := w.page.sockets.map Socket.cut } }
  | .fileWritten content => some { w with file := content }
  | .opened i =>
      match w.page.sockets[i]?, w.engine with
      | some .connecting, some _ =>
          some (w.withPage (w.page.setSocket i (.awaiting w.page.token)))
      | _, _ => none
  | .judged i =>
      match w.page.sockets[i]?, w.engine with
      | some (.awaiting token), some engine =>
          some (w.withPage (w.page.setSocket i
            (if accepts engine token then .accepted else .refused)))
      | _, _ => none
  | .turnedAway i =>
      match w.page.sockets[i]?, w.engine with
      | some (.awaiting _), some _ => some (w.withPage (w.page.setSocket i .refused))
      | _, _ => none
  | .dropped i =>
      match w.page.sockets[i]? with
      | some (.awaiting _) | some .accepted => some (w.withPage (w.page.setSocket i .lost))
      | _ => none
  | .message i =>
      match w.page.sockets[i]? with
      | some .accepted => some (w.withPage w.page.handleMessage)
      | _ => none
  | .closed i =>
      match w.page.sockets[i]? with
      | some .refused => some (w.withPage ((w.page.setSocket i .closed).onclose true))
      | some .lost => some (w.withPage ((w.page.setSocket i .closed).onclose false))
      | _ => none
  | .failed i =>
      match w.page.sockets[i]? with
      | some .connecting => some (w.withPage (w.page.setSocket i .closed).onerror)
      | _ => none
  | .fetched reached =>
      if w.page.refreshing = 0 then none
      else some (w.dialled (w.page.refreshed (if reached then w.file else none)))
  | .timerFires =>
      if w.page.reconnectTimer then
        some { w.dialled w.page.reconnect with fired := w.fired + 1 }
      else none

/-- The page calls `connect` when it is loaded. -/
def start (token : String) (engine file : Option String) : World where
  page := EngineClient.connect { token := token }
  engine := engine
  file := file
  attempts := 1

end World

/-- What the page is at: the one thing from which a connection can come. -/
inductive Activity where
  | dialling (socket : Socket)
  | refreshing
  | waiting
deriving DecidableEq, Repr

/-- The page is at this, and at nothing else; its socket is the one that it sends on. -/
inductive Does (c : EngineClient) : Activity → Prop where
  | dialling {old : List Socket} {socket : Socket} (hopen : socket ≠ .closed)
      (hold : ∀ r ∈ old, r = .closed) (hsockets : c.sockets = old ++ [socket])
      (hws : c.ws = some old.length) (htimer : c.reconnectTimer = false)
      (hrefreshing : c.refreshing = 0) : Does c (.dialling socket)
  | refreshing (hclosed : ∀ r ∈ c.sockets, r = .closed) (htimer : c.reconnectTimer = false)
      (hrefreshing : c.refreshing = 1) : Does c .refreshing
  | waiting (hclosed : ∀ r ∈ c.sockets, r = .closed) (htimer : c.reconnectTimer = true)
      (hrefreshing : c.refreshing = 0) : Does c .waiting

section Page

variable {c : EngineClient} {a : Activity} {socket : Socket} {i : Nat}

/-- The only socket that is not closed is the one that is dialled. -/
theorem Does.socket_eq (h : Does c a) (hi : c.sockets[i]? = some socket)
    (hopen : socket ≠ .closed) : a = .dialling socket ∧ c.ws = some i := by
  cases h with
  | @dialling old current _ hold hsockets hws _ _ =>
      rw [hsockets] at hi
      rcases Nat.lt_or_ge i old.length with hlt | hge
      · rw [List.getElem?_append_left hlt] at hi
        exact absurd (hold socket (List.mem_of_getElem? hi)) hopen
      · rw [List.getElem?_append_right hge] at hi
        have hlast : i - old.length = 0 := by
          have hbound := (List.getElem?_eq_some_iff.mp hi).1
          simp only [List.length_singleton] at hbound
          omega
        rw [hlast] at hi
        have hsame : current = socket := Option.some.inj hi
        have hindex : old.length = i := by omega
        exact ⟨congrArg Activity.dialling hsame, hindex ▸ hws⟩
  | refreshing hclosed => exact absurd (hclosed socket (List.mem_of_getElem? hi)) hopen
  | waiting hclosed => exact absurd (hclosed socket (List.mem_of_getElem? hi)) hopen

/-- The socket goes on. -/
theorem Does.setSocket {next : Socket} (h : Does c (.dialling socket)) (hws : c.ws = some i)
    (hnext : next ≠ .closed) : Does (c.setSocket i next) (.dialling next) := by
  cases h with
  | @dialling old _ _ hold hsockets hlast htimer hrefreshing =>
      obtain rfl : old.length = i := Option.some.inj (hlast.symm.trans hws)
      have hset : (c.setSocket old.length next).sockets = old ++ [next] := by
        rw [EngineClient.setSocket, hsockets, List.set_append_right _ _ (Nat.le_refl _),
          Nat.sub_self]
        rfl
      exact .dialling hnext hold hset hlast htimer hrefreshing

/-- Once the socket is closed, nothing is under way. -/
theorem Does.closeSocket (h : Does c (.dialling socket)) (hws : c.ws = some i) :
    (∀ r ∈ (c.setSocket i .closed).sockets, r = .closed) ∧ c.reconnectTimer = false ∧
      c.refreshing = 0 := by
  cases h with
  | @dialling old _ _ hold hsockets hlast htimer hrefreshing =>
      obtain rfl : old.length = i := Option.some.inj (hlast.symm.trans hws)
      refine ⟨?_, htimer, hrefreshing⟩
      rw [EngineClient.setSocket, hsockets, List.set_append_right _ _ (Nat.le_refl _),
        Nat.sub_self]
      intro r hr
      rcases List.mem_append.mp hr with hr | hr
      · exact hold r hr
      · exact List.mem_singleton.mp hr

/-- With every socket closed a new one is the only one. -/
theorem Does.connect (hclosed : ∀ r ∈ c.sockets, r = .closed) (htimer : c.reconnectTimer = false)
    (hrefreshing : c.refreshing = 0) : Does c.connect (.dialling .connecting) :=
  .dialling (by simp) hclosed rfl rfl htimer hrefreshing

theorem Does.schedule (hclosed : ∀ r ∈ c.sockets, r = .closed) (hrefreshing : c.refreshing = 0) :
    Does c.scheduleReconnect .waiting := by
  rw [EngineClient.scheduleReconnect]
  split
  · rename_i htimer
    exact .waiting hclosed htimer hrefreshing
  · exact .waiting hclosed rfl hrefreshing

end Page

/-- What the rest depends on. -/
structure Dial where
  activity : Activity
  token : String
  refreshedOnce : Bool
  attempts : Nat
  fired : Nat

def World.dial (w : World) (a : Activity) : Dial where
  activity := a
  token := w.page.token
  refreshedOnce := w.page.refreshedOnce
  attempts := w.attempts
  fired := w.fired

def Activity.cut : Activity → Activity
  | .dialling socket => .dialling socket.cut
  | a => a

/-- What an event makes of it, with this engine and this file. -/
inductive Move (engine file : Option String) : Event → Dial → Dial → Prop where
  | starts (d : Dial) (token : String) (written : Bool) :
      Move engine file (.engineStarts token written) d d
  | stops (d : Dial) :
      Move engine file .engineStops d { d with activity := d.activity.cut }
  | written (d : Dial) (content : Option String) : Move engine file (.fileWritten content) d d
  | opened (d : Dial) (i : Nat) (h : d.activity = .dialling .connecting) :
      Move engine file (.opened i) d { d with activity := .dialling (.awaiting d.token) }
  | judged (d : Dial) (i : Nat) {token answer : String}
      (h : d.activity = .dialling (.awaiting token)) (hengine : engine = some answer) :
      Move engine file (.judged i) d { d with
        activity := .dialling (if accepts answer token then .accepted else .refused) }
  | turnedAway (d : Dial) (i : Nat) {token : String}
      (h : d.activity = .dialling (.awaiting token)) :
      Move engine file (.turnedAway i) d { d with activity := .dialling .refused }
  | dropped (d : Dial) (i : Nat) : Move engine file (.dropped i) d { d with
      activity := .dialling .lost }
  | message (d : Dial) (i : Nat) (h : d.activity = .dialling .accepted) :
      Move engine file (.message i) d { d with refreshedOnce := false }
  | refused (d : Dial) (i : Nat) (h : d.activity = .dialling .refused)
      (honce : d.refreshedOnce = false) :
      Move engine file (.closed i) d { d with activity := .refreshing, refreshedOnce := true }
  | again (d : Dial) (i : Nat) (h : d.activity = .dialling .refused)
      (honce : d.refreshedOnce = true) :
      Move engine file (.closed i) d { d with activity := .waiting }
  | lost (d : Dial) (i : Nat) (h : d.activity = .dialling .lost) :
      Move engine file (.closed i) d { d with activity := .waiting }
  | failed (d : Dial) (i : Nat) (h : d.activity = .dialling .connecting) :
      Move engine file (.failed i) d { d with activity := .waiting }
  | fetched (d : Dial) {token : String} (h : d.activity = .refreshing) (hfile : file = some token)
      (htoken : token ≠ "") : Move engine file (.fetched true) d { d with
        activity := .dialling .connecting
        token := token
        attempts := d.attempts + 1 }
  | missed (d : Dial) (reached : Bool) (h : d.activity = .refreshing)
      (hmissed : reached = false ∨ file = none ∨ file = some "") :
      Move engine file (.fetched reached) d { d with activity := .waiting }
  | fires (d : Dial) (h : d.activity = .waiting) :
      Move engine file .timerFires d { d with
        activity := .dialling .connecting
        refreshedOnce := false
        attempts := d.attempts + 1
        fired := d.fired + 1 }

section Step

variable {w next : World} {a : Activity} {e : Event}

theorem dial_schedule (w : World) (c : EngineClient) :
    (w.withPage c.scheduleReconnect).dial .waiting = (w.withPage c).dial .waiting := by
  rw [EngineClient.scheduleReconnect]
  split <;> rfl

/-- A timer is set once. -/
theorem scheduleReconnect_twice (c : EngineClient) :
    c.scheduleReconnect.scheduleReconnect = c.scheduleReconnect := by
  have hset : c.scheduleReconnect.reconnectTimer = true := by
    rw [EngineClient.scheduleReconnect]
    split
    · assumption
    · rfl
  exact if_pos hset

theorem onclose_false (c : EngineClient) : c.onclose false = c.scheduleReconnect := rfl

theorem onerror_eq (c : EngineClient) : c.onerror = c.scheduleReconnect := by
  rw [EngineClient.onerror, onclose_false, scheduleReconnect_twice]

theorem onclose_refused {c : EngineClient} (honce : c.refreshedOnce = false) :
    c.onclose true = { c with refreshedOnce := true, refreshing := c.refreshing + 1 } := by
  rw [EngineClient.onclose, honce]
  rfl

theorem onclose_again {c : EngineClient} (honce : c.refreshedOnce = true) :
    c.onclose true = c.scheduleReconnect := by
  rw [EngineClient.onclose, honce]
  rfl

/-- A connection of the page is one attempt more. -/
theorem attempts_dialled (w : World) (c : EngineClient) (hsockets : c.sockets = w.page.sockets) :
    (w.dialled c.connect).attempts = w.attempts + 1 := by
  have hone : c.connect.sockets.length - w.page.sockets.length = 1 := by
    rw [EngineClient.connect, ← hsockets, List.length_append, List.length_singleton,
      Nat.add_sub_cancel_left]
  rw [World.dialled, hone]

theorem dial_missed (w : World) (c : EngineClient) (hsockets : c.sockets = w.page.sockets) :
    w.dialled c.scheduleReconnect = w.withPage c.scheduleReconnect := by
  have hsame : c.scheduleReconnect.sockets = w.page.sockets := by
    rw [EngineClient.scheduleReconnect]
    split <;> exact hsockets
  rw [World.dialled, hsame, Nat.sub_self]
  rfl

/-- Every event is a move of the one thing that the page is at. -/
theorem Does.step (h : Does w.page a) (hstep : w.step e = some next) :
    ∃ b, Does next.page b ∧ Move w.engine w.file e (w.dial a) (next.dial b) := by
  cases e with
  | engineStarts token written =>
      rw [World.step] at hstep
      split at hstep
      · obtain rfl := Option.some.inj hstep
        exact ⟨a, h, .starts _ token written⟩
      · cases hstep
  | engineStops =>
      obtain rfl := Option.some.inj hstep
      refine ⟨a.cut, ?_, .stops _⟩
      have hcut : ∀ r : Socket, r = .closed → r.cut = .closed := by
        rintro r rfl
        rfl
      have hclosed : ∀ old : List Socket, (∀ r ∈ old, r = .closed) →
          ∀ r ∈ old.map Socket.cut, r = .closed := by
        intro old hold r hr
        obtain ⟨q, hq, rfl⟩ := List.mem_map.mp hr
        exact hcut q (hold q hq)
      cases h with
      | @dialling old socket hopen hold hsockets hws htimer hrefreshing =>
          have hnext : socket.cut ≠ .closed := by
            cases socket with
            | closed => exact absurd rfl hopen
            | connecting => simp [Socket.cut]
            | awaiting => simp [Socket.cut]
            | accepted => simp [Socket.cut]
            | refused => simp [Socket.cut]
            | lost => simp [Socket.cut]
          refine .dialling hnext (hclosed old hold) ?_ ?_ htimer hrefreshing
          · simp [hsockets]
          · simpa using hws
      | refreshing hold htimer hrefreshing =>
          exact .refreshing (hclosed _ hold) htimer hrefreshing
      | waiting hold htimer hrefreshing => exact .waiting (hclosed _ hold) htimer hrefreshing
  | fileWritten content =>
      obtain rfl := Option.some.inj hstep
      exact ⟨a, h, .written _ content⟩
  | opened i =>
      rw [World.step] at hstep
      split at hstep
      · rename_i hi _
        obtain rfl := Option.some.inj hstep
        obtain ⟨rfl, hws⟩ := h.socket_eq hi (by simp)
        exact ⟨_, h.setSocket hws (by simp), .opened _ i rfl⟩
      · cases hstep
  | judged i =>
      rw [World.step] at hstep
      split at hstep
      · rename_i token engine hi hengine
        obtain rfl := Option.some.inj hstep
        obtain ⟨rfl, hws⟩ := h.socket_eq hi (by simp)
        refine ⟨_, h.setSocket hws ?_, .judged _ i rfl hengine⟩
        split <;> simp
      · cases hstep
  | turnedAway i =>
      rw [World.step] at hstep
      split at hstep
      · rename_i hi _
        obtain rfl := Option.some.inj hstep
        obtain ⟨rfl, hws⟩ := h.socket_eq hi (by simp)
        exact ⟨_, h.setSocket hws (by simp), .turnedAway _ i rfl⟩
      · cases hstep
  | dropped i =>
      rw [World.step] at hstep
      split at hstep
      · rename_i hi
        obtain rfl := Option.some.inj hstep
        obtain ⟨rfl, hws⟩ := h.socket_eq hi (by simp)
        exact ⟨_, h.setSocket hws (by simp), .dropped _ i⟩
      · rename_i hi
        obtain rfl := Option.some.inj hstep
        obtain ⟨rfl, hws⟩ := h.socket_eq hi (by simp)
        exact ⟨_, h.setSocket hws (by simp), .dropped _ i⟩
      · cases hstep
  | message i =>
      rw [World.step] at hstep
      split at hstep
      · rename_i hi
        obtain rfl := Option.some.inj hstep
        obtain ⟨rfl, hws⟩ := h.socket_eq hi (by simp)
        refine ⟨_, ?_, .message _ i rfl⟩
        cases h with
        | dialling hopen hold hsockets hws htimer hrefreshing =>
            exact .dialling hopen hold hsockets hws htimer hrefreshing
      · cases hstep
  | closed i =>
      rw [World.step] at hstep
      split at hstep
      · rename_i hi
        obtain rfl := Option.some.inj hstep
        obtain ⟨rfl, hws⟩ := h.socket_eq hi (by simp)
        obtain ⟨hclosed, htimer, hrefreshing⟩ := h.closeSocket hws
        cases honce : (w.page.setSocket i .closed).refreshedOnce with
        | false =>
            rw [onclose_refused honce]
            have hone : w.page.refreshing + 1 = 1 := by rw [hrefreshing]
            exact ⟨.refreshing, .refreshing hclosed htimer hone, .refused _ i rfl honce⟩
        | true =>
            rw [onclose_again honce]
            refine ⟨.waiting, .schedule hclosed hrefreshing, ?_⟩
            rw [dial_schedule]
            exact .again _ i rfl honce
      · rename_i hi
        obtain rfl := Option.some.inj hstep
        obtain ⟨rfl, hws⟩ := h.socket_eq hi (by simp)
        obtain ⟨hclosed, _, hrefreshing⟩ := h.closeSocket hws
        refine ⟨.waiting, .schedule hclosed hrefreshing, ?_⟩
        rw [onclose_false, dial_schedule]
        exact .lost _ i rfl
      · cases hstep
  | failed i =>
      rw [World.step] at hstep
      split at hstep
      · rename_i hi
        obtain rfl := Option.some.inj hstep
        obtain ⟨rfl, hws⟩ := h.socket_eq hi (by simp)
        obtain ⟨hclosed, _, hrefreshing⟩ := h.closeSocket hws
        rw [onerror_eq]
        refine ⟨.waiting, .schedule hclosed hrefreshing, ?_⟩
        rw [dial_schedule]
        exact .failed _ i rfl
      · cases hstep
  | fetched reached =>
      rw [World.step] at hstep
      split at hstep
      · cases hstep
      · rename_i hpending
        obtain rfl := Option.some.inj hstep
        cases h with
        | dialling _ _ _ _ _ hrefreshing => exact absurd hrefreshing hpending
        | waiting _ _ hrefreshing => exact absurd hrefreshing hpending
        | refreshing hclosed htimer hrefreshing =>
            have hnone : w.page.refreshing - 1 = 0 := by rw [hrefreshing]
            cases hfresh : (if reached then w.file else none) with
            | none =>
                rw [EngineClient.refreshed, dial_missed]
                refine ⟨.waiting, .schedule hclosed hnone, ?_⟩
                rw [dial_schedule]
                refine .missed _ reached rfl ?_
                cases reached with
                | true => exact .inr (.inl hfresh)
                | false => exact .inl rfl
                rfl
            | some token =>
                have hread : reached = true ∧ w.file = some token := by
                  cases reached with
                  | true => exact ⟨rfl, hfresh⟩
                  | false => cases hfresh
                obtain ⟨rfl, hfile⟩ := hread
                by_cases htoken : token = ""
                · subst htoken
                  rw [EngineClient.refreshed]
                  simp only [if_true]
                  rw [dial_missed]
                  · refine ⟨.waiting, .schedule hclosed hnone, ?_⟩
                    rw [dial_schedule]
                    exact .missed _ true rfl (.inr (.inr hfile))
                  · rfl
                · rw [EngineClient.refreshed]
                  simp only [if_neg htoken]
                  refine ⟨_, .connect hclosed htimer hnone, ?_⟩
                  rw [World.dial, World.dial, attempts_dialled]
                  · exact .fetched _ rfl hfile htoken
                  · rfl
  | timerFires =>
      rw [World.step] at hstep
      split at hstep
      · rename_i htimer
        obtain rfl := Option.some.inj hstep
        cases h with
        | dialling _ _ _ _ hnone _ => rw [hnone] at htimer; cases htimer
        | refreshing _ hnone _ => rw [hnone] at htimer; cases htimer
        | waiting hclosed _ hrefreshing =>
            refine ⟨_, .connect hclosed rfl hrefreshing, ?_⟩
            rw [World.dial, World.dial, EngineClient.reconnect, attempts_dialled]
            · exact .fires _ rfl
            · rfl
      · cases hstep

end Step

section Budget

/-- The attempts that can still come before the timer fires. -/
def Dial.spare (d : Dial) : Nat :=
  match d.activity with
  | .dialling .connecting | .dialling (.awaiting _) | .dialling .refused =>
      if d.refreshedOnce then 0 else 1
  | .dialling _ => 0
  | .refreshing => 1
  | .waiting => 0

/-- Two attempts for each time that the timer has fired, and for the start. -/
structure Budget (d : Dial) : Prop where
  bound : d.attempts + d.spare ≤ 2 * (d.fired + 1)
  once : d.activity = .refreshing → d.refreshedOnce = true

variable {engine file : Option String} {e : Event} {d next : Dial}

theorem spare_cut (d : Dial) : ({ d with activity := d.activity.cut } : Dial).spare ≤ d.spare := by
  cases hactivity : d.activity with
  | dialling socket => cases socket <;> simp [Dial.spare, Activity.cut, Socket.cut, hactivity]
  | refreshing => simp [Dial.spare, Activity.cut, hactivity]
  | waiting => simp [Dial.spare, Activity.cut, hactivity]

theorem Budget.of_move (h : Budget d) (hmove : Move engine file e d next) : Budget next := by
  have hbound := h.bound
  cases hmove with
  | starts => exact h
  | written => exact h
  | stops =>
      constructor
      · exact Nat.le_trans (Nat.add_le_add_left (spare_cut d) _) hbound
      · intro hrefreshing
        apply h.once
        cases hactivity : d.activity with
        | dialling socket => rw [hactivity] at hrefreshing; cases hrefreshing
        | refreshing => rfl
        | waiting => rw [hactivity] at hrefreshing; cases hrefreshing
  | opened _ i hactivity =>
      simp only [Dial.spare, hactivity] at hbound
      exact ⟨by simpa only [Dial.spare] using hbound, by simp⟩
  | @judged _ i token answer hactivity hengine =>
      simp only [Dial.spare, hactivity] at hbound
      refine ⟨?_, by simp⟩
      cases accepts answer token with
      | true => exact Nat.le_trans (Nat.le_add_right ..) hbound
      | false => exact hbound
  | turnedAway _ i hactivity =>
      simp only [Dial.spare, hactivity] at hbound
      exact ⟨by simpa only [Dial.spare] using hbound, by simp⟩
  | dropped => exact ⟨Nat.le_trans (Nat.le_add_right ..) hbound, by simp⟩
  | message _ i hactivity =>
      simp only [Dial.spare, hactivity] at hbound
      exact ⟨by simpa only [Dial.spare, hactivity] using hbound, by simp [hactivity]⟩
  | refused _ i hactivity honce =>
      simp only [Dial.spare, hactivity, honce] at hbound
      exact ⟨hbound, by simp⟩
  | again => exact ⟨Nat.le_trans (Nat.le_add_right ..) hbound, by simp⟩
  | lost => exact ⟨Nat.le_trans (Nat.le_add_right ..) hbound, by simp⟩
  | failed => exact ⟨Nat.le_trans (Nat.le_add_right ..) hbound, by simp⟩
  | fetched _ hactivity =>
      have honce := h.once hactivity
      simp only [Dial.spare, hactivity] at hbound
      exact ⟨by simp only [Dial.spare, honce, if_true]; omega, by simp⟩
  | missed => exact ⟨Nat.le_trans (Nat.le_add_right ..) hbound, by simp⟩
  | fires _ hactivity =>
      simp only [Dial.spare, hactivity] at hbound
      have hspare : d.attempts + 1 + 1 ≤ 2 * (d.fired + 1 + 1) := by omega
      exact ⟨hspare, by simp⟩

end Budget

section Progress

/-- What happens by itself while the engine runs and its file can be read. -/
def Event.Steady : Event → Prop
  | .opened _ | .judged _ | .message _ | .closed _ | .fetched true | .timerFires => True
  | _ => False

/-- How many such events are left until the engine has accepted the page. -/
def Dial.left (answer : String) (d : Dial) : Nat :=
  match d.activity with
  | .dialling .accepted | .dialling .closed => 0
  | .dialling (.awaiting token) =>
      if accepts answer token then 1 else if d.refreshedOnce then 9 else 5
  | .dialling .connecting =>
      if accepts answer d.token then 2 else if d.refreshedOnce then 10 else 6
  | .dialling .refused => if d.refreshedOnce then 8 else 4
  | .dialling .lost => 8
  | .refreshing => 3
  | .waiting => 7

variable {answer : String} {e : Event} {d next : Dial}

theorem left_le (answer : String) (d : Dial) : d.left answer ≤ 10 := by
  rw [Dial.left]
  split <;> first | omega | (split <;> first | omega | (split <;> omega))

theorem accepts_self (hanswer : answer ≠ "") : accepts answer answer = true := by
  simp [accepts, hanswer]

/-- Each of these events is one less. -/
theorem Move.left_lt (hmove : Move (some answer) (some answer) e d next) (hanswer : answer ≠ "")
    (hsteady : e.Steady) : next.left answer ≤ d.left answer - 1 := by
  cases hmove with
  | starts => exact hsteady.elim
  | stops => exact hsteady.elim
  | written => exact hsteady.elim
  | turnedAway => exact hsteady.elim
  | dropped => exact hsteady.elim
  | failed => exact hsteady.elim
  | opened _ i hactivity =>
      simp only [Dial.left, hactivity]
      split
      · omega
      · split <;> omega
  | @judged _ i token reply hactivity hengine =>
      obtain rfl := Option.some.inj hengine
      simp only [Dial.left, hactivity]
      cases accepts answer token with
      | true => simp
      | false =>
          simp only [Bool.false_eq_true, if_false]
          split <;> omega
  | message _ i hactivity => simp [Dial.left, hactivity]
  | refused _ i hactivity honce => simp [Dial.left, hactivity, honce]
  | again _ i hactivity honce => simp [Dial.left, hactivity, honce]
  | lost _ i hactivity => simp [Dial.left, hactivity]
  | fetched _ hactivity hfile htoken =>
      obtain rfl := Option.some.inj hfile
      simp [Dial.left, hactivity, accepts_self hanswer]
  | missed _ reached hactivity hmissed =>
      cases reached with
      | false => exact hsteady.elim
      | true =>
          rcases hmissed with hmissed | hmissed | hmissed
          · cases hmissed
          · cases hmissed
          · exact absurd (Option.some.inj hmissed) hanswer
  | fires _ hactivity =>
      simp only [Dial.left, hactivity]
      split
      · omega
      · simp

end Progress

section Run

/-- A step of the page, the engine or the file. -/
def Step (w next : World) : Prop := ∃ e, w.step e = some next

/-- What holds in every run. -/
def Sound (w : World) : Prop := ∃ a, Does w.page a ∧ Budget (w.dial a)

variable {w next : World} {token answer : String} {engine file : Option String} {e : Event}

theorem sound_start : Sound (.start token engine file) :=
  ⟨_, .connect (List.forall_mem_nil _) rfl rfl, Nat.le_refl 2, by simp [World.dial]⟩

theorem Sound.step (h : Sound w) (hstep : Step w next) : Sound next := by
  obtain ⟨a, hdoes, hbudget⟩ := h
  obtain ⟨e, hnext⟩ := hstep
  obtain ⟨b, hb, hmove⟩ := hdoes.step hnext
  exact ⟨b, hb, hbudget.of_move hmove⟩

theorem sound_of_reaches (hrun : Run.Reaches Step (.start token engine file) w) : Sound w :=
  hrun.invariant sound_start fun _ _ hstep h => h.step hstep

variable {a : Activity}

theorem filter_closed {old : List Socket} (hold : ∀ r ∈ old, r = .closed) :
    old.filter (fun socket => socket != .closed) = [] := by
  rw [List.filter_eq_nil_iff]
  intro r hr
  simp [hold r hr]

/-- A socket, a token or a timer. -/
theorem Does.count (h : Does w.page a) :
    w.page.live.length + w.page.refreshing + w.page.reconnectTimer.toNat = 1 := by
  cases h with
  | dialling hopen hold hsockets _ htimer hrefreshing =>
      simp [EngineClient.live, hsockets, filter_closed hold, htimer, hrefreshing, hopen]
  | refreshing hclosed htimer hrefreshing =>
      simp [EngineClient.live, filter_closed hclosed, htimer, hrefreshing]
  | waiting hclosed htimer hrefreshing =>
      simp [EngineClient.live, filter_closed hclosed, htimer, hrefreshing]

/-- Nothing that happens by itself changes the engine or the file. -/
theorem step_steady (hsteady : e.Steady) (hstep : w.step e = some next) :
    next.engine = w.engine ∧ next.file = w.file := by
  have hmatch := hstep
  rw [World.step.eq_def] at hmatch
  cases e with
  | engineStarts => exact hsteady.elim
  | engineStops => exact hsteady.elim
  | fileWritten => exact hsteady.elim
  | turnedAway => exact hsteady.elim
  | dropped => exact hsteady.elim
  | failed => exact hsteady.elim
  | opened i =>
      dsimp only at hmatch
      split at hmatch <;> cases hmatch
      exact ⟨rfl, rfl⟩
  | judged i =>
      dsimp only at hmatch
      split at hmatch <;> cases hmatch
      exact ⟨rfl, rfl⟩
  | message i =>
      dsimp only at hmatch
      split at hmatch <;> cases hmatch
      exact ⟨rfl, rfl⟩
  | closed i =>
      dsimp only at hmatch
      split at hmatch <;> cases hmatch
      · exact ⟨rfl, rfl⟩
      · exact ⟨rfl, rfl⟩
  | fetched reached =>
      dsimp only at hmatch
      split at hmatch <;> cases hmatch
      exact ⟨rfl, rfl⟩
  | timerFires =>
      dsimp only at hmatch
      split at hmatch <;> cases hmatch
      exact ⟨rfl, rfl⟩

/-- Such a run leaves as much less as it is long. -/
theorem Does.left_run (hanswer : answer ≠ "") (events : List Event)
    (h : Does w.page a) (hengine : w.engine = some answer) (hfile : w.file = some answer)
    (hsteady : ∀ e ∈ events, e.Steady) (hrun : events.foldlM World.step w = some next) :
    ∃ b, Does next.page b ∧
      (next.dial b).left answer ≤ (w.dial a).left answer - events.length := by
  induction events generalizing w a with
  | nil =>
      obtain rfl := Option.some.inj hrun
      exact ⟨a, h, Nat.le_refl _⟩
  | cons e events ih =>
      rw [List.foldlM_cons] at hrun
      obtain ⟨mid, hmid, hrest⟩ := Option.bind_eq_some_iff.mp hrun
      have hfirst := hsteady e List.mem_cons_self
      obtain ⟨b, hb, hmove⟩ := h.step hmid
      obtain ⟨hsame, hkept⟩ := step_steady hfirst hmid
      rw [hengine, hfile] at hmove
      have hless := hmove.left_lt hanswer hfirst
      obtain ⟨last, hlast, hleft⟩ := ih hb (hsame.trans hengine) (hkept.trans hfile)
        (fun e he => hsteady e (List.mem_cons_of_mem _ he)) hrest
      refine ⟨last, hlast, ?_⟩
      rw [List.length_cons]
      omega

/-- When nothing is left the engine has accepted the page. -/
theorem Does.accepted (h : Does w.page a) (hleft : (w.dial a).left answer = 0) :
    .accepted ∈ w.page.sockets := by
  cases h with
  | @dialling old socket hopen hold hsockets hws htimer hrefreshing =>
      rw [hsockets]
      apply List.mem_append_right
      cases socket with
      | accepted => exact List.mem_singleton_self _
      | closed => exact absurd rfl hopen
      | connecting =>
          cases haccepts : accepts answer w.page.token <;> cases honce : w.page.refreshedOnce <;>
            simp [Dial.left, World.dial, haccepts, honce] at hleft
      | awaiting sent =>
          cases haccepts : accepts answer sent <;> cases honce : w.page.refreshedOnce <;>
            simp [Dial.left, World.dial, haccepts, honce] at hleft
      | refused =>
          cases honce : w.page.refreshedOnce <;>
            simp [Dial.left, World.dial, honce] at hleft
      | lost => cases hleft
  | refreshing => cases hleft
  | waiting => cases hleft

/-- Until then there is something that comes next. -/
theorem Does.enabled (h : Does w.page a) (hengine : w.engine = some answer) :
    .accepted ∈ w.page.sockets ∨ ∃ e, e.Steady ∧ (w.step e).isSome = true := by
  cases h with
  | @dialling old socket hopen hold hsockets hws htimer hrefreshing =>
      have hlast : w.page.sockets[old.length]? = some socket := by
        rw [hsockets, List.getElem?_append_right (Nat.le_refl _), Nat.sub_self]
        rfl
      cases socket with
      | accepted => exact .inl (List.mem_of_getElem? hlast)
      | closed => exact absurd rfl hopen
      | connecting => exact .inr ⟨.opened old.length, trivial, by simp [World.step, hlast, hengine]⟩
      | awaiting sent =>
          exact .inr ⟨.judged old.length, trivial, by simp [World.step, hlast, hengine]⟩
      | refused => exact .inr ⟨.closed old.length, trivial, by simp [World.step, hlast]⟩
      | lost => exact .inr ⟨.closed old.length, trivial, by simp [World.step, hlast]⟩
  | refreshing _ _ hrefreshing =>
      exact .inr ⟨.fetched true, trivial, by simp [World.step, hrefreshing]⟩
  | waiting _ htimer _ => exact .inr ⟨.timerFires, trivial, by simp [World.step, htimer]⟩

/-- In every run the page is at one thing: a socket, which is the one it sends on, a
token that it fetches or a timer. It dials at most twice for each time that the timer
fires. And once the engine runs with the token of its file, the page is accepted
after ten events at most. -/
theorem redials_of_run (hrun : Run.Reaches Step (.start token engine file) w) :
    w.page.live.length + w.page.refreshing + w.page.reconnectTimer.toNat = 1 ∧
      (∀ i socket, w.page.sockets[i]? = some socket → socket ≠ .closed → w.page.ws = some i) ∧
      w.attempts ≤ 2 * (w.fired + 1) ∧
      ∀ answer, answer ≠ "" → w.engine = some answer → w.file = some answer →
        (.accepted ∈ w.page.sockets ∨ ∃ e, e.Steady ∧ (w.step e).isSome = true) ∧
        ∀ (events : List Event) (next : World), (∀ e ∈ events, e.Steady) →
          events.foldlM World.step w = some next → 10 ≤ events.length →
          .accepted ∈ next.page.sockets := by
  obtain ⟨a, hdoes, hbudget⟩ := sound_of_reaches hrun
  refine ⟨hdoes.count, fun i socket hi hopen => (hdoes.socket_eq hi hopen).2,
    Nat.le_trans (Nat.le_add_right ..) hbudget.bound, ?_⟩
  intro answer hanswer hengine hfile
  refine ⟨hdoes.enabled hengine, ?_⟩
  intro events next hsteady hevents hlong
  obtain ⟨b, hb, hleft⟩ := hdoes.left_run hanswer events hengine hfile hsteady hevents
  have hten := left_le answer (w.dial a)
  have hzero : (next.dial b).left answer = 0 := by omega
  exact hb.accepted hzero

/-- A page with the token of an earlier engine is refused, fetches the new one and is
accepted. -/
theorem redials_of_run_stale : ∃ w : World,
    Run.Reaches Step (.start "old" (some "new") (some "new")) w ∧
      .accepted ∈ w.page.sockets ∧ w.attempts = 2 ∧ w.attempts ≤ 2 * (w.fired + 1) := by
  have hfold : [Event.opened 0, .judged 0, .closed 0, .fetched true, .opened 1, .judged 1].foldlM
      World.step (.start "old" (some "new") (some "new")) = some {
        page := {
          token := "new"
          sockets := [.closed, .accepted]
          ws := some 1
          refreshedOnce := true }
        engine := some "new"
        file := some "new"
        attempts := 2 } := by decide
  have hrun : Run.Reaches Step (.start "old" (some "new") (some "new")) _ :=
    Run.Reaches.of_foldlM (fun _ e _ h => ⟨e, h⟩) hfold
  exact ⟨_, hrun, by decide, rfl, (redials_of_run hrun).2.2.1⟩

end Run

end DawProject.Network.Redial
