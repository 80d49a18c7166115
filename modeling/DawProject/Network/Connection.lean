import DawProject.Lib.Run
import Mathlib.Data.List.Basic
import Mathlib.Logic.Function.Basic

/-!
The connection of `web/src/network/server_client.ts`: `connect`, `disconnect`
and the timers. A socket that is closed keeps its handlers, and its close event
comes later.
-/

namespace DawProject.Network.Connection

/-- The state of a `WebSocket`. -/
inductive ReadyState where
  | connecting
  | open_
  | closing
  | closed
deriving DecidableEq, Repr

/-- `CONNECTING` or `OPEN`. -/
def ReadyState.isLive : ReadyState → Bool
  | .connecting | .open_ => true
  | .closing | .closed => false

/-- `close()` of a socket. -/
def ReadyState.close (r : ReadyState) : ReadyState := if r.isLive then .closing else r

/-- `reconnectTimer`, `watchdogTimer` and `resyncTimer`. -/
inductive TimerKind where
  | reconnect
  | watchdog
  | resync
deriving DecidableEq, Repr

/-- The client, with the sockets it has created and the timers that the browser
still holds. No step reads `disconnected`: `disconnect` was called, and `connect`
has not been since. -/
structure ServerClient where
  sockets : List ReadyState := []
  ws : Option Nat := none
  timer : TimerKind → Option Nat := fun _ => none
  pending : TimerKind → List Nat := fun _ => []
  timersSet : Nat := 0
  disconnected : Bool := false

inductive Event where
  /-- `connect()`; the constructor of the socket can throw. -/
  | connect (throws : Bool)
  | disconnect
  | requestResync
  | opened (i : Nat)
  | errored (i : Nat)
  | closed (i : Nat)
  | reconnectFires (id : Nat) (throws : Bool)
  | watchdogFires (id : Nat) (silent : Bool)
  | resyncFires (id : Nat)
deriving DecidableEq, Repr

namespace ServerClient

/-- Set a timer, unless it is set. -/
def startTimer (k : TimerKind) (s : ServerClient) : ServerClient :=
  if (s.timer k).isSome then s
  else
    { s with
      timer := Function.update s.timer k (some s.timersSet)
      pending := Function.update s.pending k (s.timersSet :: s.pending k)
      timersSet := s.timersSet + 1 }

def clearTimer (k : TimerKind) (s : ServerClient) : ServerClient :=
  match s.timer k with
  | none => s
  | some id =>
      { s with
        timer := Function.update s.timer k none
        pending := Function.update s.pending k ((s.pending k).erase id) }

/-- A timeout that fires: its field becomes `null`. -/
def fired (k : TimerKind) (id : Nat) (s : ServerClient) : ServerClient :=
  { s with
    timer := Function.update s.timer k none
    pending := Function.update s.pending k ((s.pending k).erase id) }

/-- `this.ws?.close()`. -/
def closeSocket (s : ServerClient) : ServerClient :=
  match s.ws with
  | none => s
  | some i => { s with sockets := s.sockets.modify i ReadyState.close }

/-- The socket that `connect` creates. -/
def openSocket (throws : Bool) (s : ServerClient) : ServerClient :=
  if throws then s
  else { s with sockets := s.sockets ++ [.connecting], ws := some s.sockets.length }

def disconnect (s : ServerClient) : ServerClient :=
  let s := ((s.clearTimer .watchdog).clearTimer .reconnect).clearTimer .resync
  { s.closeSocket with ws := none, disconnected := true }

def step (s : ServerClient) : Event → Option ServerClient
  | .connect throws => some { s.openSocket throws with disconnected := false }
  | .disconnect => some s.disconnect
  | .requestResync => some (s.startTimer .resync)
  | .opened i =>
      if s.sockets[i]? = some .connecting then
        some ({ s with sockets := s.sockets.set i .open_ }.startTimer .watchdog)
      else none
  | .errored i => if ∃ r ∈ s.sockets[i]?, r ≠ .closed then some s else none
  | .closed i =>
      if ∃ r ∈ s.sockets[i]?, r ≠ .closed then
        some (({ s with sockets := s.sockets.set i .closed }.clearTimer .watchdog).startTimer
          .reconnect)
      else none
  | .reconnectFires id throws =>
      if id ∈ s.pending .reconnect then some ((s.fired .reconnect id).openSocket throws)
      else none
  | .watchdogFires id silent =>
      if id ∈ s.pending .watchdog then
        some (if silent then (s.clearTimer .watchdog).closeSocket else s)
      else none
  | .resyncFires id =>
      if id ∈ s.pending .resync then some (s.fired .resync id).closeSocket else none

def live (s : ServerClient) : List ReadyState := s.sockets.filter ReadyState.isLive

end ServerClient

/-- `connect` is called when no socket is live or after `disconnect`. -/
def Event.Allowed (s : ServerClient) : Event → Prop
  | .connect _ => s.live = [] ∨ s.disconnected = true
  | _ => True

/-- No close event comes from a socket that the client has given up, and
`connect` is not called while a reconnection is scheduled. -/
def Event.Clean (s : ServerClient) : Event → Prop
  | .connect _ => s.pending .reconnect = []
  | .closed i => s.ws = some i
  | _ => True

/-- A call of `connect`. -/
def Event.isConnect : Event → Bool
  | .connect _ => true
  | _ => false

/-- A step by an event that `ok` admits. -/
def StepIf (ok : ServerClient → Event → Prop) (s next : ServerClient) : Prop :=
  ∃ e, ok s e ∧ s.step e = some next

/-- At most one socket is live and one reconnection scheduled, and after
`disconnect` no socket is created until `connect` is called. -/
def Lifecycle (ok : ServerClient → Event → Prop) (s : ServerClient) : Prop :=
  s.live.length ≤ 1 ∧ (s.pending .reconnect).length ≤ 1 ∧
  (s.disconnected = true →
    ∀ t, Run.Reaches (StepIf fun s e => ok s e ∧ e.isConnect = false) s t →
      t.sockets.length = s.sockets.length)

section Fields

variable (s : ServerClient) (k : TimerKind)

@[simp] theorem startTimer_sockets : (s.startTimer k).sockets = s.sockets := by
  unfold ServerClient.startTimer
  split <;> rfl

@[simp] theorem startTimer_ws : (s.startTimer k).ws = s.ws := by
  unfold ServerClient.startTimer
  split <;> rfl

@[simp] theorem startTimer_disconnected : (s.startTimer k).disconnected = s.disconnected := by
  unfold ServerClient.startTimer
  split <;> rfl

theorem startTimer_timer_of_ne {k' : TimerKind} (hne : k' ≠ k) :
    (s.startTimer k).timer k' = s.timer k' := by
  unfold ServerClient.startTimer
  split
  · rfl
  · exact Function.update_of_ne hne _ _

@[simp] theorem clearTimer_sockets : (s.clearTimer k).sockets = s.sockets := by
  unfold ServerClient.clearTimer
  split <;> rfl

@[simp] theorem clearTimer_ws : (s.clearTimer k).ws = s.ws := by
  unfold ServerClient.clearTimer
  split <;> rfl

@[simp] theorem clearTimer_disconnected : (s.clearTimer k).disconnected = s.disconnected := by
  unfold ServerClient.clearTimer
  split <;> rfl

@[simp] theorem clearTimer_timer : (s.clearTimer k).timer = Function.update s.timer k none := by
  unfold ServerClient.clearTimer
  split
  · rename_i hnone
    exact (Function.update_eq_self_iff.mpr hnone.symm).symm
  · rfl

@[simp] theorem closeSocket_ws : s.closeSocket.ws = s.ws := by
  unfold ServerClient.closeSocket
  split <;> rfl

@[simp] theorem closeSocket_timer : s.closeSocket.timer = s.timer := by
  unfold ServerClient.closeSocket
  split <;> rfl

@[simp] theorem closeSocket_pending : s.closeSocket.pending = s.pending := by
  unfold ServerClient.closeSocket
  split <;> rfl

@[simp] theorem closeSocket_disconnected : s.closeSocket.disconnected = s.disconnected := by
  unfold ServerClient.closeSocket
  split <;> rfl

@[simp] theorem closeSocket_length : s.closeSocket.sockets.length = s.sockets.length := by
  unfold ServerClient.closeSocket
  split
  · rfl
  · exact List.length_modify _ _ _

end Fields

section Timers

/-- The browser holds the timers that the fields name, and no other. -/
def TimersHeld (s : ServerClient) : Prop := ∀ k, s.pending k = (s.timer k).toList

variable {s : ServerClient} {k : TimerKind} {id : Nat}

theorem TimersHeld.timer_eq (hheld : TimersHeld s) (hmem : id ∈ s.pending k) :
    s.timer k = some id := by
  rw [hheld k] at hmem
  exact Option.mem_toList.mp hmem

theorem TimersHeld.startTimer (hheld : TimersHeld s) : TimersHeld (s.startTimer k) := by
  intro k'
  unfold ServerClient.startTimer
  split
  · exact hheld k'
  · rename_i hnone
    rw [Option.not_isSome_iff_eq_none] at hnone
    dsimp only
    rcases eq_or_ne k' k with rfl | hne
    · rw [Function.update_self, Function.update_self, hheld k', hnone]
      rfl
    · rw [Function.update_of_ne hne, Function.update_of_ne hne]
      exact hheld k'

theorem TimersHeld.fired (hheld : TimersHeld s) (htimer : s.timer k = some id) :
    TimersHeld (s.fired k id) := by
  intro k'
  unfold ServerClient.fired
  dsimp only
  rcases eq_or_ne k' k with rfl | hne
  · rw [Function.update_self, Function.update_self, hheld k', htimer]
    simp
  · rw [Function.update_of_ne hne, Function.update_of_ne hne]
    exact hheld k'

theorem TimersHeld.clearTimer (hheld : TimersHeld s) : TimersHeld (s.clearTimer k) := by
  unfold ServerClient.clearTimer
  split
  · exact hheld
  · rename_i htimer
    exact hheld.fired htimer

theorem TimersHeld.closeSocket (hheld : TimersHeld s) : TimersHeld s.closeSocket := by
  intro k'
  rw [closeSocket_pending, closeSocket_timer]
  exact hheld k'

end Timers

section Sockets

/-- Only the current socket can be live. -/
def LiveIsCurrent (s : ServerClient) : Prop :=
  ∀ i r, s.sockets[i]? = some r → r.isLive = true → s.ws = some i

/-- No socket is live. -/
def Idle (s : ServerClient) : Prop := ∀ r ∈ s.sockets, r.isLive = false

variable {s : ServerClient}

theorem length_filter_le_one {α : Type*} {p : α → Bool} {l : List α}
    (hone : ∀ (i j : Nat) (a b : α), l[i]? = some a → l[j]? = some b → p a = true → p b = true → i = j) :
    (l.filter p).length ≤ 1 := by
  induction l with
  | nil => simp
  | cons a l ih =>
      cases ha : p a with
      | false =>
          rw [List.filter_cons_of_neg (by simp [ha])]
          apply ih
          intro i j b c hb hc hpb hpc
          exact Nat.succ.inj (hone (i + 1) (j + 1) b c hb hc hpb hpc)
      | true =>
          have hrest : l.filter p = [] := by
            rw [List.filter_eq_nil_iff]
            intro b hb hpb
            obtain ⟨j, hj⟩ := List.mem_iff_getElem?.mp hb
            cases hone 0 (j + 1) a b rfl hj ha hpb
          rw [List.filter_cons_of_pos ha, hrest]
          exact Nat.le_refl 1

theorem LiveIsCurrent.length_live (hlive : LiveIsCurrent s) : s.live.length ≤ 1 := by
  apply length_filter_le_one
  intro i j a b ha hb hpa hpb
  exact Option.some.inj ((hlive i a ha hpa).symm.trans (hlive j b hb hpb))

theorem LiveIsCurrent.idle_of_ws (hlive : LiveIsCurrent s) (hws : s.ws = none) : Idle s := by
  intro r hr
  obtain ⟨i, hi⟩ := List.mem_iff_getElem?.mp hr
  by_contra hactive
  rw [hlive i r hi (eq_true_of_ne_false hactive)] at hws
  cases hws

theorem Idle.current (hidle : Idle s) : LiveIsCurrent s := by
  intro i r hi hactive
  rw [hidle r (List.mem_of_getElem? hi)] at hactive
  cases hactive

theorem LiveIsCurrent.closeSocket (hlive : LiveIsCurrent s) : Idle s.closeSocket := by
  unfold ServerClient.closeSocket
  split
  · rename_i hws
    exact hlive.idle_of_ws hws
  · rename_i i hws
    intro r hr
    obtain ⟨j, hj⟩ := List.mem_iff_getElem?.mp hr
    dsimp only at hj
    rw [List.getElem?_modify] at hj
    obtain ⟨old, hold, rfl⟩ := Option.map_eq_some_iff.mp hj
    by_contra hactive
    split at hactive
    · cases old <;> exact hactive rfl
    · rename_i hne
      have hcurrent := hlive j old hold (eq_true_of_ne_false hactive)
      rw [hws] at hcurrent
      exact hne (Option.some.inj hcurrent)

/-- The current socket has closed. -/
theorem LiveIsCurrent.closed {i : Nat} (hlive : LiveIsCurrent s) (hws : s.ws = some i) :
    ∀ r ∈ s.sockets.set i .closed, r.isLive = false := by
  intro r hr
  obtain ⟨j, hj⟩ := List.mem_iff_getElem?.mp hr
  by_contra hactive
  rcases eq_or_ne i j with rfl | hne
  · rw [List.getElem?_set_self'] at hj
    obtain ⟨old, -, rfl⟩ := Option.map_eq_some_iff.mp hj
    exact hactive rfl
  · rw [List.getElem?_set_ne hne] at hj
    have hcurrent := hlive j r hj (eq_true_of_ne_false hactive)
    rw [hws] at hcurrent
    exact hne (Option.some.inj hcurrent)

theorem LiveIsCurrent.opened {i : Nat} (hlive : LiveIsCurrent s)
    (hi : s.sockets[i]? = some .connecting) :
    LiveIsCurrent { s with sockets := s.sockets.set i .open_ } := by
  intro j r hj hactive
  rcases eq_or_ne i j with rfl | hne
  · exact hlive i _ hi rfl
  · dsimp only at hj
    rw [List.getElem?_set_ne hne] at hj
    exact hlive j r hj hactive

theorem Idle.openSocket (hidle : Idle s) (throws : Bool) : LiveIsCurrent (s.openSocket throws) := by
  unfold ServerClient.openSocket
  split
  · exact hidle.current
  · intro i r hi hactive
    dsimp only at hi ⊢
    rcases Nat.lt_or_ge i s.sockets.length with hlt | hge
    · rw [List.getElem?_append_left hlt] at hi
      rw [hidle r (List.mem_of_getElem? hi)] at hactive
      cases hactive
    · obtain ⟨hlt, -⟩ := List.getElem?_eq_some_iff.mp hi
      rw [List.length_append, List.length_singleton] at hlt
      rw [show i = s.sockets.length by omega]

end Sockets

section Invariant

structure Inv (s : ServerClient) : Prop where
  held : TimersHeld s
  current : LiveIsCurrent s
  /-- A reconnection is scheduled only while no socket is live. -/
  idle : s.timer .reconnect ≠ none → Idle s
  off : s.disconnected = true → s.ws = none ∧ s.timer .reconnect = none

/-- The events of a run that is clean. -/
def CleanEvent (s : ServerClient) (e : Event) : Prop := e.Allowed s ∧ e.Clean s

variable {s next : ServerClient}

theorem inv_initial : Inv {} :=
  ⟨fun _ => rfl, nofun, fun h => absurd rfl h, nofun⟩

theorem Inv.startTimer (hinv : Inv s) {k : TimerKind} (hk : k ≠ .reconnect) :
    Inv (s.startTimer k) := by
  refine ⟨hinv.held.startTimer, ?_, ?_, ?_⟩
  · intro i r hi hactive
    rw [startTimer_sockets] at hi
    rw [startTimer_ws]
    exact hinv.current i r hi hactive
  · rw [startTimer_timer_of_ne s k hk.symm]
    intro hset r hr
    rw [startTimer_sockets] at hr
    exact hinv.idle hset r hr
  · rw [startTimer_timer_of_ne s k hk.symm, startTimer_ws, startTimer_disconnected]
    exact hinv.off

theorem Inv.closeSocket (hinv : Inv s) : Inv s.closeSocket := by
  have hidle := hinv.current.closeSocket
  refine ⟨hinv.held.closeSocket, hidle.current, fun _ => hidle, ?_⟩
  rw [closeSocket_ws, closeSocket_timer, closeSocket_disconnected]
  exact hinv.off

theorem Inv.clearTimer (hinv : Inv s) (k : TimerKind) : Inv (s.clearTimer k) := by
  have htimer : (s.clearTimer k).timer .reconnect ≠ none → s.timer .reconnect ≠ none := by
    rw [clearTimer_timer]
    intro hset
    rcases eq_or_ne TimerKind.reconnect k with rfl | hne
    · rw [Function.update_self] at hset
      exact absurd rfl hset
    · rwa [Function.update_of_ne hne] at hset
  refine ⟨hinv.held.clearTimer, ?_, ?_, ?_⟩
  · intro i r hi hactive
    rw [clearTimer_sockets] at hi
    rw [clearTimer_ws]
    exact hinv.current i r hi hactive
  · intro hset r hr
    rw [clearTimer_sockets] at hr
    exact hinv.idle (htimer hset) r hr
  · rw [clearTimer_ws, clearTimer_disconnected]
    intro hoff
    obtain ⟨hws, hnone⟩ := hinv.off hoff
    refine ⟨hws, ?_⟩
    by_contra hset
    exact htimer hset hnone

/-- The reconnection that fires was scheduled while no socket was live. -/
theorem Inv.reconnect (hinv : Inv s) {id : Nat} (hid : id ∈ s.pending .reconnect)
    (throws : Bool) : Inv ((s.fired .reconnect id).openSocket throws) := by
  have htimer := hinv.held.timer_eq hid
  have hset : s.timer .reconnect ≠ none := by simp [htimer]
  have hidle : Idle (s.fired .reconnect id) := hinv.idle hset
  have hon : s.disconnected ≠ true := fun hoff => hset (hinv.off hoff).2
  have hheld := hinv.held.fired htimer
  have hnone : (s.fired .reconnect id).timer .reconnect = none := by
    show Function.update s.timer .reconnect none .reconnect = none
    exact Function.update_self ..
  refine ⟨?_, hidle.openSocket throws, ?_, ?_⟩
  · intro k
    unfold ServerClient.openSocket
    split <;> exact hheld k
  · unfold ServerClient.openSocket
    split <;> exact fun h => absurd hnone h
  · unfold ServerClient.openSocket
    split <;> exact fun h => absurd h hon

theorem inv_of_clean (hinv : Inv s) {e : Event} (hclean : CleanEvent s e)
    (hstep : s.step e = some next) : Inv next := by
  obtain ⟨hallowed, hclean⟩ := hclean
  cases e with
  | connect throws =>
      obtain rfl := Option.some.inj hstep
      have hidle : Idle s := by
        rcases hallowed with hnone | hoff
        · rw [ServerClient.live, List.filter_eq_nil_iff] at hnone
          exact fun r hr => eq_false_of_ne_true (hnone r hr)
        · exact hinv.current.idle_of_ws (hinv.off hoff).1
      have hnone : s.timer .reconnect = none := by
        have hpending := hinv.held .reconnect
        rw [show s.pending .reconnect = [] from hclean] at hpending
        exact Option.toList_eq_nil_iff.mp hpending.symm
      refine ⟨?_, hidle.openSocket throws, ?_, nofun⟩
      · intro k
        unfold ServerClient.openSocket
        split <;> exact hinv.held k
      · unfold ServerClient.openSocket
        split <;> exact fun h => absurd hnone h
  | disconnect =>
      obtain rfl := Option.some.inj hstep
      have hcleared := ((hinv.clearTimer .watchdog).clearTimer .reconnect).clearTimer .resync
      have hclosed := hcleared.closeSocket
      have hidle : Idle s.disconnect := hcleared.current.closeSocket
      have hnone : s.disconnect.timer .reconnect = none := by
        show (ServerClient.closeSocket _).timer .reconnect = none
        rw [closeSocket_timer, clearTimer_timer, Function.update_of_ne (by decide),
          clearTimer_timer, Function.update_self]
      exact ⟨hclosed.held, hidle.current, fun _ => hidle, fun _ => ⟨rfl, hnone⟩⟩
  | requestResync =>
      obtain rfl := Option.some.inj hstep
      exact hinv.startTimer (by decide)
  | opened i =>
      simp only [ServerClient.step] at hstep
      split at hstep
      · rename_i hi
        obtain rfl := Option.some.inj hstep
        have hopened : Inv { s with sockets := s.sockets.set i .open_ } := by
          refine ⟨hinv.held, hinv.current.opened hi, ?_, hinv.off⟩
          intro hset
          have hlive := hinv.idle hset _ (List.mem_of_getElem? hi)
          cases hlive
        exact hopened.startTimer (by decide)
      · cases hstep
  | errored i =>
      simp only [ServerClient.step] at hstep
      split at hstep
      · obtain rfl := Option.some.inj hstep
        exact hinv
      · cases hstep
  | closed i =>
      simp only [ServerClient.step] at hstep
      split at hstep
      · obtain rfl := Option.some.inj hstep
        have hws : s.ws = some i := hclean
        have hon : s.disconnected ≠ true := by
          intro hoff
          rw [(hinv.off hoff).1] at hws
          cases hws
        have hidle : Idle ({ s with sockets := s.sockets.set i .closed }.clearTimer .watchdog) := by
          unfold Idle
          rw [clearTimer_sockets]
          exact hinv.current.closed hws
        have hheld : TimersHeld { s with sockets := s.sockets.set i .closed } := hinv.held
        have hafter : Idle (({ s with sockets := s.sockets.set i .closed }.clearTimer
            .watchdog).startTimer .reconnect) := by
          unfold Idle
          rw [startTimer_sockets]
          exact hidle
        refine ⟨hheld.clearTimer.startTimer, hafter.current, fun _ => hafter, ?_⟩
        rw [startTimer_disconnected, clearTimer_disconnected]
        exact fun hoff => absurd hoff hon
      · cases hstep
  | reconnectFires id throws =>
      simp only [ServerClient.step] at hstep
      split at hstep
      · rename_i hid
        obtain rfl := Option.some.inj hstep
        exact hinv.reconnect hid throws
      · cases hstep
  | watchdogFires id silent =>
      simp only [ServerClient.step] at hstep
      split at hstep
      · obtain rfl := Option.some.inj hstep
        split
        · exact (hinv.clearTimer .watchdog).closeSocket
        · exact hinv
      · cases hstep
  | resyncFires id =>
      simp only [ServerClient.step] at hstep
      split at hstep
      · rename_i hid
        obtain rfl := Option.some.inj hstep
        have hfired : s.fired .resync id = s.clearTimer .resync := by
          simp only [ServerClient.clearTimer, hinv.held.timer_eq hid]
          rfl
        rw [hfired]
        exact (hinv.clearTimer .resync).closeSocket
      · cases hstep

/-- After `disconnect`, an event that is not a call creates no socket. -/
theorem step_disconnected (hinv : Inv s) (hoff : s.disconnected = true) {e : Event}
    (hcall : e.isConnect = false) (hstep : s.step e = some next) :
    next.disconnected = true ∧ next.sockets.length = s.sockets.length := by
  obtain ⟨-, hnone⟩ := hinv.off hoff
  cases e with
  | connect throws => cases hcall
  | disconnect =>
      obtain rfl := Option.some.inj hstep
      refine ⟨rfl, ?_⟩
      show (ServerClient.closeSocket _).sockets.length = _
      rw [closeSocket_length, clearTimer_sockets, clearTimer_sockets, clearTimer_sockets]
  | requestResync =>
      obtain rfl := Option.some.inj hstep
      rw [startTimer_disconnected, startTimer_sockets]
      exact ⟨hoff, rfl⟩
  | opened i =>
      simp only [ServerClient.step] at hstep
      split at hstep
      · obtain rfl := Option.some.inj hstep
        rw [startTimer_disconnected, startTimer_sockets]
        exact ⟨hoff, List.length_set⟩
      · cases hstep
  | errored i =>
      simp only [ServerClient.step] at hstep
      split at hstep
      · obtain rfl := Option.some.inj hstep
        exact ⟨hoff, rfl⟩
      · cases hstep
  | closed i =>
      simp only [ServerClient.step] at hstep
      split at hstep
      · obtain rfl := Option.some.inj hstep
        rw [startTimer_disconnected, clearTimer_disconnected, startTimer_sockets,
          clearTimer_sockets]
        exact ⟨hoff, List.length_set⟩
      · cases hstep
  | reconnectFires id throws =>
      simp only [ServerClient.step] at hstep
      split at hstep
      · rename_i hid
        rw [hinv.held.timer_eq hid] at hnone
        cases hnone
      · cases hstep
  | watchdogFires id silent =>
      simp only [ServerClient.step] at hstep
      split at hstep
      · obtain rfl := Option.some.inj hstep
        split
        · rw [closeSocket_disconnected, closeSocket_length, clearTimer_disconnected,
            clearTimer_sockets]
          exact ⟨hoff, rfl⟩
        · exact ⟨hoff, rfl⟩
      · cases hstep
  | resyncFires id =>
      simp only [ServerClient.step] at hstep
      split at hstep
      · obtain rfl := Option.some.inj hstep
        rw [closeSocket_disconnected, closeSocket_length]
        exact ⟨hoff, rfl⟩
      · cases hstep

/-- The client keeps its connections apart in every run where no socket closes
after the client has given it up, and no call comes before a reconnection. -/
theorem lifecycle_of_clean_run (hrun : Run.Reaches (StepIf CleanEvent) {} s) :
    Lifecycle CleanEvent s := by
  have hinv : Inv s := by
    apply Run.Reaches.invariant hrun inv_initial
    rintro a b ⟨e, hclean, hstep⟩ ha
    exact inv_of_clean ha hclean hstep
  refine ⟨hinv.current.length_live, ?_, ?_⟩
  · rw [hinv.held]
    cases s.timer .reconnect <;> simp
  · intro hoff t hquiet
    have hstays : Inv t ∧ t.disconnected = true ∧ t.sockets.length = s.sockets.length := by
      apply Run.Reaches.invariant hquiet ⟨hinv, hoff, rfl⟩
      rintro a b ⟨e, ⟨hclean, hcall⟩, hstep⟩ ⟨ha, haoff, hlength⟩
      obtain ⟨hboff, hsame⟩ := step_disconnected ha haoff hcall hstep
      exact ⟨inv_of_clean ha hclean hstep, hboff, hsame.trans hlength⟩
    exact hstays.2.2

end Invariant

/-- A connection that drops and comes back, and is then given up. -/
theorem lifecycle_of_dropped : ∃ s, s.sockets.length = 2 ∧ s.disconnected = true ∧
    Lifecycle CleanEvent s := by
  have hconnect := Relation.ReflTransGen.single
    (r := StepIf CleanEvent) (a := {}) ⟨.connect false, ⟨Or.inl rfl, rfl⟩, rfl⟩
  have hopen := hconnect.tail ⟨.opened 0, ⟨trivial, trivial⟩, rfl⟩
  have hclose := hopen.tail ⟨.closed 0, ⟨trivial, rfl⟩, rfl⟩
  have hagain := hclose.tail ⟨.reconnectFires 1 false, ⟨trivial, trivial⟩, rfl⟩
  have hoff := hagain.tail ⟨.disconnect, ⟨trivial, trivial⟩, rfl⟩
  exact ⟨_, rfl, rfl, lifecycle_of_clean_run hoff⟩

section Failures

/-- The close event of the socket that `disconnect` has closed schedules a
reconnection. -/
theorem socket_after_disconnect : ∃ s t,
    Run.Reaches (StepIf fun s e => e.Allowed s) {} s ∧ s.disconnected = true ∧
    Run.Reaches (StepIf fun s e => e.Allowed s ∧ e.isConnect = false) s t ∧
    s.sockets.length = 1 ∧ t.sockets.length = 2 := by
  have hconnect := Relation.ReflTransGen.single
    (r := StepIf fun s e => e.Allowed s) (a := {}) ⟨.connect false, Or.inl rfl, rfl⟩
  have hopen := hconnect.tail ⟨.opened 0, trivial, rfl⟩
  have hoff := hopen.tail ⟨.disconnect, trivial, rfl⟩
  exact ⟨_, _, hoff, rfl, (Relation.ReflTransGen.refl.tail ⟨.closed 0, ⟨trivial, rfl⟩, rfl⟩).tail
    ⟨.reconnectFires 1 false, ⟨trivial, rfl⟩, rfl⟩, rfl, rfl⟩

theorem not_lifecycle_of_allowed_run :
    ¬∀ s, Run.Reaches (StepIf fun s e => e.Allowed s) {} s →
      Lifecycle (fun s e => e.Allowed s) s := by
  intro hall
  obtain ⟨s, t, hrun, hoff, hquiet, hs, ht⟩ := socket_after_disconnect
  have hlength := (hall s hrun).2.2 hoff t hquiet
  omega

/-- A call of `connect` while a reconnection is scheduled. -/
theorem two_live : ∃ s, Run.Reaches (StepIf fun s e => e.Allowed s) {} s ∧ s.live.length = 2 := by
  have hconnect := Relation.ReflTransGen.single
    (r := StepIf fun s e => e.Allowed s) (a := {}) ⟨.connect false, Or.inl rfl, rfl⟩
  have hclose := hconnect.tail ⟨.closed 0, trivial, rfl⟩
  have hcall := hclose.tail ⟨.connect false, Or.inl rfl, rfl⟩
  exact ⟨_, hcall.tail ⟨.reconnectFires 0 false, trivial, rfl⟩, rfl⟩

end Failures

end DawProject.Network.Connection
