import DawProject.Lib.Run
import Mathlib.Data.Finset.Insert
import Mathlib.Data.Finset.Erase
import Mathlib.Logic.Function.Basic

/-!
Export mixdown: the render request handler of `engine/src/main.cpp`, which runs
on the thread of a connection, `ExportJob::start` of
`engine/src/render/export_job.cpp` and its worker thread, and `sendToAll` of
`engine/src/websocket/websocket_server.cpp`. Every access to `busy_` and
`worker_`, and every send to one client, is a step of its own.
-/

namespace DawProject.Engine.Export

inductive RenderState where
  | started
  | done
  | failed
deriving DecidableEq, Repr

/-- Where the handler of a request is. -/
inductive Handler (C : Type) where
  | absent
  /-- Before the check that a document is loaded. -/
  | requested
  /-- Before the exchange of `busy_`. -/
  | starting
  | joining
  | spawning
  /-- The thread runs and is not stored in `worker_` yet. -/
  | assigning
  /-- `start` has returned true. -/
  | launched
  | sendingStarted (targets : List C)
  | refused
  | sendingRefusal (targets : List C)
  | returned (accepted : Bool)

/-- Where the worker thread of a request is. -/
inductive Worker (C : Type) where
  | absent
  | rendering
  | rendered (ok : Bool)
  /-- `busy_` has dropped, `on_done` is about to run. -/
  | calling (ok : Bool)
  | answered (state : RenderState)
  | reporting (state : RenderState) (targets : List C)
  | exited (state : RenderState)

/-- `seen` is what reached each client, with the request it is about. -/
structure ExportJob (R C : Type) where
  busy_ : Bool := false
  worker_ : Option R := none
  handlers : R → Handler C := fun _ => .absent
  workers : R → Worker C := fun _ => .absent
  connections : Finset C := ∅
  seen : C → List (R × RenderState) := fun _ => []
  /-- `std::terminate` has been called. -/
  terminated : Bool := false

variable {R C : Type} [DecidableEq R] [DecidableEq C]

namespace ExportJob

def setHandler (s : ExportJob R C) (r : R) (handler : Handler C) : ExportJob R C :=
  { s with handlers := Function.update s.handlers r handler }

def setWorker (s : ExportJob R C) (r : R) (worker : Worker C) : ExportJob R C :=
  { s with workers := Function.update s.workers r worker }

/-- A send to a client that has left is lost. -/
def sendBinary (s : ExportJob R C) (c : C) (r : R) (state : RenderState) : ExportJob R C :=
  { s with
    seen := Function.update s.seen c
      (if c ∈ s.connections then s.seen c ++ [(r, state)] else s.seen c) }

/-- The copy that `sendToAll` takes under its lock, in the order of the clients. -/
def Targets (s : ExportJob R C) (targets : List C) : Prop :=
  targets.Nodup ∧ ∀ c, c ∈ targets ↔ c ∈ s.connections

/-- What a client was told about a request. -/
def told (s : ExportJob R C) (c : C) (r : R) : List RenderState :=
  ((s.seen c).filter fun message => decide (message.1 = r)).map Prod.snd

end ExportJob

/-- A step of a handler or of a worker. -/
inductive Act : ExportJob R C → ExportJob R C → Prop where
  | notLoaded {s : ExportJob R C} {r : R} (hphase : s.handlers r = .requested) :
      Act s (s.setHandler r .refused)
  | isLoaded {s : ExportJob R C} {r : R} (hphase : s.handlers r = .requested) :
      Act s (s.setHandler r .starting)
  | busy {s : ExportJob R C} {r : R} (hphase : s.handlers r = .starting)
      (hbusy : s.busy_ = true) :
      Act s (s.setHandler r .refused)
  | exchange {s : ExportJob R C} {r : R} (hphase : s.handlers r = .starting)
      (hbusy : s.busy_ = false) :
      Act s { s.setHandler r .joining with busy_ := true }
  | notJoinable {s : ExportJob R C} {r : R} (hphase : s.handlers r = .joining)
      (hworker : s.worker_ = none) :
      Act s (s.setHandler r .spawning)
  | join {s : ExportJob R C} {r w : R} {state : RenderState} (hphase : s.handlers r = .joining)
      (hworker : s.worker_ = some w) (hexited : s.workers w = .exited state) :
      Act s { s.setHandler r .spawning with worker_ := none }
  | spawn {s : ExportJob R C} {r : R} (hphase : s.handlers r = .spawning) :
      Act s ((s.setHandler r .assigning).setWorker r .rendering)
  | assign {s : ExportJob R C} {r : R} (hphase : s.handlers r = .assigning)
      (hworker : s.worker_ = none) :
      Act s { s.setHandler r .launched with worker_ := some r }
  /-- Assigning to a thread that is still joinable. -/
  | terminate {s : ExportJob R C} {r w : R} (hphase : s.handlers r = .assigning)
      (hworker : s.worker_ = some w) :
      Act s { s with terminated := true }
  | targetStarted {s : ExportJob R C} {r : R} {targets : List C}
      (hphase : s.handlers r = .launched) (htargets : s.Targets targets) :
      Act s (s.setHandler r (.sendingStarted targets))
  | sendStarted {s : ExportJob R C} {r : R} {c : C} {rest : List C}
      (hphase : s.handlers r = .sendingStarted (c :: rest)) :
      Act s ((s.sendBinary c r .started).setHandler r (.sendingStarted rest))
  | startedSent {s : ExportJob R C} {r : R} (hphase : s.handlers r = .sendingStarted []) :
      Act s (s.setHandler r (.returned true))
  | targetRefusal {s : ExportJob R C} {r : R} {targets : List C}
      (hphase : s.handlers r = .refused) (htargets : s.Targets targets) :
      Act s (s.setHandler r (.sendingRefusal targets))
  | sendRefusal {s : ExportJob R C} {r : R} {c : C} {rest : List C}
      (hphase : s.handlers r = .sendingRefusal (c :: rest)) :
      Act s ((s.sendBinary c r .failed).setHandler r (.sendingRefusal rest))
  | refusalSent {s : ExportJob R C} {r : R} (hphase : s.handlers r = .sendingRefusal []) :
      Act s (s.setHandler r (.returned false))
  | render {s : ExportJob R C} {r : R} (ok : Bool) (hphase : s.workers r = .rendering) :
      Act s (s.setWorker r (.rendered ok))
  | drop {s : ExportJob R C} {r : R} {ok : Bool} (hphase : s.workers r = .rendered ok) :
      Act s { s.setWorker r (.calling ok) with busy_ := false }
  | failed {s : ExportJob R C} {r : R} (hphase : s.workers r = .calling false) :
      Act s (s.setWorker r (.answered .failed))
  | put {s : ExportJob R C} {r : R} (stored : Bool) (hphase : s.workers r = .calling true) :
      Act s (s.setWorker r (.answered (if stored then .done else .failed)))
  | targetAnswer {s : ExportJob R C} {r : R} {state : RenderState} {targets : List C}
      (hphase : s.workers r = .answered state) (htargets : s.Targets targets) :
      Act s (s.setWorker r (.reporting state targets))
  | sendAnswer {s : ExportJob R C} {r : R} {state : RenderState} {c : C} {rest : List C}
      (hphase : s.workers r = .reporting state (c :: rest)) :
      Act s ((s.sendBinary c r state).setWorker r (.reporting state rest))
  | exit {s : ExportJob R C} {r : R} {state : RenderState}
      (hphase : s.workers r = .reporting state []) :
      Act s (s.setWorker r (.exited state))

inductive Step (s : ExportJob R C) : ExportJob R C → Prop where
  | act {t : ExportJob R C} (hrunning : s.terminated = false) (hact : Act s t) : Step s t
  | request {r : R} (hrunning : s.terminated = false) (hphase : s.handlers r = .absent) :
      Step s (s.setHandler r .requested)
  | connect (c : C) (hrunning : s.terminated = false) :
      Step s { s with connections := insert c s.connections }
  | disconnect (c : C) (hrunning : s.terminated = false) :
      Step s { s with connections := s.connections.erase c }

/-- Past the start of its thread. -/
def Handler.accepted : Handler C → Bool
  | .assigning | .launched | .sendingStarted _ | .returned true => true
  | .absent | .requested | .starting | .joining | .spawning => false
  | .refused | .sendingRefusal _ | .returned false => false

def Handler.rejected : Handler C → Bool
  | .refused | .sendingRefusal _ | .returned false => true
  | .absent | .requested | .starting | .joining | .spawning => false
  | .assigning | .launched | .sendingStarted _ | .returned true => false

/-- The client has been sent STARTED. -/
def Handler.announced (c : C) : Handler C → Bool
  | .sendingStarted targets => decide (c ∉ targets)
  | .returned accepted => accepted
  | _ => false

/-- A step after which the client is still there, in which a worker reports to
the client only after its handler has announced the export to it, and in which
no request takes `busy_` between the start of a thread and its assignment. -/
structure Orderly (c : C) (s t : ExportJob R C) : Prop where
  connected : c ∈ t.connections
  announced : ∀ r state rest, s.workers r = .reporting state (c :: rest) →
    t.workers r = .reporting state rest → (s.handlers r).announced c = true
  stored : ∀ r, s.handlers r = .starting → t.handlers r = .joining →
    ∀ w, s.handlers w ≠ .assigning

def RenderState.Final (state : RenderState) : Prop := state = .done ∨ state = .failed

/-- Handler and worker have said all they have to say. -/
def ExportJob.Settled (s : ExportJob R C) (r : R) : Prop :=
  s.handlers r = .returned false ∨
    s.handlers r = .returned true ∧ ∃ state, s.workers r = .exited state

/-- The order of the messages, as a client sees it: at every moment a part of
what it has to be, and all of it in the end, which no state stands in the way of. -/
structure Ordered (c : C) (s : ExportJob R C) : Prop where
  accepted : ∀ r, (s.handlers r).accepted = true →
    ∃ state, state.Final ∧ s.told c r <+: [.started, state]
  rejected : ∀ r, (s.handlers r).rejected = true → s.told c r <+: [.failed]
  done : ∀ r state, s.handlers r = .returned true → s.workers r = .exited state →
    state.Final ∧ s.told c r = [.started, state]
  refused : ∀ r, s.handlers r = .returned false → s.told c r = [.failed]
  single : ∀ r w, s.workers r = .rendering → s.workers w = .rendering → r = w
  progress : ∀ r, s.handlers r ≠ .absent → s.Settled r ∨ ∃ t, Act s t ∧ Orderly c s t

section Fields

variable {s : ExportJob R C} {r w : R} {c d : C} {handler : Handler C} {worker : Worker C}
  {state : RenderState}

omit [DecidableEq C] in
theorem setHandler_handlers : (s.setHandler r handler).handlers w =
    if w = r then handler else s.handlers w :=
  Function.update_apply _ _ _ _

omit [DecidableEq C] in
theorem setWorker_workers : (s.setWorker r worker).workers w =
    if w = r then worker else s.workers w :=
  Function.update_apply _ _ _ _

theorem told_sendBinary (hconnected : c ∈ s.connections) :
    (s.sendBinary d r state).told c w =
      if c = d ∧ w = r then s.told c w ++ [state] else s.told c w := by
  unfold ExportJob.told ExportJob.sendBinary
  by_cases hc : c = d
  · subst hc
    by_cases hw : w = r
    · simp [hw, hconnected]
    · have hrw : r ≠ w := fun h => hw h.symm
      simp [hw, hrw, hconnected]
  · simp [hc]

end Fields

/-! ## One render at a time -/

section Exclusive

/-- Between the exchange of `busy_` and the start of the thread. -/
def Handler.holds : Handler C → Bool
  | .joining | .spawning => true
  | _ => false

/-- Before `busy_` drops. -/
def Worker.holds : Worker C → Bool
  | .rendering | .rendered _ => true
  | _ => false

def Worker.exists : Worker C → Bool
  | .absent => false
  | _ => true

def ExportJob.Holds (s : ExportJob R C) (r : R) : Prop :=
  (s.handlers r).holds = true ∨ (s.workers r).holds = true

structure Exclusive (s : ExportJob R C) : Prop where
  worker : ∀ r, (s.handlers r).accepted = (s.workers r).exists
  busy : ∀ r, s.Holds r → s.busy_ = true
  single : ∀ r w, s.Holds r → s.Holds w → r = w

variable {s t : ExportJob R C} {r : R} {handler : Handler C} {worker : Worker C}

omit [DecidableEq C] in
theorem Exclusive.setHandler (hs : Exclusive s)
    (haccepted : handler.accepted = (s.handlers r).accepted)
    (hholds : handler.holds = (s.handlers r).holds) : Exclusive (s.setHandler r handler) := by
  have hsame : ∀ w, (s.setHandler r handler).Holds w → s.Holds w := by
    intro w hw
    unfold ExportJob.Holds at hw
    rw [setHandler_handlers] at hw
    split at hw
    · rename_i hwr
      subst hwr
      rwa [hholds] at hw
    · exact hw
  refine ⟨?_, fun w hw => hs.busy w (hsame w hw), fun w v hw hv =>
    hs.single w v (hsame w hw) (hsame v hv)⟩
  intro w
  rw [setHandler_handlers]
  split
  · rename_i hwr
    subst hwr
    rw [haccepted]
    exact hs.worker w
  · exact hs.worker w

omit [DecidableEq C] in
theorem Exclusive.setWorker (hs : Exclusive s) (hexists : worker.exists = (s.workers r).exists)
    (hholds : worker.holds = (s.workers r).holds) : Exclusive (s.setWorker r worker) := by
  have hsame : ∀ w, (s.setWorker r worker).Holds w → s.Holds w := by
    intro w hw
    unfold ExportJob.Holds at hw
    rw [setWorker_workers] at hw
    split at hw
    · rename_i hwr
      subst hwr
      rwa [hholds] at hw
    · exact hw
  refine ⟨?_, fun w hw => hs.busy w (hsame w hw), fun w v hw hv =>
    hs.single w v (hsame w hw) (hsame v hv)⟩
  intro w
  rw [setWorker_workers]
  split
  · rename_i hwr
    subst hwr
    rw [hexists]
    exact hs.worker w
  · exact hs.worker w

omit [DecidableEq C] in
/-- Whoever takes `busy_` is alone. -/
theorem Exclusive.exchange (hs : Exclusive s) (hphase : s.handlers r = .starting)
    (hbusy : s.busy_ = false) : Exclusive { s.setHandler r .joining with busy_ := true } := by
  have honly : ∀ w, ({ s.setHandler r .joining with busy_ := true } : ExportJob R C).Holds w →
      w = r := by
    intro w hw
    by_contra hwr
    have hholds : s.Holds w := by
      unfold ExportJob.Holds at hw ⊢
      rwa [setHandler_handlers, if_neg hwr] at hw
    rw [hs.busy w hholds] at hbusy
    cases hbusy
  refine ⟨?_, fun _ _ => rfl, fun w v hw hv => (honly w hw).trans (honly v hv).symm⟩
  intro w
  by_cases hwr : w = r
  · subst hwr
    have hworker := hs.worker w
    rw [hphase] at hworker
    simp only [setHandler_handlers, if_true]
    exact hworker
  · simp only [setHandler_handlers, if_neg hwr]
    exact hs.worker w

omit [DecidableEq C] in
/-- `busy_` passes from the handler to its worker. -/
theorem Exclusive.spawn (hs : Exclusive s) (hphase : s.handlers r = .spawning) :
    Exclusive ((s.setHandler r .assigning).setWorker r .rendering) := by
  have hsame : ∀ w, ((s.setHandler r .assigning).setWorker r .rendering).Holds w → s.Holds w := by
    intro w hw
    by_cases hwr : w = r
    · subst hwr
      left
      rw [hphase]
      rfl
    · unfold ExportJob.Holds at hw ⊢
      rwa [setWorker_workers, if_neg hwr, ExportJob.setWorker, setHandler_handlers,
        if_neg hwr] at hw
  refine ⟨?_, fun w hw => hs.busy w (hsame w hw), fun w v hw hv =>
    hs.single w v (hsame w hw) (hsame v hv)⟩
  intro w
  rw [setWorker_workers, ExportJob.setWorker, setHandler_handlers]
  by_cases hwr : w = r
  · simp only [if_pos hwr]
    rfl
  · simp only [if_neg hwr]
    exact hs.worker w

omit [DecidableEq C] in
/-- When `busy_` drops nobody is left to hold it. -/
theorem Exclusive.drop (hs : Exclusive s) {ok : Bool} (hphase : s.workers r = .rendered ok) :
    Exclusive { s.setWorker r (.calling ok) with busy_ := false } := by
  have hr : s.Holds r := by
    right
    rw [hphase]
    rfl
  have hnone : ∀ w,
      ¬({ s.setWorker r (.calling ok) with busy_ := false } : ExportJob R C).Holds w := by
    intro w hw
    unfold ExportJob.Holds at hw
    simp only [setWorker_workers] at hw
    by_cases hwr : w = r
    · subst hwr
      have hworker := hs.worker w
      rw [hphase] at hworker
      rw [if_pos rfl] at hw
      rcases hw with hw | hw
      · change (s.handlers w).holds = true at hw
        have hdisjoint : ∀ phase : Handler C, phase.holds = true → phase.accepted = false := by
          intro phase hphase
          cases phase <;> first | rfl | cases hphase
        rw [hdisjoint _ hw] at hworker
        cases hworker
      · cases hw
    · rw [if_neg hwr] at hw
      exact hwr (hs.single w r hw hr)
  refine ⟨?_, fun w hw => absurd hw (hnone w), fun w _ hw => absurd hw (hnone w)⟩
  intro w
  simp only [setWorker_workers]
  by_cases hwr : w = r
  · subst hwr
    rw [if_pos rfl]
    have hworker := hs.worker w
    rw [hphase] at hworker
    exact hworker
  · rw [if_neg hwr]
    exact hs.worker w

theorem exclusive_of_act (hs : Exclusive s) (hact : Act s t) : Exclusive t := by
  cases hact with
  | notLoaded hphase => exact hs.setHandler (by rw [hphase]; rfl) (by rw [hphase]; rfl)
  | isLoaded hphase => exact hs.setHandler (by rw [hphase]; rfl) (by rw [hphase]; rfl)
  | busy hphase => exact hs.setHandler (by rw [hphase]; rfl) (by rw [hphase]; rfl)
  | exchange hphase hbusy => exact hs.exchange hphase hbusy
  | notJoinable hphase => exact hs.setHandler (by rw [hphase]; rfl) (by rw [hphase]; rfl)
  | @join r w state hphase =>
      have hnext : Exclusive (s.setHandler r .spawning) :=
        hs.setHandler (by rw [hphase]; rfl)
        (by rw [hphase]; rfl)
      exact ⟨hnext.worker, hnext.busy, hnext.single⟩
  | spawn hphase => exact hs.spawn hphase
  | @assign r hphase =>
      have hnext : Exclusive (s.setHandler r .launched) :=
        hs.setHandler (by rw [hphase]; rfl)
        (by rw [hphase]; rfl)
      exact ⟨hnext.worker, hnext.busy, hnext.single⟩
  | terminate => exact ⟨hs.worker, hs.busy, hs.single⟩
  | targetStarted hphase => exact hs.setHandler (by rw [hphase]; rfl) (by rw [hphase]; rfl)
  | @sendStarted r c rest hphase =>
      have hsent : Exclusive (s.sendBinary c r .started) := ⟨hs.worker, hs.busy, hs.single⟩
      have hsame : (s.sendBinary c r .started).handlers r = .sendingStarted (c :: rest) := hphase
      exact hsent.setHandler (by rw [hsame]; rfl) (by rw [hsame]; rfl)
  | startedSent hphase => exact hs.setHandler (by rw [hphase]; rfl) (by rw [hphase]; rfl)
  | targetRefusal hphase => exact hs.setHandler (by rw [hphase]; rfl) (by rw [hphase]; rfl)
  | @sendRefusal r c rest hphase =>
      have hsent : Exclusive (s.sendBinary c r .failed) := ⟨hs.worker, hs.busy, hs.single⟩
      have hsame : (s.sendBinary c r .failed).handlers r = .sendingRefusal (c :: rest) := hphase
      exact hsent.setHandler (by rw [hsame]; rfl) (by rw [hsame]; rfl)
  | refusalSent hphase => exact hs.setHandler (by rw [hphase]; rfl) (by rw [hphase]; rfl)
  | render ok hphase => exact hs.setWorker (by rw [hphase]; rfl) (by rw [hphase]; rfl)
  | drop hphase => exact hs.drop hphase
  | failed hphase => exact hs.setWorker (by rw [hphase]; rfl) (by rw [hphase]; rfl)
  | put stored hphase => exact hs.setWorker (by rw [hphase]; rfl) (by rw [hphase]; rfl)
  | targetAnswer hphase => exact hs.setWorker (by rw [hphase]; rfl) (by rw [hphase]; rfl)
  | @sendAnswer r state c rest hphase =>
      have hsent : Exclusive (s.sendBinary c r state) := ⟨hs.worker, hs.busy, hs.single⟩
      have hsame : (s.sendBinary c r state).workers r = .reporting state (c :: rest) := hphase
      exact hsent.setWorker (by rw [hsame]; rfl) (by rw [hsame]; rfl)
  | exit hphase => exact hs.setWorker (by rw [hphase]; rfl) (by rw [hphase]; rfl)

theorem exclusive_of_step (hs : Exclusive s) (hstep : Step s t) : Exclusive t := by
  cases hstep with
  | act _ hact => exact exclusive_of_act hs hact
  | request _ hphase => exact hs.setHandler (by rw [hphase]; rfl) (by rw [hphase]; rfl)
  | connect => exact ⟨hs.worker, hs.busy, hs.single⟩
  | disconnect => exact ⟨hs.worker, hs.busy, hs.single⟩

end Exclusive

/-! ## What one client is told -/

section Told

/-- What a handler that got this far has told the client. -/
def Handler.told (c : C) : Handler C → List RenderState
  | .sendingStarted targets => if c ∈ targets then [] else [.started]
  | .returned true => [.started]
  | .sendingRefusal targets => if c ∈ targets then [] else [.failed]
  | .returned false => [.failed]
  | _ => []

def Worker.told (c : C) : Worker C → List RenderState
  | .reporting state targets => if c ∈ targets then [] else [state]
  | .exited state => [state]
  | _ => []

def Handler.Proper : Handler C → Prop
  | .sendingStarted targets | .sendingRefusal targets => targets.Nodup
  | _ => True

def Worker.Proper : Worker C → Prop
  | .answered state | .exited state => state.Final
  | .reporting state targets => state.Final ∧ targets.Nodup
  | _ => True

/-- What reached the client is what the handler has sent, then what the worker
has sent, and the worker comes second. -/
structure Faithful (c : C) (s : ExportJob R C) : Prop where
  connected : c ∈ s.connections
  handler : ∀ r, (s.handlers r).Proper
  worker : ∀ r, (s.workers r).Proper
  told : ∀ r, s.told c r = (s.handlers r).told c ++ (s.workers r).told c
  announced : ∀ r, (s.workers r).told c ≠ [] → (s.handlers r).announced c = true

variable {s t : ExportJob R C} {r : R} {c d : C} {handler : Handler C} {worker : Worker C}
  {state : RenderState}

theorem Handler.told_of_announced (h : handler.announced c = true) :
    handler.told c = [.started] := by
  cases handler with
  | sendingStarted targets =>
      have hc : c ∉ targets := of_decide_eq_true h
      simp [Handler.told, hc]
  | returned accepted =>
      cases accepted with
      | false => cases h
      | true => rfl
  | absent | requested | starting | joining | spawning | assigning | launched | refused
  | sendingRefusal => cases h

theorem Worker.told_of_not_exists (h : worker.exists = false) : worker.told c = [] := by
  cases worker <;> first | rfl | cases h

theorem Faithful.setHandler (hs : Faithful c s) (hproper : handler.Proper)
    (htold : handler.told c = (s.handlers r).told c)
    (hannounced : (s.handlers r).announced c = true → handler.announced c = true) :
    Faithful c (s.setHandler r handler) := by
  refine ⟨hs.connected, ?_, hs.worker, ?_, ?_⟩
  · intro w
    rw [setHandler_handlers]
    split
    · exact hproper
    · exact hs.handler w
  · intro w
    rw [setHandler_handlers]
    split
    · rename_i hwr
      subst hwr
      rw [htold]
      exact hs.told w
    · exact hs.told w
  · intro w hw
    rw [setHandler_handlers]
    split
    · rename_i hwr
      subst hwr
      exact hannounced (hs.announced w hw)
    · exact hs.announced w hw

theorem Faithful.setWorker (hs : Faithful c s) (hproper : worker.Proper)
    (htold : worker.told c = (s.workers r).told c) : Faithful c (s.setWorker r worker) := by
  refine ⟨hs.connected, hs.handler, ?_, ?_, ?_⟩
  · intro w
    rw [setWorker_workers]
    split
    · exact hproper
    · exact hs.worker w
  · intro w
    rw [setWorker_workers]
    split
    · rename_i hwr
      subst hwr
      rw [htold]
      exact hs.told w
    · exact hs.told w
  · intro w hw
    rw [setWorker_workers] at hw
    split at hw
    · rename_i hwr
      subst hwr
      rw [htold] at hw
      exact hs.announced w hw
    · exact hs.announced w hw

/-- A send of the handler, while the worker has said nothing yet. -/
theorem Faithful.sendHandler (hs : Faithful c s) (hproper : handler.Proper)
    (htold : handler.told c = (s.handlers r).told c ++ if c = d then [state] else [])
    (hworker : c = d → (s.workers r).told c = [])
    (hannounced : (s.handlers r).announced c = true → handler.announced c = true) :
    Faithful c ((s.sendBinary d r state).setHandler r handler) := by
  refine ⟨hs.connected, ?_, hs.worker, ?_, ?_⟩
  · intro w
    rw [setHandler_handlers]
    split
    · exact hproper
    · exact hs.handler w
  · intro w
    change (s.sendBinary d r state).told c w = _
    rw [told_sendBinary hs.connected, setHandler_handlers]
    change _ = _ ++ (s.workers w).told c
    by_cases hwr : w = r
    · subst hwr
      rw [if_pos rfl, htold, hs.told w]
      by_cases hc : c = d
      · rw [hworker hc]
        simp [hc]
      · simp [hc]
    · rw [if_neg hwr, if_neg (fun h => hwr h.2)]
      exact hs.told w
  · intro w hw
    rw [setHandler_handlers]
    split
    · rename_i hwr
      subst hwr
      exact hannounced (hs.announced w hw)
    · exact hs.announced w hw

/-- A send of the worker, once its handler has announced the export. -/
theorem Faithful.sendWorker (hs : Faithful c s) (hproper : worker.Proper)
    (htold : worker.told c = (s.workers r).told c ++ if c = d then [state] else [])
    (hannounced : c = d → (s.handlers r).announced c = true) :
    Faithful c ((s.sendBinary d r state).setWorker r worker) := by
  refine ⟨hs.connected, hs.handler, ?_, ?_, ?_⟩
  · intro w
    rw [setWorker_workers]
    split
    · exact hproper
    · exact hs.worker w
  · intro w
    change (s.sendBinary d r state).told c w = _
    rw [told_sendBinary hs.connected, setWorker_workers]
    change _ = (s.handlers w).told c ++ _
    by_cases hwr : w = r
    · subst hwr
      rw [if_pos rfl, htold, hs.told w]
      by_cases hc : c = d
      · simp [hc]
      · simp [hc]
    · rw [if_neg hwr, if_neg (fun h => hwr h.2)]
      exact hs.told w
  · intro w hw
    rw [setWorker_workers] at hw
    split at hw
    · rename_i hwr
      subst hwr
      by_cases hc : c = d
      · exact hannounced hc
      · rw [htold, if_neg hc, List.append_nil] at hw
        exact hs.announced w hw
    · exact hs.announced w hw

theorem faithful_of_act (hexclusive : Exclusive s) (hs : Faithful c s) (hact : Act s t)
    (horderly : Orderly c s t) : Faithful c t := by
  cases hact with
  | notLoaded hphase => exact hs.setHandler trivial (by rw [hphase]; rfl) (by rw [hphase]; nofun)
  | isLoaded hphase => exact hs.setHandler trivial (by rw [hphase]; rfl) (by rw [hphase]; nofun)
  | busy hphase => exact hs.setHandler trivial (by rw [hphase]; rfl) (by rw [hphase]; nofun)
  | @exchange r hphase =>
      have hnext : Faithful c (s.setHandler r .joining) :=
        hs.setHandler trivial (by rw [hphase]; rfl)
        (by rw [hphase]; nofun)
      exact ⟨hnext.connected, hnext.handler, hnext.worker, hnext.told, hnext.announced⟩
  | notJoinable hphase =>
      exact hs.setHandler trivial (by rw [hphase]; rfl) (by rw [hphase]; nofun)
  | @join r w state hphase =>
      have hnext : Faithful c (s.setHandler r .spawning) :=
        hs.setHandler trivial (by rw [hphase]; rfl)
        (by rw [hphase]; nofun)
      exact ⟨hnext.connected, hnext.handler, hnext.worker, hnext.told, hnext.announced⟩
  | @spawn r hphase =>
      have hnext : Faithful c (s.setHandler r .assigning) :=
        hs.setHandler trivial (by rw [hphase]; rfl)
        (by rw [hphase]; nofun)
      have hproper : (Worker.rendering : Worker C).Proper := trivial
      refine hnext.setWorker hproper ?_
      have hworker := hexclusive.worker r
      rw [hphase] at hworker
      exact (Worker.told_of_not_exists hworker.symm).symm
  | @assign r hphase =>
      have hnext : Faithful c (s.setHandler r .launched) :=
        hs.setHandler trivial (by rw [hphase]; rfl)
        (by rw [hphase]; nofun)
      exact ⟨hnext.connected, hnext.handler, hnext.worker, hnext.told, hnext.announced⟩
  | terminate => exact ⟨hs.connected, hs.handler, hs.worker, hs.told, hs.announced⟩
  | targetStarted hphase htargets =>
      have hc := (htargets.2 c).mpr hs.connected
      refine hs.setHandler htargets.1 ?_ (by rw [hphase]; nofun)
      rw [hphase]
      exact if_pos hc
  | @sendStarted r d rest hphase =>
      have hproper := hs.handler r
      rw [hphase] at hproper
      have hrest := List.nodup_cons.mp hproper
      refine hs.sendHandler hrest.2 ?_ ?_ ?_
      · rw [hphase]
        by_cases hc : c = d
        · subst hc
          simp [Handler.told, hrest.1]
        · simp [Handler.told, hc]
      · intro hc
        subst hc
        by_contra hworker
        have hannounced := hs.announced r hworker
        rw [hphase] at hannounced
        exact absurd (of_decide_eq_true hannounced) (by simp)
      · rw [hphase]
        intro hannounced
        have hnot := of_decide_eq_true hannounced
        exact decide_eq_true fun hc => hnot (List.mem_cons_of_mem d hc)
  | startedSent hphase => exact hs.setHandler trivial (by rw [hphase]; rfl) (fun _ => rfl)
  | targetRefusal hphase htargets =>
      have hc := (htargets.2 c).mpr hs.connected
      refine hs.setHandler htargets.1 ?_ (by rw [hphase]; nofun)
      rw [hphase]
      exact if_pos hc
  | @sendRefusal r d rest hphase =>
      have hproper := hs.handler r
      rw [hphase] at hproper
      have hrest := List.nodup_cons.mp hproper
      refine hs.sendHandler hrest.2 ?_ ?_ (by rw [hphase]; nofun)
      · rw [hphase]
        by_cases hc : c = d
        · subst hc
          simp [Handler.told, hrest.1]
        · simp [Handler.told, hc]
      · intro _
        have hworker := hexclusive.worker r
        rw [hphase] at hworker
        exact Worker.told_of_not_exists hworker.symm
  | refusalSent hphase =>
      exact hs.setHandler trivial (by rw [hphase]; rfl) (by rw [hphase]; nofun)
  | render ok hphase => exact hs.setWorker trivial (by rw [hphase]; rfl)
  | @drop r ok hphase =>
      have hnext : Faithful c (s.setWorker r (.calling ok)) :=
        hs.setWorker trivial (by rw [hphase]; rfl)
      exact ⟨hnext.connected, hnext.handler, hnext.worker, hnext.told, hnext.announced⟩
  | failed hphase => exact hs.setWorker (Or.inr rfl) (by rw [hphase]; rfl)
  | put stored hphase =>
      refine hs.setWorker ?_ (by rw [hphase]; rfl)
      cases stored with
      | false => exact Or.inr rfl
      | true => exact Or.inl rfl
  | @targetAnswer r state targets hphase htargets =>
      have hc := (htargets.2 c).mpr hs.connected
      have hproper := hs.worker r
      rw [hphase] at hproper
      refine hs.setWorker ⟨hproper, htargets.1⟩ ?_
      rw [hphase]
      exact if_pos hc
  | @sendAnswer r state d rest hphase =>
      have hproper := hs.worker r
      rw [hphase] at hproper
      have hrest := List.nodup_cons.mp hproper.2
      refine hs.sendWorker ⟨hproper.1, hrest.2⟩ ?_ ?_
      · rw [hphase]
        by_cases hc : c = d
        · subst hc
          simp [Worker.told, hrest.1]
        · simp [Worker.told, hc]
      · intro hc
        subst hc
        apply horderly.announced r state rest hphase
        rw [setWorker_workers, if_pos rfl]
  | @exit r state hphase =>
      have hproper := hs.worker r
      rw [hphase] at hproper
      exact hs.setWorker hproper.1 (by rw [hphase]; rfl)

theorem faithful_of_step (hexclusive : Exclusive s) (hs : Faithful c s) (hstep : Step s t)
    (horderly : Orderly c s t) : Faithful c t := by
  cases hstep with
  | act _ hact => exact faithful_of_act hexclusive hs hact horderly
  | request _ hphase =>
      exact hs.setHandler trivial (by rw [hphase]; rfl) (by rw [hphase]; nofun)
  | connect => exact ⟨horderly.connected, hs.handler, hs.worker, hs.told, hs.announced⟩
  | disconnect => exact ⟨horderly.connected, hs.handler, hs.worker, hs.told, hs.announced⟩

end Told

/-! ## The joinable thread -/

section Stored

/-- Between the exchange of `busy_` and the assignment of the thread. -/
def Handler.opening : Handler C → Bool
  | .joining | .spawning | .assigning => true
  | _ => false

/-- The thread that `worker_` held has been joined. -/
def Handler.joined : Handler C → Bool
  | .spawning | .assigning => true
  | _ => false

/-- One handler at a time works on `worker_`, so that it is free when it is assigned. -/
structure Stored (s : ExportJob R C) : Prop where
  running : s.terminated = false
  single : ∀ r w, (s.handlers r).opening = true → (s.handlers w).opening = true → r = w
  free : ∀ r, (s.handlers r).joined = true → s.worker_ = none
  worker : ∀ w, s.worker_ = some w → (s.workers w).exists = true

variable {s t : ExportJob R C} {r : R} {c : C} {handler : Handler C} {worker : Worker C}

omit [DecidableEq C] in
theorem Stored.setHandler (hs : Stored s)
    (hopening : handler.opening = true → (s.handlers r).opening = true)
    (hjoined : handler.joined = true → s.worker_ = none) : Stored (s.setHandler r handler) := by
  have hsame : ∀ w, ((s.setHandler r handler).handlers w).opening = true →
      (s.handlers w).opening = true := by
    intro w hw
    rw [setHandler_handlers] at hw
    split at hw
    · rename_i hwr
      subst hwr
      exact hopening hw
    · exact hw
  refine ⟨hs.running, fun w v hw hv => hs.single w v (hsame w hw) (hsame v hv), ?_, hs.worker⟩
  intro w hw
  rw [setHandler_handlers] at hw
  split at hw
  · exact hjoined hw
  · exact hs.free w hw

omit [DecidableEq C] in
theorem Stored.setWorker (hs : Stored s) (hexists : worker.exists = true) :
    Stored (s.setWorker r worker) := by
  refine ⟨hs.running, hs.single, hs.free, ?_⟩
  intro w hw
  rw [setWorker_workers]
  split
  · exact hexists
  · exact hs.worker w hw

omit [DecidableEq C] in
theorem Stored.exchange (hs : Stored s) (hexclusive : Exclusive s)
    (hbusy : s.busy_ = false) (hstored : ∀ w, s.handlers w ≠ .assigning) :
    Stored { s.setHandler r .joining with busy_ := true } := by
  have hnone : ∀ w, (s.handlers w).opening = false := by
    intro w
    have hholds : (s.handlers w).holds = false := by
      by_contra hholds
      rw [hexclusive.busy w (Or.inl (Bool.not_eq_false _ ▸ hholds))] at hbusy
      cases hbusy
    have hassigning := hstored w
    generalize s.handlers w = phase at hholds hassigning
    cases phase with
    | joining | spawning => cases hholds
    | assigning => exact absurd rfl hassigning
    | absent | requested | starting | launched | sendingStarted | refused | sendingRefusal
    | returned => rfl
  have honly : ∀ w, ((s.setHandler r .joining).handlers w).opening = true → w = r := by
    intro w hw
    rw [setHandler_handlers] at hw
    split at hw
    · assumption
    · rw [hnone w] at hw
      cases hw
  refine ⟨hs.running, fun w v hw hv => (honly w hw).trans (honly v hv).symm, ?_, hs.worker⟩
  intro w hw
  change ((s.setHandler r .joining).handlers w).joined = true at hw
  rw [setHandler_handlers] at hw
  split at hw
  · cases hw
  · exact hs.free w hw

theorem stored_of_act (hexclusive : Exclusive s) (hs : Stored s) (hact : Act s t)
    (horderly : Orderly c s t) : Stored t := by
  cases hact with
  | notLoaded => exact hs.setHandler nofun nofun
  | isLoaded => exact hs.setHandler nofun nofun
  | busy => exact hs.setHandler nofun nofun
  | @exchange r hphase hbusy =>
      apply hs.exchange hexclusive hbusy
      apply horderly.stored r hphase
      simp only [setHandler_handlers, if_true]
  | notJoinable hphase hworker =>
      exact hs.setHandler (fun _ => by rw [hphase]; rfl) (fun _ => hworker)
  | @join r w state hphase =>
      have hfree : Stored { s with worker_ := none } :=
        ⟨hs.running, hs.single, fun _ _ => rfl, nofun⟩
      have hnext : Stored ((({ s with worker_ := none } : ExportJob R C)).setHandler r .spawning) :=
        hfree.setHandler (fun _ => by change (s.handlers r).opening = true; rw [hphase]; rfl)
          (fun _ => rfl)
      exact hnext
  | @spawn r hphase =>
      have hfree := hs.free r (by rw [hphase]; rfl)
      have hnext : Stored (s.setHandler r .assigning) :=
        hs.setHandler (fun _ => by rw [hphase]; rfl) (fun _ => hfree)
      exact hnext.setWorker rfl
  | @assign r hphase hworker =>
      have hnext : Stored (s.setHandler r .launched) :=
        hs.setHandler nofun nofun
      refine ⟨hnext.running, hnext.single, ?_, ?_⟩
      · intro w hw
        change ((s.setHandler r .launched).handlers w).joined = true at hw
        rw [setHandler_handlers] at hw
        split at hw
        · cases hw
        · rename_i hwr
          have hopening : (s.handlers w).opening = true := by
            generalize s.handlers w = phase at hw
            cases phase <;> first | rfl | cases hw
          exact absurd (hs.single w r hopening (by rw [hphase]; rfl)) hwr
      · intro w hw
        obtain rfl := Option.some.inj hw
        have hworker := hexclusive.worker r
        rw [hphase] at hworker
        exact hworker.symm
  | @terminate r w hphase hworker =>
      have hfree := hs.free r (by rw [hphase]; rfl)
      rw [hworker] at hfree
      cases hfree
  | targetStarted => exact hs.setHandler nofun nofun
  | @sendStarted r d rest =>
      have hsent : Stored (s.sendBinary d r .started) := ⟨hs.running, hs.single, hs.free, hs.worker⟩
      exact hsent.setHandler nofun nofun
  | startedSent => exact hs.setHandler nofun nofun
  | targetRefusal => exact hs.setHandler nofun nofun
  | @sendRefusal r d rest =>
      have hsent : Stored (s.sendBinary d r .failed) := ⟨hs.running, hs.single, hs.free, hs.worker⟩
      exact hsent.setHandler nofun nofun
  | refusalSent => exact hs.setHandler nofun nofun
  | render => exact hs.setWorker rfl
  | @drop r ok =>
      have hnext : Stored (s.setWorker r (.calling ok)) :=
        hs.setWorker rfl
      exact ⟨hnext.running, hnext.single, hnext.free, hnext.worker⟩
  | failed => exact hs.setWorker rfl
  | put => exact hs.setWorker rfl
  | targetAnswer => exact hs.setWorker rfl
  | @sendAnswer r state d rest =>
      have hsent : Stored (s.sendBinary d r state) := ⟨hs.running, hs.single, hs.free, hs.worker⟩
      exact hsent.setWorker rfl
  | exit => exact hs.setWorker rfl

theorem stored_of_step (hexclusive : Exclusive s) (hs : Stored s) (hstep : Step s t)
    (horderly : Orderly c s t) : Stored t := by
  cases hstep with
  | act _ hact => exact stored_of_act hexclusive hs hact horderly
  | request => exact hs.setHandler nofun nofun
  | connect => exact ⟨hs.running, hs.single, hs.free, hs.worker⟩
  | disconnect => exact ⟨hs.running, hs.single, hs.free, hs.worker⟩

end Stored

/-! ## Nothing stands in the way of an answer -/

section Progress

variable {s t : ExportJob R C} {r w : R} {c : C}

/-- Some handler or worker can take a step. -/
def Advances (c : C) (s : ExportJob R C) : Prop := ∃ t, Act s t ∧ Orderly c s t

omit [DecidableEq R] in
theorem Orderly.of_workers (hconnected : c ∈ t.connections) (hworkers : t.workers = s.workers)
    (hstored : ∀ r, s.handlers r = .starting → t.handlers r = .joining →
      ∀ w, s.handlers w ≠ .assigning) : Orderly c s t := by
  refine ⟨hconnected, ?_, hstored⟩
  intro r state rest hs ht
  rw [hworkers, hs] at ht
  injection ht with _ htargets
  simp at htargets

theorem Orderly.of_handler {handler : Handler C} (hconnected : c ∈ t.connections)
    (hworkers : t.workers = s.workers) (hhandlers : t.handlers = (s.setHandler r handler).handlers)
    (hjoining : handler ≠ .joining) : Orderly c s t := by
  refine Orderly.of_workers hconnected hworkers ?_
  intro w hs ht
  rw [hhandlers, setHandler_handlers] at ht
  split at ht
  · exact absurd ht hjoining
  · rw [hs] at ht
    cases ht

theorem Orderly.of_worker {worker : Worker C} (hconnected : c ∈ t.connections)
    (hhandlers : t.handlers = s.handlers) (hworkers : t.workers = (s.setWorker w worker).workers)
    (hannounced : ∀ state rest, s.workers w = .reporting state (c :: rest) →
      worker = .reporting state rest → (s.handlers w).announced c = true) : Orderly c s t := by
  refine ⟨hconnected, ?_, ?_⟩
  · intro r state rest hs ht
    rw [hworkers, setWorker_workers] at ht
    split at ht
    · rename_i hrw
      subst hrw
      exact hannounced state rest hs ht
    · rw [hs] at ht
      injection ht with _ htargets
      simp at htargets
  · intro r hs ht
    rw [hhandlers, hs] at ht
    cases ht

theorem Orderly.spawn (hconnected : c ∈ s.connections) :
    Orderly c s ((s.setHandler r .assigning).setWorker r .rendering) := by
  refine ⟨hconnected, ?_, ?_⟩
  · intro w state rest hs ht
    rw [setWorker_workers] at ht
    split at ht
    · cases ht
    · change s.workers w = .reporting state rest at ht
      rw [hs] at ht
      injection ht with _ hrest
      simp at hrest
  · intro w hs ht
    change (s.setHandler r .assigning).handlers w = .joining at ht
    rw [setHandler_handlers] at ht
    split at ht
    · cases ht
    · rw [hs] at ht
      cases ht

omit [DecidableEq R] [DecidableEq C] in
theorem exists_targets (s : ExportJob R C) : ∃ targets, s.Targets targets :=
  ⟨s.connections.toList, s.connections.nodup_toList, fun _ => Finset.mem_toList⟩

/-- A handler that does not wait for a worker can take a step, or another one can. -/
theorem handler_advances (hs : Faithful c s) (hstored : Stored s)
    (habsent : s.handlers r ≠ .absent) (hjoining : s.handlers r ≠ .joining)
    (hreturned : ∀ accepted, s.handlers r ≠ .returned accepted) : Advances c s := by
  have hassign : ∀ w, s.handlers w = .assigning → Advances c s := by
    intro w hphase
    exact ⟨_, Act.assign hphase (hstored.free w (by rw [hphase]; rfl)),
      Orderly.of_handler hs.connected rfl rfl nofun⟩
  obtain ⟨targets, htargets⟩ := exists_targets s
  cases hphase : s.handlers r with
  | absent => exact absurd hphase habsent
  | requested => exact ⟨_, Act.isLoaded hphase, Orderly.of_handler hs.connected rfl rfl nofun⟩
  | starting =>
      cases hbusy : s.busy_ with
      | true => exact ⟨_, Act.busy hphase hbusy, Orderly.of_handler hs.connected rfl rfl nofun⟩
      | false =>
          by_cases hother : ∃ w, s.handlers w = .assigning
          · obtain ⟨w, hw⟩ := hother
            exact hassign w hw
          · exact ⟨_, Act.exchange hphase hbusy, Orderly.of_workers hs.connected rfl
              fun _ _ _ w hw => hother ⟨w, hw⟩⟩
  | joining => exact absurd hphase hjoining
  | spawning => exact ⟨_, Act.spawn hphase, Orderly.spawn hs.connected⟩
  | assigning => exact hassign r hphase
  | launched =>
      exact ⟨_, Act.targetStarted hphase htargets, Orderly.of_handler hs.connected rfl rfl nofun⟩
  | sendingStarted targets =>
      cases targets with
      | nil => exact ⟨_, Act.startedSent hphase, Orderly.of_handler hs.connected rfl rfl nofun⟩
      | cons d rest =>
          exact ⟨_, Act.sendStarted hphase, Orderly.of_handler hs.connected rfl rfl nofun⟩
  | refused =>
      exact ⟨_, Act.targetRefusal hphase htargets, Orderly.of_handler hs.connected rfl rfl nofun⟩
  | sendingRefusal targets =>
      cases targets with
      | nil => exact ⟨_, Act.refusalSent hphase, Orderly.of_handler hs.connected rfl rfl nofun⟩
      | cons d rest =>
          exact ⟨_, Act.sendRefusal hphase, Orderly.of_handler hs.connected rfl rfl nofun⟩
  | returned accepted => exact absurd hphase (hreturned accepted)

/-- A worker that has not exited can take a step, or its handler can. -/
theorem worker_advances (hexclusive : Exclusive s) (hs : Faithful c s) (hstored : Stored s)
    (hexists : (s.workers w).exists = true) (hexited : ∀ state, s.workers w ≠ .exited state) :
    Advances c s := by
  obtain ⟨targets, htargets⟩ := exists_targets s
  cases hphase : s.workers w with
  | absent =>
      rw [hphase] at hexists
      cases hexists
  | rendering =>
      exact ⟨_, Act.render true hphase,
        Orderly.of_worker hs.connected rfl rfl fun _ _ _ h => nomatch h⟩
  | rendered ok =>
      exact ⟨_, Act.drop hphase, Orderly.of_worker hs.connected rfl rfl fun _ _ _ h => nomatch h⟩
  | calling ok =>
      cases ok with
      | false =>
          exact ⟨_, Act.failed hphase,
            Orderly.of_worker hs.connected rfl rfl fun _ _ _ h => nomatch h⟩
      | true =>
          exact ⟨_, Act.put true hphase,
            Orderly.of_worker hs.connected rfl rfl fun _ _ _ h => nomatch h⟩
  | answered state =>
      refine ⟨_, Act.targetAnswer hphase htargets, Orderly.of_worker hs.connected rfl rfl ?_⟩
      intro _ _ hreporting
      rw [hphase] at hreporting
      cases hreporting
  | reporting state targets =>
      cases targets with
      | nil =>
          exact ⟨_, Act.exit hphase,
            Orderly.of_worker hs.connected rfl rfl fun _ _ _ h => nomatch h⟩
      | cons d rest =>
          by_cases hannounced : d = c → (s.handlers w).announced c = true
          · refine ⟨_, Act.sendAnswer hphase, Orderly.of_worker hs.connected rfl rfl ?_⟩
            intro _ _ hreporting _
            rw [hphase] at hreporting
            injection hreporting with _ htargets
            exact hannounced (List.cons.inj htargets).1
          · -- the client still waits for STARTED: its handler has to send it
            have hnot : (s.handlers w).announced c ≠ true := fun h => hannounced fun _ => h
            have haccepted := hexclusive.worker w
            rw [hphase] at haccepted
            refine handler_advances hs hstored (r := w) ?_ ?_ ?_
            · intro h
              rw [h] at haccepted
              cases haccepted
            · intro h
              rw [h] at haccepted
              cases haccepted
            · intro accepted h
              rw [h] at haccepted hnot
              cases accepted with
              | false => cases haccepted
              | true => exact hnot rfl
  | exited state => exact absurd hphase (hexited state)

theorem settled_or_advances (hexclusive : Exclusive s) (hs : Faithful c s) (hstored : Stored s)
    (habsent : s.handlers r ≠ .absent) : s.Settled r ∨ Advances c s := by
  have hdone : ∀ w, (s.workers w).exists = true →
      (∃ state, s.workers w = .exited state) ∨ Advances c s := by
    intro w hexists
    by_cases hexited : ∃ state, s.workers w = .exited state
    · exact Or.inl hexited
    · exact Or.inr (worker_advances hexclusive hs hstored hexists fun state h =>
        hexited ⟨state, h⟩)
  by_cases hjoining : s.handlers r = .joining
  · right
    cases hworker : s.worker_ with
    | none =>
        exact ⟨_, Act.notJoinable hjoining hworker, Orderly.of_handler hs.connected rfl rfl nofun⟩
    | some w =>
        rcases hdone w (hstored.worker w hworker) with ⟨state, hexited⟩ | hadvances
        · exact ⟨_, Act.join hjoining hworker hexited,
            Orderly.of_handler hs.connected rfl rfl nofun⟩
        · exact hadvances
  by_cases hreturned : ∃ accepted, s.handlers r = .returned accepted
  · obtain ⟨accepted, hreturned⟩ := hreturned
    cases accepted with
    | false => exact Or.inl (Or.inl hreturned)
    | true =>
        have hexists := hexclusive.worker r
        rw [hreturned] at hexists
        exact (hdone r hexists.symm).imp_left fun hexited => Or.inr ⟨hreturned, hexited⟩
  · exact Or.inr (handler_advances hs hstored habsent hjoining fun accepted h =>
      hreturned ⟨accepted, h⟩)

end Progress

section Result

variable {s : ExportJob R C} {c : C} {connections : Finset C}

theorem Worker.told_cases {worker : Worker C} (hproper : worker.Proper) :
    worker.told c = [] ∨ ∃ state : RenderState, state.Final ∧ worker.told c = [state] := by
  cases worker with
  | reporting state targets =>
      by_cases hc : c ∈ targets
      · exact Or.inl (if_pos hc)
      · exact Or.inr ⟨state, hproper.1, if_neg hc⟩
  | exited state => exact Or.inr ⟨state, hproper, rfl⟩
  | absent | rendering | rendered | calling | answered => exact Or.inl rfl

theorem Handler.told_of_accepted {handler : Handler C} (haccepted : handler.accepted = true) :
    handler.told c <+: [.started] := by
  cases handler with
  | sendingStarted targets =>
      change (if c ∈ targets then [] else [RenderState.started]) <+: _
      split
      · exact List.nil_prefix
      · exact List.prefix_rfl
  | returned accepted =>
      cases accepted with
      | false => cases haccepted
      | true => exact List.prefix_rfl
  | assigning | launched => exact List.nil_prefix
  | absent | requested | starting | joining | spawning | refused | sendingRefusal =>
      cases haccepted

theorem Handler.told_of_rejected {handler : Handler C} (hrejected : handler.rejected = true) :
    handler.told c <+: [.failed] := by
  cases handler with
  | sendingRefusal targets =>
      change (if c ∈ targets then [] else [RenderState.failed]) <+: _
      split
      · exact List.nil_prefix
      · exact List.prefix_rfl
  | returned accepted =>
      cases accepted with
      | false => exact List.prefix_rfl
      | true => cases hrejected
  | refused => exact List.nil_prefix
  | absent | requested | starting | joining | spawning | assigning | launched
  | sendingStarted => cases hrejected

omit [DecidableEq C] in
theorem Handler.not_accepted_of_rejected {handler : Handler C}
    (hrejected : handler.rejected = true) : handler.accepted = false := by
  cases handler with
  | returned accepted =>
      cases accepted with
      | false => rfl
      | true => cases hrejected
  | refused | sendingRefusal => rfl
  | absent | requested | starting | joining | spawning | assigning | launched
  | sendingStarted => cases hrejected

theorem ordered_of_invariants (hexclusive : Exclusive s) (hs : Faithful c s)
    (hstored : Stored s) : Ordered c s where
  accepted r haccepted := by
    rw [hs.told]
    rcases Worker.told_cases (c := c) (hs.worker r) with hnone | ⟨state, hfinal, hstate⟩
    · rw [hnone, List.append_nil]
      exact ⟨.done, Or.inl rfl, (Handler.told_of_accepted haccepted).trans ⟨[.done], rfl⟩⟩
    · have hannounced := hs.announced r (by rw [hstate]; exact List.cons_ne_nil _ _)
      rw [hstate, Handler.told_of_announced hannounced]
      exact ⟨state, hfinal, List.prefix_rfl⟩
  rejected r hrejected := by
    have hworker := hexclusive.worker r
    rw [Handler.not_accepted_of_rejected hrejected] at hworker
    rw [hs.told, Worker.told_of_not_exists hworker.symm, List.append_nil]
    exact Handler.told_of_rejected hrejected
  done r state hreturned hexited := by
    have hproper := hs.worker r
    rw [hexited] at hproper
    rw [hs.told, hreturned, hexited]
    exact ⟨hproper, rfl⟩
  refused r hreturned := by
    have hworker := hexclusive.worker r
    rw [hreturned] at hworker
    rw [hs.told, Worker.told_of_not_exists hworker.symm, hreturned]
    rfl
  single r w hr hw :=
    hexclusive.single r w (Or.inr (by rw [hr]; rfl)) (Or.inr (by rw [hw]; rfl))
  progress _ habsent := settled_or_advances hexclusive hs hstored habsent

/-- In every run in which the workers report after the announcement and the
thread of one request is stored before the next one is accepted, a client that
stays sees the messages of every request in order. -/
theorem ordered_of_run (hconnected : c ∈ connections)
    (hrun : Run.Reaches (fun a b : ExportJob R C => Step a b ∧ Orderly c a b)
      { connections := connections } s) : Ordered c s := by
  have hkept : Exclusive s ∧ Faithful c s ∧ Stored s := by
    refine Run.Reaches.invariant (P := fun s => Exclusive s ∧ Faithful c s ∧ Stored s) hrun
      ⟨⟨fun _ => rfl, ?_, ?_⟩, ⟨hconnected, fun _ => trivial, fun _ => trivial, fun _ => rfl,
        fun _ h => absurd rfl h⟩, ⟨rfl, nofun, nofun, nofun⟩⟩ ?_
    · intro r hholds
      rcases hholds with hholds | hholds <;> cases hholds
    · intro r w hholds
      rcases hholds with hholds | hholds <;> cases hholds
    · rintro a b ⟨hstep, horderly⟩ ⟨hexclusive, hfaithful, hstored⟩
      exact ⟨exclusive_of_step hexclusive hstep,
        faithful_of_step hexclusive hfaithful hstep horderly,
        stored_of_step hexclusive hstored hstep horderly⟩
  exact ordered_of_invariants hkept.1 hkept.2.1 hkept.2.2

end Result

section Runs

/-- An export that the handler has announced before it fails. -/
theorem ordered_announced : ∃ s : ExportJob Nat Nat,
    Run.Reaches (fun a b => Step a b ∧ Orderly 0 a b) { connections := {0} } s ∧
      s.told 0 0 = [.started, .failed] ∧ Ordered 0 s := by
  have hc : (0 : Nat) ∈ ({0} : Finset Nat) := Finset.mem_singleton_self 0
  have hstart : Run.Reaches (fun a b : ExportJob Nat Nat => Step a b ∧ Orderly 0 a b)
      { connections := {0} } { connections := {0} } := Relation.ReflTransGen.refl
  have hrequested := hstart.tail
    ⟨.request (r := 0) rfl rfl, Orderly.of_handler hc rfl rfl nofun⟩
  have hloaded := hrequested.tail
    ⟨.act rfl (.isLoaded (r := 0) rfl), Orderly.of_handler hc rfl rfl nofun⟩
  have hexchanged := hloaded.tail
    ⟨.act rfl (.exchange (r := 0) rfl rfl), Orderly.of_workers hc rfl fun _ _ _ w hw => by
      by_cases hw0 : w = 0 <;> simp [ExportJob.setHandler, hw0] at hw⟩
  have hfree := hexchanged.tail
    ⟨.act rfl (.notJoinable (r := 0) rfl rfl), Orderly.of_handler hc rfl rfl nofun⟩
  have hspawned := hfree.tail ⟨.act rfl (.spawn (r := 0) rfl), Orderly.spawn hc⟩
  have hassigned := hspawned.tail
    ⟨.act rfl (.assign (r := 0) rfl rfl), Orderly.of_handler hc rfl rfl nofun⟩
  have htargets : ∀ s : ExportJob Nat Nat, s.connections = {0} → s.Targets [0] :=
    fun s hs => ⟨List.nodup_singleton 0, fun c => by rw [hs]; simp⟩
  have hlaunched := hassigned.tail
    ⟨.act rfl (.targetStarted (r := 0) rfl (htargets _ rfl)), Orderly.of_handler hc rfl rfl nofun⟩
  have hannounced := hlaunched.tail
    ⟨.act rfl (.sendStarted (r := 0) rfl), Orderly.of_handler hc rfl rfl nofun⟩
  have hrendered := hannounced.tail
    ⟨.act rfl (.render (r := 0) false rfl), Orderly.of_worker hc rfl rfl fun _ _ _ h => nomatch h⟩
  have hdropped := hrendered.tail
    ⟨.act rfl (.drop (r := 0) rfl), Orderly.of_worker hc rfl rfl fun _ _ _ h => nomatch h⟩
  have hfailed := hdropped.tail
    ⟨.act rfl (.failed (r := 0) rfl), Orderly.of_worker hc rfl rfl fun _ _ _ h => nomatch h⟩
  have htargeted := hfailed.tail
    ⟨.act rfl (.targetAnswer (r := 0) rfl (htargets _ rfl)),
      Orderly.of_worker hc rfl rfl fun _ _ h => nomatch h⟩
  have hreported := htargeted.tail
    ⟨.act rfl (.sendAnswer (r := 0) rfl), Orderly.of_worker hc rfl rfl fun _ _ _ _ => rfl⟩
  exact ⟨_, hreported, rfl, ordered_of_run hc hreported⟩

/-- A render that fails at once is reported before it is announced. -/
theorem not_ordered_failedAtOnce :
    ¬∀ s : ExportJob Nat Nat,
      Run.Reaches Step { connections := {0} } s → Ordered 0 s := by
  intro hall
  have hstart : Run.Reaches (Step (R := Nat) (C := Nat)) { connections := {0} }
      { connections := {0} } := Relation.ReflTransGen.refl
  have hrequested := hstart.tail (.request (r := 0) rfl rfl)
  have hloaded := hrequested.tail (.act rfl (.isLoaded (r := 0) rfl))
  have hexchanged := hloaded.tail (.act rfl (.exchange (r := 0) rfl rfl))
  have hfree := hexchanged.tail (.act rfl (.notJoinable (r := 0) rfl rfl))
  have hspawned := hfree.tail (.act rfl (.spawn (r := 0) rfl))
  have hrendered := hspawned.tail (.act rfl (.render (r := 0) false rfl))
  have hdropped := hrendered.tail (.act rfl (.drop (r := 0) rfl))
  have hfailed := hdropped.tail (.act rfl (.failed (r := 0) rfl))
  have htargets : ∀ s : ExportJob Nat Nat, s.connections = {0} → s.Targets [0] :=
    fun s hs => ⟨List.nodup_singleton 0, fun c => by rw [hs]; simp⟩
  have htargeted := hfailed.tail (.act rfl (.targetAnswer (r := 0) rfl (htargets _ rfl)))
  have hreported := htargeted.tail (.act rfl (.sendAnswer (r := 0) rfl))
  obtain ⟨state, hfinal, hprefix⟩ := (hall _ hreported).accepted 0 rfl
  have htold : [RenderState.failed] <+: [.started, state] := hprefix
  exact absurd (List.cons_prefix_cons.mp htold).1 nofun

end Runs

end DawProject.Engine.Export
