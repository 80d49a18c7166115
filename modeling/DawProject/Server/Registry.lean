import DawProject.Lib.Run
import Mathlib.Data.List.Nodup
import Mathlib.Logic.Function.Basic

/-!
The session registry, `server/src/sync/mod.rs`, and the life of a connection
handler, `handle_socket` of `server/src/api/websocket.rs`. Every await point of
a handler is a step of its own and can fail. The locks only restrict the order
of the steps; here every order is allowed.
-/

namespace DawProject.Server.Registry

/-- `tx` names the broadcast channel. -/
structure ProjectSync (S : Type) where
  tx : Nat
  sessions : List S

structure SyncState (S : Type) where
  projects : String → Option (ProjectSync S) := fun _ => none
  /-- How many channels have been made. -/
  channels : Nat := 0

namespace SyncState

variable {S : Type} (st : SyncState S) (project_id : String) (session_id : S)

/-- The first session of a project makes its entry and its channel. -/
def add_session : SyncState S :=
  match st.projects project_id with
  | some project =>
      { st with
        projects := Function.update st.projects project_id
          (some { project with sessions := project.sessions ++ [session_id] }) }
  | none =>
      { projects := Function.update st.projects project_id (some ⟨st.channels, [session_id]⟩)
        channels := st.channels + 1 }

/-- The last session of a project takes its entry and its channel with it. -/
def remove_session [DecidableEq S] : SyncState S :=
  match st.projects project_id with
  | some project =>
      let sessions := project.sessions.filter fun id => decide (id ≠ session_id)
      { st with
        projects := Function.update st.projects project_id
          (if sessions.isEmpty then none else some { project with sessions := sessions }) }
  | none => st

def get_broadcast : Option Nat := (st.projects project_id).map ProjectSync.tx

/-- The ids recorded for a project. -/
def recorded : List S := ((st.projects project_id).map ProjectSync.sessions).getD []

def session_count : Nat := (st.recorded project_id).length

variable {st project_id session_id}

@[simp] theorem recorded_add_session (p : String) :
    (st.add_session project_id session_id).recorded p =
      if p = project_id then st.recorded p ++ [session_id] else st.recorded p := by
  unfold add_session recorded
  split
  · rename_i project hproject
    by_cases hp : p = project_id
    · subst hp
      simp [hproject]
    · simp [hp]
  · rename_i hproject
    by_cases hp : p = project_id
    · subst hp
      simp [hproject]
    · simp [hp]

@[simp] theorem recorded_remove_session [DecidableEq S] (p : String) :
    (st.remove_session project_id session_id).recorded p =
      if p = project_id then (st.recorded p).filter fun id => decide (id ≠ session_id)
      else st.recorded p := by
  unfold remove_session recorded
  split
  · rename_i project hproject
    by_cases hp : p = project_id
    · subst hp
      simp only [hproject, Function.update_self, Option.map_some, Option.getD_some, if_true]
      split
      · rename_i hempty
        exact (List.isEmpty_iff.mp hempty).symm
      · rfl
    · simp [hp]
  · rename_i hproject
    by_cases hp : p = project_id
    · subst hp
      simp [hproject]
    · simp [hp]

/-- Every entry has a session. -/
def NoEmptyEntry (st : SyncState S) : Prop :=
  ∀ p project, st.projects p = some project → project.sessions ≠ []

theorem NoEmptyEntry.add_session (hst : st.NoEmptyEntry) :
    (st.add_session project_id session_id).NoEmptyEntry := by
  intro p project hproject
  by_cases hp : p = project_id
  · subst hp
    unfold SyncState.add_session at hproject
    split at hproject
    · simp only [Function.update_self, Option.some.injEq] at hproject
      subst hproject
      simp
    · simp only [Function.update_self, Option.some.injEq] at hproject
      subst hproject
      simp
  · apply hst p
    unfold SyncState.add_session at hproject
    split at hproject
    · simpa only [Function.update_of_ne hp] using hproject
    · simpa only [Function.update_of_ne hp] using hproject

theorem NoEmptyEntry.remove_session [DecidableEq S] (hst : st.NoEmptyEntry) :
    (st.remove_session project_id session_id).NoEmptyEntry := by
  intro p project hproject
  unfold SyncState.remove_session at hproject
  split at hproject
  · by_cases hp : p = project_id
    · subst hp
      simp only [Function.update_self] at hproject
      split at hproject
      · cases hproject
      · rename_i hsessions
        obtain rfl := Option.some.inj hproject
        exact fun hempty => hsessions (List.isEmpty_iff.mpr hempty)
    · simp only [Function.update_of_ne hp] at hproject
      exact hst p project hproject
  · exact hst p project hproject

/-- The channel of a project exists while a session is recorded for it. -/
theorem NoEmptyEntry.get_broadcast (hst : st.NoEmptyEntry) (p : String) :
    (st.get_broadcast p).isSome = true ↔ ∃ i, i ∈ st.recorded p := by
  unfold SyncState.get_broadcast recorded
  cases hproject : st.projects p with
  | none => simp
  | some project =>
      simp only [Option.map_some, Option.isSome_some, Option.getD_some, true_iff]
      exact List.exists_mem_of_ne_nil _ (hst p project hproject)

end SyncState

/-- Where a handler is. -/
inductive Phase where
  | absent
  /-- Waits for the `auth:` message. -/
  | authenticating
  | registering
  | locking
  | loading
  | savingSeed
  | sendingFirst
  /-- Waits for one of its two tasks. -/
  | live
  | cleaning
  /-- Returned before its registration, or after its cleanup. -/
  | closed
  /-- Returned in between, on a failure. -/
  | abandoned
deriving DecidableEq, Repr

/-- Still running past its registration. -/
def Phase.registered : Phase → Bool
  | .locking | .loading | .savingSeed | .sendingFirst | .live | .cleaning => true
  | .absent | .authenticating | .registering | .closed | .abandoned => false

structure Handler where
  phase : Phase := .absent
  project_id : String := ""
deriving DecidableEq, Repr

/-- A handler is named by its session id, a fresh `Uuid`. -/
structure AppState (S : Type) where
  sync_state : SyncState S := {}
  handlers : S → Handler := fun _ => {}

variable {S : Type} [DecidableEq S]

def AppState.enter (s : AppState S) (i : S) (phase : Phase) : AppState S :=
  { s with handlers := Function.update s.handlers i { s.handlers i with phase := phase } }

inductive Step : AppState S → AppState S → Prop where
  | connect {s : AppState S} {i : S} (project_id : String) (auth_token : Bool)
      (hphase : (s.handlers i).phase = .absent) :
      Step s { s with
        handlers := Function.update s.handlers i
          ⟨if auth_token then .authenticating else .registering, project_id⟩ }
  | authenticated {s : AppState S} {i : S} (hphase : (s.handlers i).phase = .authenticating) :
      Step s (s.enter i .registering)
  | rejected {s : AppState S} {i : S} (hphase : (s.handlers i).phase = .authenticating) :
      Step s (s.enter i .closed)
  | register {s : AppState S} {i : S} (hphase : (s.handlers i).phase = .registering) :
      Step s { s.enter i .locking with
        sync_state := s.sync_state.add_session (s.handlers i).project_id i }
  | lock {s : AppState S} {i : S} (hphase : (s.handlers i).phase = .locking) :
      Step s (s.enter i .loading)
  | loaded {s : AppState S} {i : S} (hphase : (s.handlers i).phase = .loading) :
      Step s (s.enter i .sendingFirst)
  | missing {s : AppState S} {i : S} (hphase : (s.handlers i).phase = .loading) :
      Step s (s.enter i .savingSeed)
  | saved {s : AppState S} {i : S} (hphase : (s.handlers i).phase = .savingSeed) :
      Step s (s.enter i .sendingFirst)
  | sent {s : AppState S} {i : S} (hphase : (s.handlers i).phase = .sendingFirst) :
      Step s (s.enter i .live)
  /-- Loading, saving the seed or sending the document fails. -/
  | failed {s : AppState S} {i : S}
      (hphase : (s.handlers i).phase = .loading ∨ (s.handlers i).phase = .savingSeed ∨
        (s.handlers i).phase = .sendingFirst) :
      Step s (s.enter i .abandoned)
  | ended {s : AppState S} {i : S} (hphase : (s.handlers i).phase = .live) :
      Step s (s.enter i .cleaning)
  | cleanup {s : AppState S} {i : S} (hphase : (s.handlers i).phase = .cleaning) :
      Step s { s.enter i .closed with
        sync_state := s.sync_state.remove_session (s.handlers i).project_id i }

/-- The handler is one of the project and runs past its registration. -/
def AppState.Runs (s : AppState S) (project_id : String) (i : S) : Prop :=
  (s.handlers i).project_id = project_id ∧ (s.handlers i).phase.registered = true

/-- The registry records the running handlers, each once, and a project has an
entry as long as it has one of them. -/
def Exact (s : AppState S) : Prop :=
  ∀ p, (s.sync_state.recorded p).Nodup ∧
    (∀ i, i ∈ s.sync_state.recorded p ↔ s.Runs p i) ∧
    ((s.sync_state.get_broadcast p).isSome = true ↔ ∃ i, s.Runs p i)

section Kept

/-- The registry still names the handler. -/
def Phase.listed (phase : Phase) : Bool := phase.registered || decide (phase = .abandoned)

/-- A failure leaves the handler in the registry for good. -/
structure Recorded (s : AppState S) : Prop where
  nodup : ∀ p, (s.sync_state.recorded p).Nodup
  mem : ∀ p i, i ∈ s.sync_state.recorded p ↔
    (s.handlers i).project_id = p ∧ (s.handlers i).phase.listed = true
  entries : s.sync_state.NoEmptyEntry

variable {s next : AppState S} {i : S} {phase : Phase}

omit [DecidableEq S] in
theorem recorded_started : Recorded ({} : AppState S) where
  nodup _ := List.nodup_nil
  mem _ _ := ⟨nofun, fun h => absurd h.2 Bool.false_ne_true⟩
  entries := nofun

@[simp] theorem enter_sync_state : (s.enter i phase).sync_state = s.sync_state := rfl

theorem enter_handlers (j : S) :
    (s.enter i phase).handlers j = if j = i then { s.handlers i with phase := phase }
      else s.handlers j :=
  Function.update_apply _ _ _ _

/-- A step of one handler that the registry has no part in. -/
theorem Recorded.enter (hs : Recorded s) (hlisted : phase.listed = (s.handlers i).phase.listed) :
    Recorded (s.enter i phase) where
  nodup := hs.nodup
  mem p j := by
    rw [enter_sync_state, hs.mem, enter_handlers]
    split
    · rename_i hj
      subst hj
      rw [hlisted]
    · rfl
  entries := hs.entries

theorem recorded_of_step (hs : Recorded s) (hstep : Step s next) : Recorded next := by
  cases hstep with
  | @connect i project_id auth_token hphase =>
      refine ⟨hs.nodup, ?_, hs.entries⟩
      intro p j
      rw [hs.mem]
      by_cases hj : j = i
      · subst hj
        simp only [Function.update_self, hphase]
        cases auth_token <;> simp [Phase.listed, Phase.registered]
      · simp only [Function.update_of_ne hj]
  | authenticated hphase => exact hs.enter (by rw [hphase]; rfl)
  | rejected hphase => exact hs.enter (by rw [hphase]; rfl)
  | @register i hphase =>
      have hfresh : ∀ p, i ∉ s.sync_state.recorded p := by
        intro p hi
        have hlisted := ((hs.mem p i).mp hi).2
        rw [hphase] at hlisted
        cases hlisted
      refine ⟨?_, ?_, hs.entries.add_session⟩
      · intro p
        rw [SyncState.recorded_add_session]
        split
        · exact List.nodup_append.mpr ⟨hs.nodup p, List.nodup_singleton i, fun a ha b hb =>
            (List.mem_singleton.mp hb) ▸ fun hab => hfresh p (hab ▸ ha)⟩
        · exact hs.nodup p
      · intro p j
        rw [SyncState.recorded_add_session, enter_handlers]
        by_cases hj : j = i
        · subst hj
          rw [if_pos rfl]
          split
          · rename_i hp
            simp [hp, Phase.listed, Phase.registered]
          · rename_i hp
            exact iff_of_false (hfresh p) fun h => hp h.1.symm
        · rw [if_neg hj]
          split
          · rw [List.mem_append, List.mem_singleton, or_iff_left hj, hs.mem]
          · exact hs.mem p j
  | lock hphase => exact hs.enter (by rw [hphase]; rfl)
  | loaded hphase => exact hs.enter (by rw [hphase]; rfl)
  | missing hphase => exact hs.enter (by rw [hphase]; rfl)
  | saved hphase => exact hs.enter (by rw [hphase]; rfl)
  | sent hphase => exact hs.enter (by rw [hphase]; rfl)
  | failed hphase =>
      apply hs.enter
      rcases hphase with hphase | hphase | hphase <;> rw [hphase] <;> rfl
  | ended hphase => exact hs.enter (by rw [hphase]; rfl)
  | @cleanup i hphase =>
      refine ⟨?_, ?_, hs.entries.remove_session⟩
      · intro p
        rw [SyncState.recorded_remove_session]
        split
        · exact (hs.nodup p).filter _
        · exact hs.nodup p
      · intro p j
        rw [SyncState.recorded_remove_session, enter_handlers]
        by_cases hj : j = i
        · subst hj
          rw [if_pos rfl]
          split
          · simp [Phase.listed, Phase.registered]
          · rename_i hp
            rw [hs.mem]
            exact iff_of_false (fun h => hp h.1.symm) fun h => absurd h.2 Bool.false_ne_true
        · rw [if_neg hj]
          split
          · rw [List.mem_filter, hs.mem, and_iff_left (decide_eq_true hj)]
          · exact hs.mem p j

end Kept

section Result

variable {s : AppState S}

/-- Whatever the order of connections, failures and disconnections, the registry
is exact as long as no handler has returned between its registration and its
cleanup, and no longer. -/
theorem exact_iff_of_run (hrun : Run.Reaches Step ({} : AppState S) s) :
    Exact s ↔ ∀ i, (s.handlers i).phase ≠ .abandoned := by
  have hs : Recorded s :=
    Run.Reaches.invariant hrun recorded_started fun a b hstep ha => recorded_of_step ha hstep
  constructor
  · intro hexact i habandoned
    have hlisted : i ∈ s.sync_state.recorded (s.handlers i).project_id := by
      rw [hs.mem, habandoned]
      exact ⟨rfl, rfl⟩
    have hruns := (((hexact _).2.1 i).mp hlisted).2
    rw [habandoned] at hruns
    cases hruns
  · intro hnone p
    have hmem : ∀ i, i ∈ s.sync_state.recorded p ↔ s.Runs p i := by
      intro i
      rw [hs.mem, Phase.listed, Bool.or_eq_true, decide_eq_true_iff, or_iff_left (hnone i)]
      rfl
    refine ⟨hs.nodup p, hmem, ?_⟩
    rw [hs.entries.get_broadcast]
    exact exists_congr hmem

end Result

/-- A handler that has loaded the project and runs its tasks. -/
theorem exact_oneSession : ∃ s : AppState Nat, Run.Reaches Step {} s ∧
    s.sync_state.session_count "default" = 1 ∧
      (Exact s ↔ ∀ i, (s.handlers i).phase ≠ .abandoned) := by
  have hconnected := Relation.ReflTransGen.single (r := Step) (a := ({} : AppState Nat))
    (@Step.connect _ _ _ 0 "default" false rfl)
  have hregistered := hconnected.tail (@Step.register _ _ _ 0 rfl)
  have hlocked := hregistered.tail (@Step.lock _ _ _ 0 rfl)
  have hloaded := hlocked.tail (@Step.loaded _ _ _ 0 rfl)
  have hsent := hloaded.tail (@Step.sent _ _ _ 0 rfl)
  exact ⟨_, hsent, rfl, exact_iff_of_run hsent⟩

/-- The project cannot be loaded: the handler returns and stays recorded. -/
theorem not_exact_failedLoad :
    ¬∀ s : AppState Nat, Run.Reaches Step {} s → Exact s := by
  intro hall
  have hconnected := Relation.ReflTransGen.single (r := Step) (a := ({} : AppState Nat))
    (@Step.connect _ _ _ 0 "default" false rfl)
  have hregistered := hconnected.tail (@Step.register _ _ _ 0 rfl)
  have hlocked := hregistered.tail (@Step.lock _ _ _ 0 rfl)
  have hfailed := hlocked.tail (@Step.failed _ _ _ 0 (Or.inl rfl))
  have hruns := (((hall _ hfailed) "default").2.1 0).mp (List.mem_singleton.mpr rfl)
  cases hruns.2

end DawProject.Server.Registry
