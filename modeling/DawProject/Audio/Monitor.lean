import DawProject.Audio.Held
import DawProject.Lib.Run
import Mathlib.Data.List.Nodup
import Mathlib.Logic.Function.Basic

/-!
Solo and mute from the browser, `handleSetMonitor` of
`engine/src/websocket/websocket_server.cpp` on the thread of a connection,
beside a rebuild on the control thread: `copyMonitorState` of
`engine/src/main.cpp`, then the swap. Every access to a flag of a track or to
the active graph is a step of its own.
-/

namespace DawProject.Audio.Monitor

inductive Flag where
  | solo
  | mute
deriving DecidableEq, Repr

def get (t : AudioTrack) : Flag → Bool
  | .solo => t.solo
  | .mute => t.mute

def set (t : AudioTrack) (value : Bool) : Flag → AudioTrack
  | .solo => { t with solo := value }
  | .mute => { t with mute := value }

structure SetMonitor where
  track_id : String
  solo : Bool
  mute : Bool
deriving DecidableEq, Repr

def SetMonitor.flag (cmd : SetMonitor) : Flag → Bool
  | .solo => cmd.solo
  | .mute => cmd.mute

section Graph

variable (g : AudioGraph) (id : String) (flag : Flag)

def getTrackById : Option AudioTrack := g.tracks.find? fun t => t.id = id

def ids : List String := g.tracks.map AudioTrack.id

/-- A store to a flag of the track, when there is one. -/
def store (value : Bool) : AudioGraph :=
  { g with tracks := AudioGraph.updateTrackById id (fun t => set t value flag) g.tracks }

end Graph

/-- Where the handler of a message is. -/
inductive Handler where
  | absent
  | received (cmd : SetMonitor)
  /-- Holds a graph, and is about to store the flag. -/
  | storing (cmd : SetMonitor) (graph : Nat) (flag : Flag)
  | finished
deriving DecidableEq, Repr

/-- Where the control thread is. `copying` is at a flag of the `i`-th track of
the active graph, before its load or, with the value, before the store. -/
inductive Rebuild where
  | idle
  | copying (new i : Nat) (flag : Flag) (loaded : Option Bool)
deriving DecidableEq, Repr

/-- `count` graphs have been built; `last` is the last message that named a track. -/
structure Engine (H : Type) where
  graphs : Nat → AudioGraph
  active : Nat := 0
  count : Nat := 1
  rebuild : Rebuild := .idle
  handlers : H → Handler := fun _ => .absent
  last : String → Option SetMonitor := fun _ => none

variable {H : Type} [DecidableEq H]

def Engine.activeGraph (s : Engine H) : AudioGraph := s.graphs s.active

def Engine.setHandler (s : Engine H) (h : H) (handler : Handler) : Engine H :=
  { s with handlers := Function.update s.handlers h handler }

def Engine.setGraph (s : Engine H) (graph : Nat) (g : AudioGraph) : Engine H :=
  { s with graphs := Function.update s.graphs graph g }

/-- Solo first, then mute. -/
def stored (cmd : SetMonitor) (graph : Nat) : Flag → Handler
  | .solo => .storing cmd graph .mute
  | .mute => .finished

def copied (new i : Nat) : Flag → Rebuild
  | .solo => .copying new i .mute none
  | .mute => .copying new (i + 1) .solo none

inductive Step (s : Engine H) : Engine H → Prop where
  | receive {h : H} (cmd : SetMonitor) (hphase : s.handlers h = .absent) :
      Step s { s.setHandler h (.received cmd) with
        last := Function.update s.last cmd.track_id (some cmd) }
  | load {h : H} {cmd : SetMonitor} (hphase : s.handlers h = .received cmd) :
      Step s (s.setHandler h (.storing cmd s.active .solo))
  | missing {h : H} {cmd : SetMonitor} {graph : Nat} {flag : Flag}
      (hphase : s.handlers h = .storing cmd graph flag)
      (hmissing : getTrackById (s.graphs graph) cmd.track_id = none) :
      Step s (s.setHandler h .finished)
  | store {h : H} {cmd : SetMonitor} {graph : Nat} {flag : Flag} {t : AudioTrack}
      (hphase : s.handlers h = .storing cmd graph flag)
      (hfound : getTrackById (s.graphs graph) cmd.track_id = some t) :
      Step s ((s.setHandler h (stored cmd graph flag)).setGraph graph
        (store (s.graphs graph) cmd.track_id flag (cmd.flag flag)))
  | build (graph : AudioGraph) (hidle : s.rebuild = .idle) :
      Step s { s.setGraph s.count graph with
        count := s.count + 1
        rebuild := .copying s.count 0 .solo none }
  | read {new i : Nat} {flag : Flag} {t : AudioTrack}
      (hcopying : s.rebuild = .copying new i flag none) (ht : s.activeGraph.tracks[i]? = some t) :
      Step s { s with rebuild := .copying new i flag (some (get t flag)) }
  | copy {new i : Nat} {flag : Flag} {value : Bool} {t : AudioTrack}
      (hcopying : s.rebuild = .copying new i flag (some value))
      (ht : s.activeGraph.tracks[i]? = some t) :
      Step s { s.setGraph new (store (s.graphs new) t.id flag value) with
        rebuild := copied new i flag }
  | swap {new i : Nat} (hcopying : s.rebuild = .copying new i .solo none)
      (hend : s.activeGraph.tracks[i]? = none) :
      Step s { s with active := new, rebuild := .idle }

/-- The message that a handler has still to carry out. -/
def Handler.message : Handler → Option SetMonitor
  | .received cmd | .storing cmd _ _ => some cmd
  | .absent | .finished => none

/-- The copy has loaded the flag of the `k`-th track. -/
def Rebuild.Read (flag : Flag) (k : Nat) : Rebuild → Prop
  | .idle => False
  | .copying _ i next loaded =>
      k < i ∨ k = i ∧ (flag = .solo ∧ next = .mute ∨ flag = next ∧ loaded.isSome = true)

/-- A step by which no update gets lost: a message comes when none for its track
is being handled, a store to a track of a graph is to the active one, whose flag
the rebuild has not read yet, the copy is from a graph with distinct ids, and the
swap brings in no track that was named before and that the old graph has not. -/
structure Careful (s t : Engine H) : Prop where
  serial : ∀ h cmd, s.handlers h = .absent → t.handlers h = .received cmd →
    ∀ w other, (s.handlers w).message = some other → other.track_id ≠ cmd.track_id
  timely : ∀ h cmd graph flag, s.handlers h = .storing cmd graph flag →
    t.handlers h ≠ s.handlers h → cmd.track_id ∈ ids (s.graphs graph) →
      graph = s.active ∧
        ∀ k, (ids s.activeGraph)[k]? = some cmd.track_id → ¬s.rebuild.Read flag k
  distinct : s.rebuild = .idle → t.rebuild ≠ .idle → (ids s.activeGraph).Nodup
  known : t.active ≠ s.active → ∀ id, s.last id ≠ none → id ∈ ids (s.graphs t.active) →
    id ∈ ids s.activeGraph

/-- No message is being handled, and no rebuild is under way. -/
def Quiet (s : Engine H) : Prop :=
  s.rebuild = .idle ∧ ∀ h, (s.handlers h).message = none

/-- The active graph has what the last message about each track says. -/
def Kept (s : Engine H) : Prop :=
  ∀ id cmd, s.last id = some cmd → ∀ t, getTrackById s.activeGraph id = some t →
    t.solo = cmd.solo ∧ t.mute = cmd.mute

section Graph

variable {g : AudioGraph} {id other : String} {flag next : Flag} {value : Bool} {t : AudioTrack}

theorem get_set : get (set t value flag) next = if next = flag then value else get t next := by
  cases flag <;> cases next <;> rfl

theorem set_id : (set t value flag).id = t.id := by
  cases flag <;> rfl

@[simp] theorem ids_store : ids (store g id flag value) = ids g :=
  map_updateTrackById AudioTrack.id id (fun _ => set_id) g.tracks

theorem getTrackById_id (hfound : getTrackById g id = some t) : t.id = id := by
  simpa using List.find?_some hfound

theorem getTrackById_store :
    getTrackById (store g id flag value) other =
      if other = id then (getTrackById g other).map fun t => set t value flag
      else getTrackById g other := by
  unfold getTrackById store
  induction g.tracks with
  | nil => simp [AudioGraph.updateTrackById]
  | cons first rest ih =>
      simp only [AudioGraph.updateTrackById]
      by_cases hfirst : first.id = id
      · rw [if_pos hfirst]
        by_cases hother : other = id
        · subst hother
          simp [hfirst, set_id]
        · have hne : first.id ≠ other := fun h => hother (h.symm.trans hfirst)
          simp [hother, hne, set_id]
      · rw [if_neg hfirst]
        by_cases hcons : first.id = other
        · have hother : other ≠ id := fun h => hfirst (hcons.trans h)
          simp [hcons, hother]
        · simpa [hcons] using ih

theorem mem_ids : id ∈ ids g ↔ ∃ t, getTrackById g id = some t := by
  rw [ids, List.mem_map, getTrackById, ← Option.isSome_iff_exists, List.find?_isSome]
  simp

theorem mem_ids_of_getElem? {k : Nat} (hk : (ids g)[k]? = some id) : id ∈ ids g :=
  List.mem_of_getElem? hk

/-- With distinct ids a track is found under its own id. -/
theorem getTrackById_of_getElem? (hdistinct : (ids g).Nodup) {i : Nat}
    (ht : g.tracks[i]? = some t) : getTrackById g t.id = some t := by
  obtain ⟨found, hfound⟩ := mem_ids.mp (List.mem_map_of_mem (List.mem_of_getElem? ht))
  rw [hfound]
  have hmem := List.mem_of_find?_eq_some hfound
  rw [List.inj_on_of_nodup_map hdistinct hmem (List.mem_of_getElem? ht) (getTrackById_id hfound)]

/-- What the flag of the track is, when there is such a track. -/
def Carries (g : AudioGraph) (id : String) (flag : Flag) (value : Bool) : Prop :=
  ∀ t, getTrackById g id = some t → get t flag = value

theorem carries_store_self : Carries (store g id flag value) id flag value := by
  intro t ht
  rw [getTrackById_store, if_pos rfl, Option.map_eq_some_iff] at ht
  obtain ⟨old, -, rfl⟩ := ht
  rw [get_set, if_pos rfl]

theorem Carries.store {b : Bool} (hcarries : Carries g other next b)
    (hne : other ≠ id ∨ next ≠ flag) : Carries (store g id flag value) other next b := by
  intro t ht
  rw [getTrackById_store] at ht
  split at ht
  · rename_i hother
    obtain ⟨old, hold, rfl⟩ := Option.map_eq_some_iff.mp ht
    rw [get_set, if_neg (hne.resolve_left fun h => h hother)]
    exact hcarries old hold
  · exact hcarries t ht

theorem Carries.of_not_mem (hnone : id ∉ ids g) : Carries g id flag value :=
  fun t ht => absurd (mem_ids.mpr ⟨t, ht⟩) hnone

end Graph

section Kept

/-- The handler has still to store the flag of the track. -/
def Handler.Pending (id : String) (flag : Flag) : Handler → Prop
  | .received cmd => cmd.track_id = id
  | .storing cmd _ next => cmd.track_id = id ∧ (next = .solo ∨ flag = .mute)
  | .absent | .finished => False

/-- What the copy has read of the flag, and has stored, is up to date. -/
def Copied (s : Engine H) (id : String) (flag : Flag) (value : Bool) : Prop :=
  ∀ new i next loaded, s.rebuild = .copying new i next loaded →
    ∀ k, (ids s.activeGraph)[k]? = some id →
      (k < i ∨ k = i ∧ flag = .solo ∧ next = .mute → Carries (s.graphs new) id flag value) ∧
        (k = i → flag = next → ∀ b, loaded = some b → b = value)

structure Sound (s : Engine H) : Prop where
  active : s.active < s.count
  building : ∀ new i next loaded, s.rebuild = .copying new i next loaded →
    new ≠ s.active ∧ new < s.count ∧ (ids s.activeGraph).Nodup
  message : ∀ h cmd, (s.handlers h).message = some cmd → s.last cmd.track_id = some cmd
  single : ∀ h w cmd other, (s.handlers h).message = some cmd →
    (s.handlers w).message = some other → cmd.track_id = other.track_id → h = w
  loaded : ∀ h cmd graph flag, s.handlers h = .storing cmd graph flag →
    graph < s.count ∧ (cmd.track_id ∈ ids s.activeGraph → cmd.track_id ∈ ids (s.graphs graph))
  carried : ∀ id cmd flag, s.last id = some cmd → (∀ h, ¬(s.handlers h).Pending id flag) →
    Carries s.activeGraph id flag (cmd.flag flag) ∧ Copied s id flag (cmd.flag flag)

variable {s t : Engine H} {h : H} {handler : Handler} {cmd : SetMonitor} {graph : Nat}
  {flag : Flag}

theorem setHandler_handlers (w : H) : (s.setHandler h handler).handlers w =
    if w = h then handler else s.handlers w :=
  Function.update_apply _ _ _ _

omit [DecidableEq H] in
theorem activeGraph_setGraph {g : AudioGraph} : (s.setGraph s.active g).activeGraph = g :=
  Function.update_self _ _ _

omit [DecidableEq H] in
theorem graphs_setGraph_of_ne {g : AudioGraph} {other : Nat} (hne : other ≠ graph) :
    (s.setGraph graph g).graphs other = s.graphs other :=
  Function.update_of_ne hne _ _

theorem Handler.pending_storing : (Handler.storing cmd graph flag).Pending cmd.track_id flag := by
  refine ⟨rfl, ?_⟩
  cases flag with
  | solo => exact Or.inl rfl
  | mute => exact Or.inr rfl

/-- A handler goes on: what it no longer has to store is in the active graph. -/
theorem Sound.setHandler (hs : Sound s)
    (hmessage : ∀ cmd, handler.message = some cmd → (s.handlers h).message = some cmd)
    (hloaded : ∀ cmd graph flag, handler = .storing cmd graph flag → graph < s.count ∧
      (cmd.track_id ∈ ids s.activeGraph → cmd.track_id ∈ ids (s.graphs graph)))
    (hpending : ∀ id cmd flag, s.last id = some cmd → (s.handlers h).Pending id flag →
      handler.Pending id flag ∨
        Carries s.activeGraph id flag (cmd.flag flag) ∧ Copied s id flag (cmd.flag flag)) :
    Sound (s.setHandler h handler) := by
  have hsame : ∀ w cmd, ((s.setHandler h handler).handlers w).message = some cmd →
      (s.handlers w).message = some cmd := by
    intro w cmd hw
    rw [setHandler_handlers] at hw
    split at hw
    · rename_i hwh
      subst hwh
      exact hmessage cmd hw
    · exact hw
  refine ⟨hs.active, hs.building, fun w cmd hw => hs.message w cmd (hsame w cmd hw),
    fun w v cmd other hw hv => hs.single w v cmd other (hsame w cmd hw) (hsame v other hv), ?_, ?_⟩
  · intro w cmd graph flag hw
    rw [setHandler_handlers] at hw
    split at hw
    · exact hloaded cmd graph flag hw
    · exact hs.loaded w cmd graph flag hw
  · intro id cmd flag hlast hnone
    by_cases hold : (s.handlers h).Pending id flag
    · refine (hpending id cmd flag hlast hold).resolve_left fun hnew => hnone h ?_
      rwa [setHandler_handlers, if_pos rfl]
    · refine hs.carried id cmd flag hlast fun w hw => ?_
      by_cases hwh : w = h
      · subst hwh
        exact hold hw
      · apply hnone w
        rwa [setHandler_handlers, if_neg hwh]

omit [DecidableEq H] in
theorem ids_setGraph {g : AudioGraph} (hids : ids g = ids (s.graphs graph)) (other : Nat) :
    ids ((s.setGraph graph g).graphs other) = ids (s.graphs other) := by
  by_cases hother : other = graph
  · subst hother
    exact (congrArg ids (Function.update_self _ _ _)).trans hids
  · rw [graphs_setGraph_of_ne hother]

omit [DecidableEq H] in
/-- A store leaves the tracks of a graph where they are. -/
theorem Sound.setGraph (hs : Sound s) {g : AudioGraph} (hids : ids g = ids (s.graphs graph))
    (hcarried : ∀ id cmd flag, s.last id = some cmd →
      (∀ h, ¬(s.handlers h).Pending id flag) →
        Carries (s.setGraph graph g).activeGraph id flag (cmd.flag flag) ∧
          Copied (s.setGraph graph g) id flag (cmd.flag flag)) :
    Sound (s.setGraph graph g) := by
  refine ⟨hs.active, ?_, hs.message, hs.single, ?_, hcarried⟩
  · intro new i next loaded hcopying
    obtain ⟨hnew, hcount, hdistinct⟩ := hs.building new i next loaded hcopying
    refine ⟨hnew, hcount, ?_⟩
    change (ids ((s.setGraph graph g).graphs s.active)).Nodup
    rw [ids_setGraph hids]
    exact hdistinct
  · intro w cmd other next hw
    obtain ⟨hcount, hmem⟩ := hs.loaded w cmd other next hw
    refine ⟨hcount, ?_⟩
    change cmd.track_id ∈ ids ((s.setGraph graph g).graphs s.active) → _
    rw [ids_setGraph hids, ids_setGraph hids]
    exact hmem

/-- A store of a handler to the active graph, before the copy has got there. -/
theorem Sound.store (hs : Sound s) (hphase : s.handlers h = .storing cmd s.active flag)
    (hunread : ∀ k, (ids s.activeGraph)[k]? = some cmd.track_id → ¬s.rebuild.Read flag k) :
    Sound ((s.setHandler h (stored cmd s.active flag)).setGraph s.active
      (store s.activeGraph cmd.track_id flag (cmd.flag flag))) := by
  have hgraph : Sound (s.setGraph s.active
      (Monitor.store s.activeGraph cmd.track_id flag (cmd.flag flag))) := by
    refine hs.setGraph ids_store ?_
    intro id other next hlast hnone
    obtain ⟨hactive, hcopied⟩ := hs.carried id other next hlast hnone
    have hne : id ≠ cmd.track_id ∨ next ≠ flag := by
      by_contra hboth
      obtain ⟨rfl, rfl⟩ := not_or.mp hboth |>.imp not_not.mp not_not.mp
      apply hnone h
      rw [hphase]
      exact Handler.pending_storing
    constructor
    · rw [activeGraph_setGraph]
      exact hactive.store hne
    · intro new i next' loaded hcopying k hk
      have hnew := (hs.building new i next' loaded hcopying).1
      rw [activeGraph_setGraph, ids_store] at hk
      rw [graphs_setGraph_of_ne hnew]
      exact hcopied new i next' loaded hcopying k hk
  change Sound ((s.setGraph s.active _).setHandler h (stored cmd s.active flag))
  have hmessage : (s.handlers h).message = some cmd := by
    rw [hphase]
    rfl
  refine hgraph.setHandler ?_ ?_ ?_
  · intro other hother
    change (s.handlers h).message = some other
    rw [hmessage, ← hother]
    cases flag with
    | solo => rfl
    | mute => cases hother
  · intro other graph next hstoring
    cases flag with
    | solo =>
        obtain ⟨-, rfl, -⟩ := Handler.storing.inj hstoring
        exact ⟨hs.active, fun hmem => by cases hstoring; exact hmem⟩
    | mute => cases hstoring
  · intro id other next hlast hpending
    change (s.handlers h).Pending id next at hpending
    rw [hphase] at hpending
    obtain ⟨rfl, hnext⟩ := hpending
    obtain rfl : other = cmd := Option.some.inj (hlast.symm.trans (hs.message h cmd hmessage))
    by_cases hflag : next = flag
    · subst hflag
      right
      constructor
      · rw [activeGraph_setGraph]
        exact carries_store_self
      · intro new i next' loaded hcopying k hk
        rw [activeGraph_setGraph, ids_store] at hk
        have hread := hunread k hk
        change s.rebuild = _ at hcopying
        rw [hcopying] at hread
        refine ⟨fun hdone => absurd ?_ hread, fun hki hnext' b hb => absurd ?_ hread⟩
        · exact hdone.imp_right fun hdone => ⟨hdone.1, Or.inl hdone.2⟩
        · exact Or.inr ⟨hki, Or.inr ⟨hnext', by rw [hb]; rfl⟩⟩
    · left
      cases flag with
      | solo =>
          cases next with
          | solo => exact absurd rfl hflag
          | mute => exact ⟨rfl, Or.inr rfl⟩
      | mute =>
          cases next with
          | solo => rcases hnext with hnext | hnext <;> cases hnext
          | mute => exact absurd rfl hflag

theorem copied_new {new new' i i' : Nat} {next : Flag} {loaded : Option Bool}
    (hcopied : copied new i flag = .copying new' i' next loaded) :
    new' = new ∧ loaded = none := by
  cases flag with
  | solo =>
      cases hcopied
      exact ⟨rfl, rfl⟩
  | mute =>
      cases hcopied
      exact ⟨rfl, rfl⟩

omit [DecidableEq H] in
/-- The copy of a flag into the new graph. -/
theorem Sound.copy (hs : Sound s) {new i : Nat} {value : Bool} {t : AudioTrack}
    (hcopying : s.rebuild = .copying new i flag (some value))
    (ht : s.activeGraph.tracks[i]? = some t) :
    Sound { s.setGraph new (Monitor.store (s.graphs new) t.id flag value) with
      rebuild := copied new i flag } := by
  obtain ⟨hnew, hcount, hdistinct⟩ := hs.building new i flag _ hcopying
  have hi : (ids s.activeGraph)[i]? = some t.id := by
    rw [ids, List.getElem?_map, ht]
    rfl
  have hactive : (s.setGraph new (Monitor.store (s.graphs new) t.id flag value)).activeGraph =
      s.activeGraph := graphs_setGraph_of_ne hnew.symm
  have hgraphs : ∀ other, ids ((s.setGraph new
      (Monitor.store (s.graphs new) t.id flag value)).graphs other) = ids (s.graphs other) :=
    ids_setGraph ids_store
  -- the track under way is the only one the store can reach
  have hother : ∀ k id, (ids s.activeGraph)[k]? = some id → k ≠ i → id ≠ t.id := by
    intro k id hk hne hid
    subst hid
    obtain ⟨hklt, hk⟩ := List.getElem?_eq_some_iff.mp hk
    obtain ⟨hilt, hi⟩ := List.getElem?_eq_some_iff.mp hi
    exact hne ((hdistinct.getElem_inj_iff).mp (hk.trans hi.symm))
  refine ⟨hs.active, ?_, hs.message, hs.single, ?_, ?_⟩
  · intro new' i' next loaded hnext
    obtain ⟨rfl, rfl⟩ := copied_new hnext
    refine ⟨hnew, hcount, ?_⟩
    change (ids (Engine.activeGraph (s.setGraph new' _))).Nodup
    rw [hactive]
    exact hdistinct
  · intro w cmd other next hw
    obtain ⟨hcount', hmem⟩ := hs.loaded w cmd other next hw
    refine ⟨hcount', ?_⟩
    change cmd.track_id ∈ ids (Engine.activeGraph (s.setGraph new _)) →
      cmd.track_id ∈ ids ((s.setGraph new _).graphs other)
    rw [hactive, hgraphs]
    exact hmem
  · intro id cmd next hlast hnone
    obtain ⟨hcarries, hcopied⟩ := hs.carried id cmd next hlast hnone
    constructor
    · change Carries (Engine.activeGraph (s.setGraph new _)) _ _ _
      rw [hactive]
      exact hcarries
    · intro new' i' flag' loaded hnext k hk
      obtain ⟨rfl, rfl⟩ := copied_new hnext
      change (ids (Engine.activeGraph (s.setGraph new' _)))[k]? = some id at hk
      rw [hactive] at hk
      refine ⟨?_, nofun⟩
      intro hdone
      change Carries ((s.setGraph new' _).graphs new') _ _ _
      rw [show (s.setGraph new' (Monitor.store (s.graphs new') t.id flag value)).graphs new' =
        Monitor.store (s.graphs new') t.id flag value from Function.update_self _ _ _]
      obtain ⟨hread, hvalue⟩ := hcopied new' i flag _ hcopying k hk
      by_cases hki : k = i
      · subst hki
        obtain rfl : id = t.id := Option.some.inj (hk.symm.trans hi)
        by_cases hflag : next = flag
        · subst hflag
          rw [hvalue rfl rfl value rfl]
          exact carries_store_self
        · apply Carries.store _ (Or.inr hflag)
          apply hread
          right
          -- of the two flags of one track solo is read first
          cases flag with
          | solo =>
              obtain ⟨-, rfl, rfl, -⟩ := Rebuild.copying.inj hnext
              rcases hdone with hdone | ⟨-, rfl, -⟩
              · omega
              · exact absurd rfl hflag
          | mute =>
              cases next with
              | solo => exact ⟨rfl, rfl, rfl⟩
              | mute => exact absurd rfl hflag
      · apply Carries.store _ (Or.inl (hother k id hk hki))
        apply hread
        left
        cases flag with
        | solo =>
            obtain ⟨-, rfl, -⟩ := Rebuild.copying.inj hnext
            exact hdone.resolve_right fun h => hki h.1
        | mute =>
            obtain ⟨-, rfl, rfl, -⟩ := Rebuild.copying.inj hnext
            have hlt : k < i + 1 := hdone.resolve_right fun h => nomatch h.2.2
            omega

theorem Sound.receive (hs : Sound s) (hphase : s.handlers h = .absent)
    (hserial : ∀ w other, (s.handlers w).message = some other → other.track_id ≠ cmd.track_id) :
    Sound { s.setHandler h (.received cmd) with
      last := Function.update s.last cmd.track_id (some cmd) } := by
  have hmessage : ∀ w other, ((s.setHandler h (.received cmd)).handlers w).message = some other →
      w = h ∧ other = cmd ∨ w ≠ h ∧ (s.handlers w).message = some other := by
    intro w other hw
    rw [setHandler_handlers] at hw
    split at hw
    · rename_i hwh
      exact Or.inl ⟨hwh, (Option.some.inj hw).symm⟩
    · rename_i hwh
      exact Or.inr ⟨hwh, hw⟩
  refine ⟨hs.active, hs.building, ?_, ?_, ?_, ?_⟩
  · intro w other hw
    rcases hmessage w other hw with ⟨-, rfl⟩ | ⟨-, hw⟩
    · exact Function.update_self _ _ _
    · exact (Function.update_of_ne (hserial w other hw) _ _).trans (hs.message w other hw)
  · intro w v other next hw hv hid
    rcases hmessage w other hw with ⟨rfl, rfl⟩ | ⟨-, hw'⟩ <;>
      rcases hmessage v next hv with ⟨rfl, rfl⟩ | ⟨-, hv'⟩
    · rfl
    · exact absurd hid.symm (hserial v next hv')
    · exact absurd hid (hserial w other hw')
    · exact hs.single w v other next hw' hv' hid
  · intro w other graph flag hw
    change (s.setHandler h (.received cmd)).handlers w = _ at hw
    rw [setHandler_handlers] at hw
    split at hw
    · cases hw
    · exact hs.loaded w other graph flag hw
  · intro id other flag hlast hnone
    have hid : id ≠ cmd.track_id := by
      rintro rfl
      apply hnone h
      change ((s.setHandler h (.received cmd)).handlers h).Pending _ _
      rw [setHandler_handlers, if_pos rfl]
      rfl
    change Function.update s.last cmd.track_id (some cmd) id = some other at hlast
    rw [Function.update_of_ne hid] at hlast
    refine hs.carried id other flag hlast fun w hw => ?_
    by_cases hwh : w = h
    · subst hwh
      rw [hphase] at hw
      exact hw
    · apply hnone w
      change ((s.setHandler h (.received cmd)).handlers w).Pending _ _
      rwa [setHandler_handlers, if_neg hwh]

omit [DecidableEq H] in
theorem Sound.build (hs : Sound s) {g : AudioGraph} (hdistinct : (ids s.activeGraph).Nodup) :
    Sound { s.setGraph s.count g with
      count := s.count + 1
      rebuild := .copying s.count 0 .solo none } := by
  have hold : ∀ other, other < s.count → (s.setGraph s.count g).graphs other = s.graphs other :=
    fun other hlt => graphs_setGraph_of_ne (Nat.ne_of_lt hlt)
  have hactive : (s.setGraph s.count g).activeGraph = s.activeGraph := hold s.active hs.active
  refine ⟨Nat.lt_succ_of_lt hs.active, ?_, hs.message, hs.single, ?_, ?_⟩
  · intro new i next loaded hcopying
    obtain ⟨rfl, -⟩ := Rebuild.copying.inj hcopying
    refine ⟨(Nat.ne_of_lt hs.active).symm, Nat.lt_succ_self _, ?_⟩
    change (ids (s.setGraph s.count g).activeGraph).Nodup
    rw [hactive]
    exact hdistinct
  · intro w cmd other next hw
    obtain ⟨hcount, hmem⟩ := hs.loaded w cmd other next hw
    refine ⟨Nat.lt_succ_of_lt hcount, ?_⟩
    change cmd.track_id ∈ ids (s.setGraph s.count g).activeGraph →
      cmd.track_id ∈ ids ((s.setGraph s.count g).graphs other)
    rw [hactive, hold other hcount]
    exact hmem
  · intro id cmd flag hlast hnone
    constructor
    · change Carries (s.setGraph s.count g).activeGraph _ _ _
      rw [hactive]
      exact (hs.carried id cmd flag hlast hnone).1
    · intro new i next loaded hcopying k _
      obtain ⟨-, rfl, rfl, rfl⟩ := Rebuild.copying.inj hcopying
      refine ⟨fun hdone => ?_, nofun⟩
      rcases hdone with hdone | ⟨-, -, hdone⟩
      · omega
      · cases hdone

omit [DecidableEq H] in
theorem Sound.read (hs : Sound s) {new i : Nat} {t : AudioTrack}
    (hcopying : s.rebuild = .copying new i flag none) (ht : s.activeGraph.tracks[i]? = some t) :
    Sound { s with rebuild := .copying new i flag (some (get t flag)) } := by
  obtain ⟨hnew, hcount, hdistinct⟩ := hs.building new i flag _ hcopying
  refine ⟨hs.active, ?_, hs.message, hs.single, hs.loaded, ?_⟩
  · intro new' i' next loaded hnext
    obtain ⟨rfl, -⟩ := Rebuild.copying.inj hnext
    exact ⟨hnew, hcount, hdistinct⟩
  · intro id cmd next hlast hnone
    obtain ⟨hcarries, hcopied⟩ := hs.carried id cmd next hlast hnone
    refine ⟨hcarries, ?_⟩
    intro new' i' next' loaded hnext k hk
    obtain ⟨rfl, rfl, rfl, rfl⟩ := Rebuild.copying.inj hnext
    refine ⟨(hcopied new i flag none hcopying k hk).1, ?_⟩
    rintro rfl rfl b hb
    obtain rfl := Option.some.inj hb
    change (ids s.activeGraph)[k]? = some id at hk
    rw [ids, List.getElem?_map, ht] at hk
    obtain rfl := Option.some.inj hk
    exact hcarries t (getTrackById_of_getElem? hdistinct ht)

omit [DecidableEq H] in
theorem Sound.swap (hs : Sound s) {new i : Nat}
    (hcopying : s.rebuild = .copying new i .solo none)
    (hend : s.activeGraph.tracks[i]? = none)
    (hknown : ∀ id, s.last id ≠ none → id ∈ ids (s.graphs new) → id ∈ ids s.activeGraph) :
    Sound { s with active := new, rebuild := .idle } := by
  obtain ⟨-, hcount, -⟩ := hs.building new i .solo none hcopying
  refine ⟨hcount, nofun, hs.message, hs.single, ?_, ?_⟩
  · intro w cmd graph flag hw
    obtain ⟨hlt, hmem⟩ := hs.loaded w cmd graph flag hw
    refine ⟨hlt, fun hnew => hmem (hknown _ ?_ hnew)⟩
    rw [hs.message w cmd (by rw [hw]; rfl)]
    exact Option.some_ne_none cmd
  · intro id cmd flag hlast hnone
    refine ⟨?_, nofun⟩
    by_cases hnew : id ∈ ids (s.graphs new)
    · have hold := hknown id (by rw [hlast]; exact Option.some_ne_none cmd) hnew
      obtain ⟨k, hk⟩ := List.mem_iff_getElem?.mp hold
      refine ((hs.carried id cmd flag hlast hnone).2 new i .solo none hcopying k hk).1 (Or.inl ?_)
      have hlength := List.getElem?_eq_none_iff.mp hend
      have hlt := (List.getElem?_eq_some_iff.mp hk).1
      rw [ids, List.length_map] at hlt
      omega
    · exact Carries.of_not_mem hnew

theorem sound_of_step (hs : Sound s) (hstep : Step s t) (hcareful : Careful s t) : Sound t := by
  cases hstep with
  | @receive h cmd hphase =>
      apply hs.receive hphase
      apply hcareful.serial h cmd hphase
      change (s.setHandler h (.received cmd)).handlers h = _
      rw [setHandler_handlers, if_pos rfl]
  | @load h cmd hphase =>
      refine hs.setHandler ?_ ?_ ?_
      · intro other hother
        rw [hphase]
        exact hother
      · intro other graph flag hstoring
        obtain ⟨rfl, rfl, -⟩ := Handler.storing.inj hstoring
        exact ⟨hs.active, id⟩
      · intro id other flag _ hpending
        rw [hphase] at hpending
        exact Or.inl ⟨hpending, Or.inl rfl⟩
  | @missing h cmd graph flag hphase hmissing =>
      refine hs.setHandler nofun nofun ?_
      intro id other next _ hpending
      rw [hphase] at hpending
      obtain ⟨rfl, -⟩ := hpending
      have hnone : cmd.track_id ∉ ids s.activeGraph := by
        intro hmem
        obtain ⟨t, ht⟩ := mem_ids.mp ((hs.loaded h cmd graph flag hphase).2 hmem)
        rw [hmissing] at ht
        cases ht
      exact Or.inr ⟨Carries.of_not_mem hnone, fun _ _ _ _ _ k hk =>
        absurd (mem_ids_of_getElem? hk) hnone⟩
  | @store h cmd graph flag t hphase hfound =>
      have hchanged : ((s.setHandler h (stored cmd graph flag)).setGraph graph
          (store (s.graphs graph) cmd.track_id flag (cmd.flag flag))).handlers h ≠
          s.handlers h := by
        change (s.setHandler h (stored cmd graph flag)).handlers h ≠ _
        rw [setHandler_handlers, if_pos rfl, hphase]
        cases flag <;> nofun
      obtain ⟨rfl, hunread⟩ := hcareful.timely h cmd graph flag hphase hchanged
        (mem_ids.mpr ⟨t, hfound⟩)
      exact hs.store hphase hunread
  | build graph hidle =>
      exact hs.build (hcareful.distinct hidle nofun)
  | read hcopying ht => exact hs.read hcopying ht
  | copy hcopying ht => exact hs.copy hcopying ht
  | @swap new i hcopying hend =>
      exact hs.swap hcopying hend (hcareful.known (hs.building new i .solo none hcopying).1)

end Kept

/-- In every run of careful steps, whenever no message and no rebuild is under
way, the active graph has for every track what the last message about it says. -/
theorem kept_of_run {g : Nat → AudioGraph} {s : Engine H}
    (hrun : Run.Reaches (fun a b : Engine H => Step a b ∧ Careful a b) { graphs := g } s)
    (hquiet : Quiet s) : Kept s := by
  have hs : Sound s := by
    refine Run.Reaches.invariant hrun ⟨Nat.zero_lt_one, nofun, nofun, nofun, nofun, nofun⟩ ?_
    exact fun a b hstep ha => sound_of_step ha hstep.1 hstep.2
  intro id cmd hlast t ht
  have hnone : ∀ flag h, ¬(s.handlers h).Pending id flag := by
    intro flag h hpending
    have hmessage := hquiet.2 h
    generalize s.handlers h = handler at hpending hmessage
    cases handler with
    | absent | finished => exact hpending
    | received | storing => cases hmessage
  exact ⟨(hs.carried id cmd .solo hlast (hnone .solo)).1 t ht,
    (hs.carried id cmd .mute hlast (hnone .mute)).1 t ht⟩

section Runs

def oneTrack : AudioGraph := { tracks := [{ id := "bass", chain := [] }] }

/-- A message that has been handled before the rebuild starts. -/
theorem kept_rebuilt : ∃ s : Engine Unit,
    Run.Reaches (fun a b : Engine Unit => Step a b ∧ Careful a b)
        { graphs := fun _ => oneTrack } s ∧
      s.active = 1 ∧ Quiet s ∧ Kept s := by
  have hstart : Run.Reaches (fun a b : Engine Unit => Step a b ∧ Careful a b)
      { graphs := fun _ => oneTrack } { graphs := fun _ => oneTrack } :=
    Relation.ReflTransGen.refl
  have hreceived := hstart.tail ⟨.receive (h := ()) ⟨"bass", true, false⟩ rfl,
    (fun _ _ _ _ _ _ hw => nomatch hw), nofun, fun _ h => absurd rfl h, fun h => absurd rfl h⟩
  have hloaded := hreceived.tail ⟨.load (h := ()) rfl, nofun, nofun, fun _ h => absurd rfl h,
    fun h => absurd rfl h⟩
  have hsolo := hloaded.tail ⟨.store (h := ()) rfl rfl, nofun,
    fun _ _ _ _ hphase _ _ => ⟨by cases hphase; rfl, fun _ _ h => h⟩,
    fun _ h => absurd rfl h, fun h => absurd rfl h⟩
  have hmute := hsolo.tail ⟨.store (h := ()) rfl rfl, nofun,
    fun _ _ _ _ hphase _ _ => ⟨by cases hphase; rfl, fun _ _ h => h⟩,
    fun _ h => absurd rfl h, fun h => absurd rfl h⟩
  have hbuilt := hmute.tail ⟨.build oneTrack rfl, nofun, nofun,
    fun _ _ => List.nodup_singleton "bass", fun h => absurd rfl h⟩
  have hread := hbuilt.tail ⟨.read rfl rfl, nofun, nofun, nofun, fun h => absurd rfl h⟩
  have hcopied := hread.tail ⟨.copy rfl rfl, nofun, nofun, nofun, fun h => absurd rfl h⟩
  have hread := hcopied.tail ⟨.read rfl rfl, nofun, nofun, nofun, fun h => absurd rfl h⟩
  have hcopied := hread.tail ⟨.copy rfl rfl, nofun, nofun, nofun, fun h => absurd rfl h⟩
  have hswapped := hcopied.tail ⟨.swap rfl rfl, nofun, nofun, nofun, fun _ _ _ hmem => hmem⟩
  exact ⟨_, hswapped, rfl, ⟨rfl, fun _ => rfl⟩, kept_of_run hswapped ⟨rfl, fun _ => rfl⟩⟩

/-- A message that comes between the copy and the swap. -/
theorem not_kept_lateMessage : ¬∀ s : Engine Unit,
    Run.Reaches Step { graphs := fun _ => oneTrack } s → Quiet s → Kept s := by
  intro hall
  have hstart : Run.Reaches (Step (H := Unit)) { graphs := fun _ => oneTrack }
      { graphs := fun _ => oneTrack } := Relation.ReflTransGen.refl
  have hbuilt := hstart.tail (.build oneTrack rfl)
  have hsolo := (hbuilt.tail (.read rfl rfl)).tail (.copy rfl rfl)
  have hmute := (hsolo.tail (.read rfl rfl)).tail (.copy rfl rfl)
  have hreceived := hmute.tail (.receive (h := ()) ⟨"bass", true, false⟩ rfl)
  have hloaded := hreceived.tail (.load (h := ()) rfl)
  have hstored := (hloaded.tail (.store (h := ()) rfl rfl)).tail (.store (h := ()) rfl rfl)
  have hswapped := hstored.tail (.swap rfl rfl)
  have hkept := hall _ hswapped ⟨rfl, fun _ => rfl⟩ "bass" ⟨"bass", true, false⟩ rfl _ rfl
  cases hkept.1

end Runs

end DawProject.Audio.Monitor
