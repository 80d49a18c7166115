import DawProject.Lib.Run
import Mathlib.Algebra.Group.Nat.Defs
import Mathlib.Data.List.Nodup
import Mathlib.Logic.Function.Basic

/-!
Retirement of graphs and plugin rings. The audio callback of
`engine/src/audio/audio_callback.cpp` reads a raw pointer and publishes its
generation; `setActiveGraph` and `isRetireSafe` of
`engine/src/audio/audio_device.cpp`, and the live loop of `engine/src/main.cpp`,
which frees retired graphs and evicts plugin instances, run on the control
thread. Other threads hold copies of the shared pointer for a while.

Graphs and rings are named by numbers. The driver calls back only while it is
started, one callback at a time, and its stop waits for the callback.
-/

namespace DawProject.Audio.Reclaim

def kDebugProxyNodeId : String := "debug-proxy-again"

/-- `PluginInstanceRegistry`: the ring each node's instance has mapped. The
instance owns its ring and unmaps it when it goes. -/
structure Registry where
  instances : String → Option Nat := fun _ => none
  /-- How many rings have been made. -/
  rings : Nat := 0

namespace Registry

def Mapped (reg : Registry) (ring : Nat) : Prop := ∃ node_id, reg.instances node_id = some ring

/-- A running instance is used again; a new child may fail to start. -/
def ensureVst3Child (reg : Registry) (node_id : String) (starts : Bool) : Registry × Option Nat :=
  match reg.instances node_id with
  | some ring => (reg, some ring)
  | none =>
      if starts then
        ({ instances := Function.update reg.instances node_id (some reg.rings)
           rings := reg.rings + 1 }, some reg.rings)
      else (reg, none)

/-- The proxy nodes of the chains, each with the ring of its instance. -/
def attach (reg : Registry) : List (String × Bool) → Registry × List Nat
  | [] => (reg, [])
  | node :: rest =>
      let ensured := reg.ensureVst3Child node.1 node.2
      let attached := ensured.1.attach rest
      (attached.1, ensured.2.toList ++ attached.2)

/-- The debug proxy sits on the first track, when there is one. -/
def buildGraph (reg : Registry) (chain : List (String × Bool)) (tracks : Bool) :
    Registry × List Nat :=
  let attached := reg.attach chain
  (attached.1,
    attached.2 ++ if tracks then (attached.1.instances kDebugProxyNodeId).toList else [])

def evictMissing (reg : Registry) (keep : List String) : Registry :=
  { reg with instances := fun node_id => if node_id ∈ keep then reg.instances node_id else none }

end Registry

structure RetiredGraph where
  graph : Nat
  gen_at_swap : Nat
deriving DecidableEq, Repr

inductive Callback where
  | out
  /-- Past the increment at entry. -/
  | entered
  /-- Past the load of the raw pointer. -/
  | holding (graph : Option Nat)
deriving DecidableEq, Repr

/-- Where the control thread is. -/
inductive Control where
  | idle
  /-- A new graph, of a document with these plugin nodes, before the swap. -/
  | built (graph : Nat) (nodes : List String)
  | slotExchanged (old : Option Nat) (graph : Nat) (nodes : List String)
  | rawExchanged (old : Option Nat) (graph : Nat) (nodes : List String)
  /-- `isRetireSafe` has held, the use count comes next. -/
  | counting (r : RetiredGraph)
  /-- The driver has been started or stopped, `state_` not set yet. -/
  | starting
  | stopping
  /-- The loop is over. -/
  | finished
deriving DecidableEq, Repr

structure Engine where
  active_graph_ : Option Nat := none
  active_graph_raw_ : Option Nat := none
  callback_generation_ : Nat := 0
  /-- `state_` is `Running`. -/
  running : Bool := false
  /-- The driver may call back. -/
  started : Bool := false
  callback : Callback := .out
  /-- The copies of the shared pointer on other threads. -/
  held : List Nat := []
  control : Control := .idle
  current_graph : Option Nat := none
  retired_graphs : List RetiredGraph := []
  freed : List Nat := []
  /-- The rings the proxy nodes of a graph point to. -/
  graphs : Nat → List Nat := fun _ => []
  count : Nat := 0
  plugin_registry : Registry := {}
  eviction_keep : List String := []
  eviction_pending : Bool := false

/-- The debug proxy is started before the loop, when it is asked for. -/
def Engine.launch (debug_proxy : Bool) : Engine :=
  { plugin_registry := (Registry.ensureVst3Child {} kDebugProxyNodeId debug_proxy).1 }

/-- The 64-bit counter of `GenGuard`. -/
def nextGeneration (gen : Nat) : Nat := (gen + 1) % 2 ^ 64

def isRetireSafe (s : Engine) (r : RetiredGraph) : Bool :=
  !s.running || decide (r.gen_at_swap % 2 = 0) ||
    decide (r.gen_at_swap < s.callback_generation_)

/-- The shared pointers to a graph while the control thread is not swapping. -/
def use_count (s : Engine) (graph : Nat) : Nat :=
  (if s.active_graph_ = some graph then 1 else 0) +
    (if s.current_graph = some graph then 1 else 0) +
    (s.retired_graphs.map RetiredGraph.graph).count graph + s.held.count graph

inductive Step (s : Engine) : Engine → Prop where
  | enter (hout : s.callback = .out) (hstarted : s.started = true) :
      Step s { s with
        callback := .entered, callback_generation_ := nextGeneration s.callback_generation_ }
  | load (hentered : s.callback = .entered) :
      Step s { s with callback := .holding s.active_graph_raw_ }
  | exit {graph : Option Nat} (hholding : s.callback = .holding graph) :
      Step s { s with
        callback := .out, callback_generation_ := nextGeneration s.callback_generation_ }
  | hold {graph : Nat} (hactive : s.active_graph_ = some graph) (hloop : s.control ≠ .finished) :
      Step s { s with held := graph :: s.held }
  | release (graph : Nat) :
      Step s { s with held := s.held.erase graph }
  | build (nodes : List String) (chain : List (String × Bool)) (tracks : Bool)
      (hidle : s.control = .idle) (hchain : ∀ node ∈ chain, node.1 ∈ nodes) :
      Step s { s with
        control := .built s.count nodes
        graphs := Function.update s.graphs s.count (s.plugin_registry.buildGraph chain tracks).2
        count := s.count + 1
        plugin_registry := (s.plugin_registry.buildGraph chain tracks).1 }
  /-- No graph comes out, but children may have been started. -/
  | buildFailed (chain : List (String × Bool)) (hidle : s.control = .idle) :
      Step s { s with plugin_registry := (s.plugin_registry.attach chain).1 }
  | exchangeSlot {graph : Nat} {nodes : List String} (hbuilt : s.control = .built graph nodes) :
      Step s { s with
        active_graph_ := some graph, control := .slotExchanged s.active_graph_ graph nodes }
  | exchangeRaw {old : Option Nat} {graph : Nat} {nodes : List String}
      (hslot : s.control = .slotExchanged old graph nodes) :
      Step s { s with
        active_graph_raw_ := some graph, control := .rawExchanged old graph nodes }
  | snapshot {old : Option Nat} {graph : Nat} {nodes : List String}
      (hraw : s.control = .rawExchanged old graph nodes) :
      Step s { s with
        current_graph := some graph
        retired_graphs := s.retired_graphs ++
          (old.map fun g => RetiredGraph.mk g s.callback_generation_).toList
        eviction_keep := kDebugProxyNodeId :: nodes
        eviction_pending := true
        control := .idle }
  | check {r : RetiredGraph} (hidle : s.control = .idle) (hr : r ∈ s.retired_graphs)
      (hsafe : isRetireSafe s r = true) :
      Step s { s with control := .counting r }
  /-- The erase frees it a little later; no other step depends on that. -/
  | free {r : RetiredGraph} (hcounting : s.control = .counting r)
      (hcount : use_count s r.graph = 1) :
      Step s { s with
        retired_graphs := s.retired_graphs.erase r, freed := r.graph :: s.freed, control := .idle }
  | spare {r : RetiredGraph} (hcounting : s.control = .counting r)
      (hcount : use_count s r.graph ≠ 1) :
      Step s { s with control := .idle }
  | evict (hidle : s.control = .idle) (hpending : s.eviction_pending = true)
      (hempty : s.retired_graphs = []) :
      Step s { s with
        plugin_registry := s.plugin_registry.evictMissing s.eviction_keep
        eviction_pending := false }
  | start (hidle : s.control = .idle) (hstopped : s.running = false) :
      Step s { s with started := true, control := .starting }
  | startRunning (hstarting : s.control = .starting) :
      Step s { s with running := true, control := .idle }
  | stop (hidle : s.control = .idle) (hrunning : s.running = true) (hout : s.callback = .out) :
      Step s { s with started := false, control := .stopping }
  | stopRunning (hstopping : s.control = .stopping) :
      Step s { s with running := false, control := .idle }
  /-- The threads of the connections are over, the device is stopped. -/
  | clear (hidle : s.control = .idle) (hstopped : s.running = false) (hheld : s.held = []) :
      Step s { s with
        freed := s.retired_graphs.map RetiredGraph.graph ++ s.freed
        retired_graphs := []
        control := .finished }

/-- A callback or another thread has the graph, or can still get it. -/
def Usable (s : Engine) (graph : Nat) : Prop :=
  s.callback = .holding (some graph) ∨ graph ∈ s.held ∨ s.active_graph_ = some graph ∨
    s.active_graph_raw_ = some graph

structure Safe (s : Engine) : Prop where
  graphs : ∀ graph, Usable s graph → graph ∉ s.freed
  rings : ∀ graph, Usable s graph → ∀ ring ∈ s.graphs graph, s.plugin_registry.Mapped ring

section Registry

variable {reg : Registry} {node_id : String} {ring : Nat}

namespace Registry

/-- What is running stays. -/
def Grows (reg next : Registry) : Prop :=
  ∀ node_id ring, reg.instances node_id = some ring → next.instances node_id = some ring

theorem Grows.refl (reg : Registry) : reg.Grows reg := fun _ _ h => h

theorem Grows.trans {reg mid next : Registry} (hfirst : reg.Grows mid) (hsecond : mid.Grows next) :
    reg.Grows next := fun node_id ring h => hsecond node_id ring (hfirst node_id ring h)

theorem grows_ensureVst3Child (starts : Bool) :
    reg.Grows (reg.ensureVst3Child node_id starts).1 := by
  intro other ring hother
  unfold ensureVst3Child
  split
  · exact hother
  · rename_i hnone
    cases starts with
    | false => exact hother
    | true =>
        have hne : other ≠ node_id := by
          rintro rfl
          rw [hnone] at hother
          cases hother
        exact (Function.update_of_ne hne _ _).trans hother

theorem ensureVst3Child_ring {starts : Bool}
    (hring : (reg.ensureVst3Child node_id starts).2 = some ring) :
    (reg.ensureVst3Child node_id starts).1.instances node_id = some ring := by
  unfold ensureVst3Child at hring ⊢
  split at hring
  · rename_i found hfound
    obtain rfl := Option.some.inj hring
    simp only [hfound]
  · rename_i hnone
    cases starts with
    | false => cases hring
    | true =>
        obtain rfl := Option.some.inj hring
        simp

theorem grows_attach (chain : List (String × Bool)) : reg.Grows (reg.attach chain).1 := by
  induction chain generalizing reg with
  | nil => exact Grows.refl reg
  | cons node rest ih => exact (grows_ensureVst3Child node.2).trans ih

/-- A ring of the chain is the one of a node of the chain. -/
theorem exists_of_mem_attach {chain : List (String × Bool)} (hring : ring ∈ (reg.attach chain).2) :
    ∃ node ∈ chain, (reg.attach chain).1.instances node.1 = some ring := by
  induction chain generalizing reg with
  | nil => cases hring
  | cons node rest ih =>
      rcases List.mem_append.mp hring with hfirst | hrest
      · have hensured := ensureVst3Child_ring (Option.mem_toList.mp hfirst)
        exact ⟨node, List.mem_cons_self, grows_attach rest _ _ hensured⟩
      · obtain ⟨found, hfound, hinstance⟩ := ih hrest
        exact ⟨found, List.mem_cons_of_mem node hfound, hinstance⟩

theorem exists_of_mem_buildGraph {chain : List (String × Bool)} {tracks : Bool}
    {nodes : List String} (hchain : ∀ node ∈ chain, node.1 ∈ nodes)
    (hring : ring ∈ (reg.buildGraph chain tracks).2) :
    ∃ node_id ∈ kDebugProxyNodeId :: nodes,
      (reg.buildGraph chain tracks).1.instances node_id = some ring := by
  rcases List.mem_append.mp hring with hattached | hproxy
  · obtain ⟨node, hnode, hinstance⟩ := exists_of_mem_attach hattached
    exact ⟨node.1, List.mem_cons_of_mem _ (hchain node hnode), hinstance⟩
  · cases tracks with
    | false => cases hproxy
    | true => exact ⟨kDebugProxyNodeId, List.mem_cons_self, Option.mem_toList.mp hproxy⟩

end Registry

end Registry

section Owners

/-- The graph that a swap under way takes out. -/
def Control.old : Control → Option Nat
  | .slotExchanged old _ _ | .rawExchanged old _ _ => old
  | _ => none

/-- The graph that a swap under way brings in, with the nodes of its document. -/
def Control.fresh : Control → Option (Nat × List String)
  | .built graph nodes | .slotExchanged _ graph nodes | .rawExchanged _ graph nodes =>
      some (graph, nodes)
  | _ => none

/-- No swap is under way. -/
def Control.Plain (control : Control) : Prop := control.old = none ∧ control.fresh = none

/-- Where the control thread has its pointers. -/
def PointersSound (s : Engine) : Prop :=
  match s.control with
  | .built graph _ =>
      s.active_graph_raw_ = s.active_graph_ ∧ s.current_graph = s.active_graph_ ∧
        s.active_graph_ ≠ some graph
  | .slotExchanged old graph _ =>
      s.active_graph_ = some graph ∧ s.active_graph_raw_ = old ∧ s.current_graph = old ∧
        old ≠ some graph
  | .rawExchanged old graph _ =>
      s.active_graph_ = some graph ∧ s.active_graph_raw_ = some graph ∧ s.current_graph = old ∧
        old ≠ some graph
  | _ => s.active_graph_raw_ = s.active_graph_ ∧ s.current_graph = s.active_graph_

def Retired (s : Engine) (graph : Nat) : Prop := graph ∈ s.retired_graphs.map RetiredGraph.graph

/-- The control thread still has a shared pointer to the graph. -/
def Owned (s : Engine) (graph : Nat) : Prop :=
  s.active_graph_ = some graph ∨ s.control.old = some graph ∨
    s.control.fresh.map Prod.fst = some graph ∨ Retired s graph

/-- What the control thread keeps, whatever the other threads do. -/
structure Owners (s : Engine) : Prop where
  pointers : PointersSound s
  built : ∀ graph, Owned s graph ∨ graph ∈ s.freed → graph < s.count
  separate : (s.retired_graphs.map RetiredGraph.graph).Nodup
  retired : ∀ graph, Retired s graph → s.active_graph_ ≠ some graph ∧
    s.control.old ≠ some graph ∧ s.control.fresh.map Prod.fst ≠ some graph
  freed : ∀ graph ∈ s.freed, ¬Owned s graph
  rings : ∀ graph, Owned s graph → ∀ ring ∈ s.graphs graph, s.plugin_registry.Mapped ring
  keep : ∀ graph, s.current_graph = some graph → ∀ ring ∈ s.graphs graph,
    ∃ node_id ∈ s.eviction_keep, s.plugin_registry.instances node_id = some ring
  nodes : ∀ graph nodes, s.control.fresh = some (graph, nodes) → ∀ ring ∈ s.graphs graph,
    ∃ node_id ∈ kDebugProxyNodeId :: nodes, s.plugin_registry.instances node_id = some ring

variable {s : Engine} {graph : Nat}

theorem Owners.pointers_of_plain (ho : Owners s) (hplain : s.control.Plain) :
    s.active_graph_raw_ = s.active_graph_ ∧ s.current_graph = s.active_graph_ := by
  have hpointers := ho.pointers
  unfold PointersSound at hpointers
  cases hcontrol : s.control with
  | built | slotExchanged | rawExchanged =>
      rw [hcontrol] at hplain
      cases hplain.2
  | idle | counting | starting | stopping | finished =>
      rw [hcontrol] at hpointers
      exact hpointers

theorem pointersSound_of_plain (hplain : s.control.Plain)
    (hpointers : s.active_graph_raw_ = s.active_graph_ ∧ s.current_graph = s.active_graph_) :
    PointersSound s := by
  unfold PointersSound
  cases hcontrol : s.control with
  | built | slotExchanged | rawExchanged =>
      rw [hcontrol] at hplain
      cases hplain.2
  | idle | counting | starting | stopping | finished => exact hpointers

theorem owned_of_plain (hplain : s.control.Plain) :
    Owned s graph ↔ s.active_graph_ = some graph ∨ Retired s graph := by
  simp [Owned, hplain.1, hplain.2]

/-- Whatever is in the raw pointer or in `current_graph` is owned. -/
theorem Owners.owned_of_raw (ho : Owners s) (hraw : s.active_graph_raw_ = some graph) :
    Owned s graph := by
  have hpointers := ho.pointers
  unfold PointersSound at hpointers
  unfold Owned
  cases hcontrol : s.control with
  | slotExchanged old next nodes =>
      rw [hcontrol] at hpointers
      exact Or.inr (Or.inl (hpointers.2.1.symm.trans hraw))
  | rawExchanged old next nodes =>
      rw [hcontrol] at hpointers
      exact Or.inl (hpointers.1.trans (hpointers.2.1.symm.trans hraw))
  | built | idle | counting | starting | stopping | finished =>
      rw [hcontrol] at hpointers
      exact Or.inl (hpointers.1.symm.trans hraw)

theorem Owners.owned_of_current (ho : Owners s) (hcurrent : s.current_graph = some graph) :
    Owned s graph := by
  have hpointers := ho.pointers
  unfold PointersSound at hpointers
  unfold Owned
  cases hcontrol : s.control with
  | slotExchanged old next nodes =>
      rw [hcontrol] at hpointers
      exact Or.inr (Or.inl (hpointers.2.2.1.symm.trans hcurrent))
  | rawExchanged old next nodes =>
      rw [hcontrol] at hpointers
      exact Or.inr (Or.inl (hpointers.2.2.1.symm.trans hcurrent))
  | built =>
      rw [hcontrol] at hpointers
      exact Or.inl (hpointers.2.1.symm.trans hcurrent)
  | idle | counting | starting | stopping | finished =>
      rw [hcontrol] at hpointers
      exact Or.inl (hpointers.2.symm.trans hcurrent)

/-- Two entries of the queue are for two graphs. -/
theorem Owners.retired_inj (ho : Owners s) {r r' : RetiredGraph} (hr : r ∈ s.retired_graphs)
    (hr' : r' ∈ s.retired_graphs) (hgraph : r.graph = r'.graph) : r = r' :=
  List.inj_on_of_nodup_map ho.separate hr hr' hgraph

/-- A step of the control thread outside a swap that leaves its graphs alone. -/
theorem Owners.plain (ho : Owners s) (hplain : s.control.Plain) {control : Control}
    (hnext : control.Plain) : Owners { s with control := control } := by
  have howned : ∀ graph, Owned { s with control := control } graph ↔ Owned s graph :=
    fun graph => (owned_of_plain hnext).trans (owned_of_plain hplain).symm
  refine ⟨pointersSound_of_plain hnext (ho.pointers_of_plain hplain), ?_, ho.separate, ?_, ?_, ?_,
    ho.keep, ?_⟩
  · intro graph hgraph
    rw [howned] at hgraph
    exact ho.built graph hgraph
  · intro graph hgraph
    refine ⟨(ho.retired graph hgraph).1, ?_, ?_⟩
    · change control.old ≠ _
      rw [hnext.1]
      nofun
    · change control.fresh.map Prod.fst ≠ _
      rw [hnext.2]
      nofun
  · intro graph hgraph
    rw [howned]
    exact ho.freed graph hgraph
  · intro graph hgraph
    rw [howned] at hgraph
    exact ho.rings graph hgraph
  · intro graph nodes hfresh
    change control.fresh = _ at hfresh
    rw [hnext.2] at hfresh
    cases hfresh

/-- The other threads, and the state of the device, have no part in it. -/
theorem Owners.elsewhere (ho : Owners s) (callback : Callback) (gen : Nat) (held : List Nat)
    (running started : Bool) :
    Owners { s with
      callback := callback
      callback_generation_ := gen
      held := held
      running := running
      started := started } :=
  ⟨ho.pointers, ho.built, ho.separate, ho.retired, ho.freed, ho.rings, ho.keep, ho.nodes⟩

theorem Owners.of_registry (ho : Owners s) {reg : Registry} (hgrows : s.plugin_registry.Grows reg) :
    Owners { s with plugin_registry := reg } := by
  refine ⟨ho.pointers, ho.built, ho.separate, ho.retired, ho.freed, ?_, ?_, ?_⟩
  · intro graph hgraph ring hring
    obtain ⟨node_id, hinstance⟩ := ho.rings graph hgraph ring hring
    exact ⟨node_id, hgrows _ _ hinstance⟩
  · intro graph hgraph ring hring
    obtain ⟨node_id, hkeep, hinstance⟩ := ho.keep graph hgraph ring hring
    exact ⟨node_id, hkeep, hgrows _ _ hinstance⟩
  · intro graph nodes hfresh ring hring
    obtain ⟨node_id, hnode, hinstance⟩ := ho.nodes graph nodes hfresh ring hring
    exact ⟨node_id, hnode, hgrows _ _ hinstance⟩

theorem Owners.build (ho : Owners s) (hidle : s.control = .idle) {nodes : List String}
    {rings : List Nat}
    (hrings : ∀ ring ∈ rings, ∃ node_id ∈ kDebugProxyNodeId :: nodes,
      s.plugin_registry.instances node_id = some ring) :
    Owners { s with
      control := .built s.count nodes
      graphs := Function.update s.graphs s.count rings
      count := s.count + 1 } := by
  have hplain : s.control.Plain := by
    rw [hidle]
    exact ⟨rfl, rfl⟩
  have hbuilt : ∀ graph, Owned s graph → graph < s.count := fun graph h => ho.built graph (Or.inl h)
  have hold : ∀ graph, Owned s graph → Function.update s.graphs s.count rings graph =
      s.graphs graph := fun graph h => Function.update_of_ne (Nat.ne_of_lt (hbuilt graph h)) _ _
  have howned : ∀ graph, Owned { s with
      control := .built s.count nodes
      graphs := Function.update s.graphs s.count rings
      count := s.count + 1 } graph → graph = s.count ∨ Owned s graph := by
    rintro graph (hactive | hnone | hfresh | hretired)
    · exact Or.inr (Or.inl hactive)
    · cases hnone
    · exact Or.inl (Option.some.inj hfresh).symm
    · exact Or.inr (Or.inr (Or.inr (Or.inr hretired)))
  obtain ⟨hraw, hcurrent⟩ := ho.pointers_of_plain hplain
  refine ⟨⟨hraw, hcurrent, ?_⟩, ?_, ho.separate, ?_, ?_, ?_, ?_, ?_⟩
  · intro hactive
    exact Nat.lt_irrefl _ (hbuilt s.count (Or.inl hactive))
  · rintro graph (hgraph | hgraph)
    · rcases howned graph hgraph with rfl | hgraph
      · exact Nat.lt_succ_self _
      · exact Nat.lt_succ_of_lt (hbuilt graph hgraph)
    · exact Nat.lt_succ_of_lt (ho.built graph (Or.inr hgraph))
  · intro graph hgraph
    refine ⟨(ho.retired graph hgraph).1, nofun, ?_⟩
    intro hfresh
    obtain rfl := Option.some.inj hfresh
    exact Nat.lt_irrefl _ (hbuilt s.count (Or.inr (Or.inr (Or.inr hgraph))))
  · intro graph hgraph howned'
    rcases howned graph howned' with rfl | howned'
    · exact Nat.lt_irrefl _ (ho.built s.count (Or.inr hgraph))
    · exact ho.freed graph hgraph howned'
  · intro graph hgraph ring hring
    rcases howned graph hgraph with rfl | hgraph
    · obtain ⟨node_id, -, hinstance⟩ := hrings ring (by simpa using hring)
      exact ⟨node_id, hinstance⟩
    · refine ho.rings graph hgraph ring ?_
      simpa only [hold graph hgraph] using hring
  · intro graph hgraph ring hring
    refine ho.keep graph hgraph ring ?_
    simpa only [hold graph (ho.owned_of_current hgraph)] using hring
  · intro graph nodes' hfresh ring hring
    obtain ⟨rfl, rfl⟩ := Prod.mk.inj (Option.some.inj hfresh)
    exact hrings ring (by simpa using hring)

theorem Owners.exchangeSlot (ho : Owners s) {nodes : List String}
    (hbuilt : s.control = .built graph nodes) :
    Owners { s with
      active_graph_ := some graph, control := .slotExchanged s.active_graph_ graph nodes } := by
  have hpointers := ho.pointers
  simp only [PointersSound, hbuilt] at hpointers
  obtain ⟨hraw, hcurrent, hne⟩ := hpointers
  have hnew : Owned s graph := by
    refine Or.inr (Or.inr (Or.inl ?_))
    rw [hbuilt]
    rfl
  have howned : ∀ other, Owned { s with
      active_graph_ := some graph, control := .slotExchanged s.active_graph_ graph nodes } other →
      Owned s other := by
    rintro other (hactive | hold | hfresh | hretired)
    · exact Option.some.inj hactive ▸ hnew
    · exact Or.inl hold
    · exact Option.some.inj hfresh ▸ hnew
    · exact Or.inr (Or.inr (Or.inr hretired))
  refine ⟨⟨rfl, hraw, hcurrent, hne⟩, ?_, ho.separate, ?_, ?_, ?_, ho.keep, ?_⟩
  · exact fun other h => ho.built other (h.imp_left (howned other))
  · intro other hother
    obtain ⟨hactive, -, hfresh⟩ := ho.retired other hother
    rw [hbuilt] at hfresh
    exact ⟨hfresh, hactive, hfresh⟩
  · exact fun other h h' => ho.freed other h (howned other h')
  · exact fun other h => ho.rings other (howned other h)
  · intro other nodes' hfresh
    refine ho.nodes other nodes' ?_
    rw [hbuilt]
    exact hfresh

theorem Owners.exchangeRaw (ho : Owners s) {old : Option Nat} {nodes : List String}
    (hslot : s.control = .slotExchanged old graph nodes) :
    Owners { s with
      active_graph_raw_ := some graph, control := .rawExchanged old graph nodes } := by
  have hpointers := ho.pointers
  simp only [PointersSound, hslot] at hpointers
  obtain ⟨hactive, -, hcurrent, hne⟩ := hpointers
  have howned : ∀ other, Owned { s with
      active_graph_raw_ := some graph, control := .rawExchanged old graph nodes } other →
      Owned s other := by
    intro other h
    unfold Owned
    rw [hslot]
    exact h
  refine ⟨⟨hactive, rfl, hcurrent, hne⟩, ?_, ho.separate, ?_, ?_, ?_, ho.keep, ?_⟩
  · exact fun other h => ho.built other (h.imp_left (howned other))
  · intro other hother
    have hretired := ho.retired other hother
    rw [hslot] at hretired
    exact hretired
  · exact fun other h h' => ho.freed other h (howned other h')
  · exact fun other h => ho.rings other (howned other h)
  · intro other nodes' hfresh
    refine ho.nodes other nodes' ?_
    rw [hslot]
    exact hfresh

theorem Owners.snapshot (ho : Owners s) {old : Option Nat} {nodes : List String}
    (hraw : s.control = .rawExchanged old graph nodes) (gen : Nat) :
    Owners { s with
      current_graph := some graph
      retired_graphs := s.retired_graphs ++ (old.map fun g => RetiredGraph.mk g gen).toList
      eviction_keep := kDebugProxyNodeId :: nodes
      eviction_pending := true
      control := .idle } := by
  have hpointers := ho.pointers
  simp only [PointersSound, hraw] at hpointers
  obtain ⟨hactive, hraw', -, hne⟩ := hpointers
  have hmap : (s.retired_graphs ++ (old.map fun g => RetiredGraph.mk g gen).toList).map
      RetiredGraph.graph = s.retired_graphs.map RetiredGraph.graph ++ old.toList := by
    cases old <;> simp
  have hold : ∀ other, old = some other → Owned s other := by
    intro other hother
    refine Or.inr (Or.inl ?_)
    rw [hraw]
    exact hother
  have hmem : ∀ other, other ∈ s.retired_graphs.map RetiredGraph.graph ++ old.toList →
      Retired s other ∨ old = some other := fun other h =>
    (List.mem_append.mp h).imp_right Option.mem_toList.mp
  have howned : ∀ other, (s.active_graph_ = some other ∨
      other ∈ s.retired_graphs.map RetiredGraph.graph ++ old.toList) → Owned s other := by
    rintro other (h | h)
    · exact Or.inl h
    · rcases hmem other h with h | h
      · exact Or.inr (Or.inr (Or.inr h))
      · exact hold other h
  have hplain : ∀ other, Owned { s with
      current_graph := some graph
      retired_graphs := s.retired_graphs ++ (old.map fun g => RetiredGraph.mk g gen).toList
      eviction_keep := kDebugProxyNodeId :: nodes
      eviction_pending := true
      control := .idle } other → Owned s other := by
    intro other h
    rw [owned_of_plain ⟨rfl, rfl⟩] at h
    simp only [Retired, hmap] at h
    exact howned other h
  refine ⟨⟨hraw'.trans hactive.symm, hactive.symm⟩, ?_, ?_, ?_, ?_, ?_, ?_, nofun⟩
  · exact fun other h => ho.built other (h.imp_left (hplain other))
  · simp only [hmap]
    refine List.nodup_append.mpr ⟨ho.separate, by cases old <;> simp, ?_⟩
    rintro a ha b hb rfl
    have hretired := (ho.retired a ha).2.1
    rw [hraw] at hretired
    exact hretired (Option.mem_toList.mp hb)
  · intro other hother
    simp only [Retired, hmap] at hother
    refine ⟨?_, nofun, nofun⟩
    rcases hmem other hother with h | h
    · exact (ho.retired other h).1
    · rintro hactive'
      exact hne (h.trans (hactive'.symm.trans hactive))
  · exact fun other h h' => ho.freed other h (hplain other h')
  · exact fun other h => ho.rings other (hplain other h)
  · intro other hother
    obtain rfl := Option.some.inj hother
    exact ho.nodes graph nodes (by rw [hraw]; rfl)

theorem Owners.free (ho : Owners s) (hplain : s.control.Plain) {r : RetiredGraph}
    (hr : r ∈ s.retired_graphs) :
    Owners { s with
      retired_graphs := s.retired_graphs.erase r
      freed := r.graph :: s.freed
      control := .idle } := by
  have hsub : ∀ other, other ∈ (s.retired_graphs.erase r).map RetiredGraph.graph →
      Retired s other ∧ other ≠ r.graph := by
    intro other hother
    obtain ⟨r', hr', rfl⟩ := List.mem_map.mp hother
    obtain ⟨hne, hr'⟩ := (ho.separate.of_map.mem_erase_iff).mp hr'
    exact ⟨List.mem_map_of_mem hr', fun h => hne (ho.retired_inj hr' hr h)⟩
  have hgraph : Retired s r.graph := List.mem_map_of_mem hr
  have howned : ∀ other, Owned { s with
      retired_graphs := s.retired_graphs.erase r, freed := r.graph :: s.freed, control := .idle }
      other → Owned s other ∧ other ≠ r.graph := by
    intro other h
    rw [owned_of_plain ⟨rfl, rfl⟩] at h
    rcases h with h | h
    · refine ⟨Or.inl h, ?_⟩
      rintro rfl
      exact (ho.retired _ hgraph).1 h
    · obtain ⟨h, hne⟩ := hsub other h
      exact ⟨Or.inr (Or.inr (Or.inr h)), hne⟩
  refine ⟨ho.pointers_of_plain hplain, ?_, ?_, ?_, ?_, ?_, ho.keep, nofun⟩
  · rintro other (h | h)
    · exact ho.built other (Or.inl (howned other h).1)
    · rcases List.mem_cons.mp h with rfl | h
      · exact ho.built _ (Or.inl (Or.inr (Or.inr (Or.inr hgraph))))
      · exact ho.built other (Or.inr h)
  · exact ho.separate.sublist (List.Sublist.map _ List.erase_sublist)
  · intro other hother
    exact ⟨(ho.retired other (hsub other hother).1).1, nofun, nofun⟩
  · intro other hother h
    rcases List.mem_cons.mp hother with rfl | hother
    · exact (howned _ h).2 rfl
    · exact ho.freed other hother (howned other h).1
  · exact fun other h => ho.rings other (howned other h).1

theorem Owners.evict (ho : Owners s) (hplain : s.control.Plain) (hempty : s.retired_graphs = []) :
    Owners { s with
      plugin_registry := s.plugin_registry.evictMissing s.eviction_keep
      eviction_pending := false } := by
  have hkept : ∀ node_id ring, node_id ∈ s.eviction_keep →
      s.plugin_registry.instances node_id = some ring →
        (s.plugin_registry.evictMissing s.eviction_keep).instances node_id = some ring :=
    fun node_id ring hkeep hinstance => (if_pos hkeep).trans hinstance
  refine ⟨ho.pointers, ho.built, ho.separate, ho.retired, ho.freed, ?_, ?_, ?_⟩
  · intro other hother ring hring
    have hcurrent : s.current_graph = some other := by
      rcases (owned_of_plain (s := s) hplain).mp hother with h | h
      · exact (ho.pointers_of_plain hplain).2.trans h
      · rw [Retired, hempty] at h
        cases h
    obtain ⟨node_id, hkeep, hinstance⟩ := ho.keep other hcurrent ring hring
    exact ⟨node_id, hkept node_id ring hkeep hinstance⟩
  · intro other hother ring hring
    obtain ⟨node_id, hkeep, hinstance⟩ := ho.keep other hother ring hring
    exact ⟨node_id, hkeep, hkept node_id ring hkeep hinstance⟩
  · intro other nodes hfresh
    change s.control.fresh = _ at hfresh
    rw [hplain.2] at hfresh
    cases hfresh

theorem Owners.clear (ho : Owners s) (hplain : s.control.Plain) :
    Owners { s with
      freed := s.retired_graphs.map RetiredGraph.graph ++ s.freed
      retired_graphs := []
      control := .finished } := by
  have howned : ∀ other, Owned { s with
      freed := s.retired_graphs.map RetiredGraph.graph ++ s.freed
      retired_graphs := []
      control := .finished } other → s.active_graph_ = some other := by
    intro other h
    rw [owned_of_plain ⟨rfl, rfl⟩] at h
    exact h.resolve_right nofun
  refine ⟨ho.pointers_of_plain hplain, ?_, List.nodup_nil, nofun, ?_, ?_, ho.keep, nofun⟩
  · rintro other (h | h)
    · exact ho.built other (Or.inl (Or.inl (howned other h)))
    · rcases List.mem_append.mp h with h | h
      · exact ho.built other (Or.inl (Or.inr (Or.inr (Or.inr h))))
      · exact ho.built other (Or.inr h)
  · intro other hother h
    rcases List.mem_append.mp hother with hretired | hfreed
    · exact (ho.retired other hretired).1 (howned other h)
    · exact ho.freed other hfreed (Or.inl (howned other h))
  · exact fun other h => ho.rings other (Or.inl (howned other h))

end Owners

section Watchers

/-- A callback is inside exactly while the generation is odd, and what it has
loaded is the active graph, the one that is being swapped out, or one that was
retired under the generation of that callback. -/
structure Watchers (s : Engine) : Prop where
  generation : s.callback ≠ .out ↔ s.callback_generation_ % 2 = 1
  device : s.callback ≠ .out → s.started = true
  running : s.started = true → s.control = .starting ∨ s.running = true ∧ s.control ≠ .stopping
  loaded : ∀ graph, s.callback = .holding (some graph) → s.active_graph_raw_ = some graph ∨
    (∃ next nodes, s.control = .rawExchanged (some graph) next nodes) ∨
    ∃ r ∈ s.retired_graphs, r.graph = graph ∧ r.gen_at_swap = s.callback_generation_
  held : ∀ graph ∈ s.held,
    s.active_graph_ = some graph ∨ s.control.old = some graph ∨ Retired s graph
  counting : ∀ r, s.control = .counting r →
    r ∈ s.retired_graphs ∧ s.callback ≠ .holding (some r.graph)

variable {s t : Engine}

theorem Watchers.running_of_ne (hw : Watchers s) (hcontrol : s.control ≠ .starting)
    (hstarted : s.started = true) : s.running = true :=
  ((hw.running hstarted).resolve_left hcontrol).1

theorem nextGeneration_mod (gen : Nat) : nextGeneration gen % 2 = (gen + 1) % 2 := by
  unfold nextGeneration
  omega

theorem Watchers.enter (hw : Watchers s) (hout : s.callback = .out) (hstarted : s.started = true) :
    Watchers { s with
      callback := .entered, callback_generation_ := nextGeneration s.callback_generation_ } := by
  have heven : ¬s.callback_generation_ % 2 = 1 := fun h => hw.generation.mpr h hout
  refine ⟨?_, fun _ => hstarted, hw.running, nofun, hw.held, ?_⟩
  · simp only [nextGeneration_mod]
    exact iff_of_true nofun (by omega)
  · exact fun r hr => ⟨(hw.counting r hr).1, nofun⟩

theorem Watchers.load (hw : Watchers s) (ho : Owners s) (hentered : s.callback = .entered) :
    Watchers { s with callback := .holding s.active_graph_raw_ } := by
  have hinside : s.callback ≠ .out := by
    rw [hentered]
    nofun
  refine ⟨iff_of_true nofun (hw.generation.mp hinside), fun _ => hw.device hinside, hw.running,
    ?_, hw.held, ?_⟩
  · intro graph hgraph
    exact Or.inl (Callback.holding.inj hgraph)
  · intro r hr
    have hmem := (hw.counting r hr).1
    refine ⟨hmem, fun hholding => ?_⟩
    have hplain : s.control.Plain := by
      change s.control = _ at hr
      rw [hr]
      exact ⟨rfl, rfl⟩
    exact (ho.retired r.graph (List.mem_map_of_mem hmem)).1
      ((ho.pointers_of_plain hplain).1.symm.trans (Callback.holding.inj hholding))

theorem Watchers.exit (hw : Watchers s) {graph : Option Nat}
    (hholding : s.callback = .holding graph) :
    Watchers { s with
      callback := .out, callback_generation_ := nextGeneration s.callback_generation_ } := by
  have hodd : s.callback_generation_ % 2 = 1 := by
    apply hw.generation.mp
    rw [hholding]
    nofun
  refine ⟨?_, fun h => absurd rfl h, hw.running, nofun, hw.held, ?_⟩
  · simp only [nextGeneration_mod]
    exact iff_of_false (fun h => h rfl) (by omega)
  · exact fun r hr => ⟨(hw.counting r hr).1, nofun⟩

/-- A graph that passes `isRetireSafe` is not with a callback. -/
theorem not_holding_of_isRetireSafe (ho : Owners s) (hw : Watchers s) (hidle : s.control = .idle)
    {r : RetiredGraph} (hr : r ∈ s.retired_graphs) (hsafe : isRetireSafe s r = true) :
    s.callback ≠ .holding (some r.graph) := by
  intro hholding
  have hinside : s.callback ≠ .out := by
    rw [hholding]
    nofun
  have hodd := hw.generation.mp hinside
  have hgen : r.gen_at_swap = s.callback_generation_ := by
    rcases hw.loaded r.graph hholding with hraw | ⟨next, nodes, hcontrol⟩ | ⟨r', hr', hgraph, hgen⟩
    · have hplain : s.control.Plain := by
        rw [hidle]
        exact ⟨rfl, rfl⟩
      exact absurd ((ho.pointers_of_plain hplain).1.symm.trans hraw)
        (ho.retired r.graph (List.mem_map_of_mem hr)).1
    · rw [hidle] at hcontrol
      cases hcontrol
    · rwa [ho.retired_inj hr' hr hgraph] at hgen
  have hrunning : s.running = true :=
    hw.running_of_ne (by rw [hidle]; nofun) (hw.device hinside)
  simp [isRetireSafe, hrunning, hgen, hodd] at hsafe

/-- The count that lets a graph go leaves no copy on another thread. -/
theorem not_held_of_use_count {r : RetiredGraph} (hr : r ∈ s.retired_graphs)
    (hcount : use_count s r.graph = 1) : r.graph ∉ s.held := by
  intro hheld
  have hretired : 0 < (s.retired_graphs.map RetiredGraph.graph).count r.graph :=
    List.count_pos_iff.mpr (List.mem_map_of_mem hr)
  have hcopies : 0 < s.held.count r.graph := List.count_pos_iff.mpr hheld
  unfold use_count at hcount
  omega

theorem Watchers.loaded_of_plain (hw : Watchers s) (hplain : s.control.Plain) {graph : Nat}
    (hholding : s.callback = .holding (some graph)) : s.active_graph_raw_ = some graph ∨
      ∃ r ∈ s.retired_graphs, r.graph = graph ∧ r.gen_at_swap = s.callback_generation_ := by
  rcases hw.loaded graph hholding with hraw | ⟨next, nodes, hcontrol⟩ | hretired
  · exact Or.inl hraw
  · rw [hcontrol] at hplain
    cases hplain.2
  · exact Or.inr hretired

theorem Watchers.held_of_plain (hw : Watchers s) (hplain : s.control.Plain) {graph : Nat}
    (hheld : graph ∈ s.held) : s.active_graph_ = some graph ∨ Retired s graph := by
  rcases hw.held graph hheld with hactive | hold | hretired
  · exact Or.inl hactive
  · rw [hplain.1] at hold
    cases hold
  · exact Or.inr hretired

/-- A step of the control thread outside a swap that leaves its graphs alone. -/
theorem Watchers.plain (hw : Watchers s) (hplain : s.control.Plain) {control : Control}
    {running started : Bool} (hdevice : s.callback ≠ .out → started = true)
    (hrunning : started = true → control = .starting ∨ running = true ∧ control ≠ .stopping)
    (hcounting : ∀ r, control = .counting r →
      r ∈ s.retired_graphs ∧ s.callback ≠ .holding (some r.graph)) :
    Watchers { s with control := control, running := running, started := started } where
  generation := hw.generation
  device := hdevice
  running := hrunning
  loaded _ hholding := (hw.loaded_of_plain hplain hholding).imp_right Or.inr
  held _ hheld := (hw.held_of_plain hplain hheld).imp_right Or.inr
  counting := hcounting

theorem Watchers.build (hw : Watchers s) (hidle : s.control = .idle) {nodes : List String}
    {rings : List Nat} {reg : Registry} :
    Watchers { s with
      control := .built s.count nodes
      graphs := Function.update s.graphs s.count rings
      count := s.count + 1
      plugin_registry := reg } where
  generation := hw.generation
  device := hw.device
  running h := Or.inr ⟨hw.running_of_ne (by rw [hidle]; nofun) h, nofun⟩
  loaded graph hholding := by
    have hplain : s.control.Plain := by
      rw [hidle]
      exact ⟨rfl, rfl⟩
    exact (hw.loaded_of_plain hplain hholding).imp_right Or.inr
  held graph hheld := by
    have hplain : s.control.Plain := by
      rw [hidle]
      exact ⟨rfl, rfl⟩
    exact (hw.held_of_plain hplain hheld).imp_right Or.inr
  counting := nofun

theorem Watchers.exchangeSlot (hw : Watchers s) {graph : Nat} {nodes : List String}
    (hbuilt : s.control = .built graph nodes) :
    Watchers { s with
      active_graph_ := some graph
      control := .slotExchanged s.active_graph_ graph nodes } where
  generation := hw.generation
  device := hw.device
  running h := Or.inr ⟨hw.running_of_ne (by rw [hbuilt]; nofun) h, nofun⟩
  loaded other hholding := by
    rcases hw.loaded other hholding with hraw | ⟨next, nodes', hcontrol⟩ | hretired
    · exact Or.inl hraw
    · rw [hbuilt] at hcontrol
      cases hcontrol
    · exact Or.inr (Or.inr hretired)
  held other hheld := by
    rcases hw.held other hheld with hactive | hold | hretired
    · exact Or.inr (Or.inl hactive)
    · rw [hbuilt] at hold
      cases hold
    · exact Or.inr (Or.inr hretired)
  counting := nofun

theorem Watchers.exchangeRaw (hw : Watchers s) (ho : Owners s) {old : Option Nat} {graph : Nat}
    {nodes : List String} (hslot : s.control = .slotExchanged old graph nodes) :
    Watchers { s with
      active_graph_raw_ := some graph, control := .rawExchanged old graph nodes } where
  generation := hw.generation
  device := hw.device
  running h := Or.inr ⟨hw.running_of_ne (by rw [hslot]; nofun) h, nofun⟩
  loaded other hholding := by
    have hpointers := ho.pointers
    simp only [PointersSound, hslot] at hpointers
    rcases hw.loaded other hholding with hraw | ⟨next, nodes', hcontrol⟩ | hretired
    · -- the callback is still in the graph that goes out
      obtain rfl : old = some other := hpointers.2.1.symm.trans hraw
      exact Or.inr (Or.inl ⟨graph, nodes, rfl⟩)
    · rw [hslot] at hcontrol
      cases hcontrol
    · exact Or.inr (Or.inr hretired)
  held other hheld := by
    have hold := hw.held other hheld
    rw [hslot] at hold
    exact hold
  counting := nofun

theorem Watchers.snapshot (hw : Watchers s) {old : Option Nat} {graph : Nat} {nodes : List String}
    (hraw : s.control = .rawExchanged old graph nodes) :
    Watchers { s with
      current_graph := some graph
      retired_graphs := s.retired_graphs ++
        (old.map fun g => RetiredGraph.mk g s.callback_generation_).toList
      eviction_keep := kDebugProxyNodeId :: nodes
      eviction_pending := true
      control := .idle } where
  generation := hw.generation
  device := hw.device
  running h := Or.inr ⟨hw.running_of_ne (by rw [hraw]; nofun) h, nofun⟩
  loaded other hholding := by
    rcases hw.loaded other hholding with hactive | ⟨next, nodes', hcontrol⟩ | ⟨r, hr, hgraph, hgen⟩
    · exact Or.inl hactive
    · -- this callback is inside now, so the snapshot is its own odd generation
      rw [hraw] at hcontrol
      obtain ⟨rfl, -, -⟩ := Control.rawExchanged.inj hcontrol
      exact Or.inr (Or.inr ⟨⟨other, s.callback_generation_⟩,
        List.mem_append_right _ List.mem_cons_self, rfl, rfl⟩)
    · exact Or.inr (Or.inr ⟨r, List.mem_append_left _ hr, hgraph, hgen⟩)
  held other hheld := by
    rcases hw.held other hheld with hactive | hold | hretired
    · exact Or.inl hactive
    · rw [hraw] at hold
      obtain rfl : old = some other := hold
      exact Or.inr (Or.inr (List.mem_map_of_mem (List.mem_append_right _ List.mem_cons_self)))
    · refine Or.inr (Or.inr ?_)
      obtain ⟨r, hr, hgraph⟩ := List.mem_map.mp hretired
      exact List.mem_map.mpr ⟨r, List.mem_append_left _ hr, hgraph⟩
  counting := nofun

theorem Watchers.free (hw : Watchers s) {r : RetiredGraph} (hcounting : s.control = .counting r)
    (hcount : use_count s r.graph = 1) :
    Watchers { s with
      retired_graphs := s.retired_graphs.erase r
      freed := r.graph :: s.freed
      control := .idle } := by
  obtain ⟨hr, hnot⟩ := hw.counting r hcounting
  have hplain : s.control.Plain := by
    rw [hcounting]
    exact ⟨rfl, rfl⟩
  have herase : ∀ r' ∈ s.retired_graphs, r'.graph ≠ r.graph → r' ∈ s.retired_graphs.erase r :=
    fun r' hr' hne => (List.mem_erase_of_ne fun h => hne (congrArg RetiredGraph.graph h)).mpr hr'
  refine ⟨hw.generation, hw.device, ?_, ?_, ?_, nofun⟩
  · exact fun h => Or.inr ⟨hw.running_of_ne (by rw [hcounting]; nofun) h, nofun⟩
  · intro graph hholding
    rcases hw.loaded_of_plain hplain hholding with hraw | ⟨r', hr', rfl, hgen⟩
    · exact Or.inl hraw
    · refine Or.inr (Or.inr ⟨r', herase r' hr' ?_, rfl, hgen⟩)
      intro hsame
      rw [hsame] at hholding
      exact hnot hholding
  · intro graph hheld
    rcases hw.held_of_plain hplain hheld with hactive | hretired
    · exact Or.inl hactive
    · obtain ⟨r', hr', rfl⟩ := List.mem_map.mp hretired
      refine Or.inr (Or.inr (List.mem_map_of_mem (herase r' hr' ?_)))
      intro hsame
      rw [hsame] at hheld
      exact not_held_of_use_count hr hcount hheld

theorem kept_of_step (ho : Owners s) (hw : Watchers s) (hstep : Step s t) :
    Owners t ∧ Watchers t := by
  have hplain : ∀ {control : Control}, s.control = control → control.Plain → s.control.Plain :=
    fun h hcontrol => h ▸ hcontrol
  cases hstep with
  | enter hout hstarted =>
      exact ⟨ho.elsewhere _ _ _ _ _, hw.enter hout hstarted⟩
  | load hentered =>
      exact ⟨ho.elsewhere _ _ _ _ _, hw.load ho hentered⟩
  | exit hholding =>
      exact ⟨ho.elsewhere _ _ _ _ _, hw.exit hholding⟩
  | hold hactive hloop =>
      refine ⟨ho.elsewhere _ _ _ _ _, hw.generation, hw.device, hw.running, hw.loaded, ?_,
        hw.counting⟩
      intro graph hgraph
      rcases List.mem_cons.mp hgraph with rfl | hgraph
      · exact Or.inl hactive
      · exact hw.held graph hgraph
  | release graph =>
      exact ⟨ho.elsewhere _ _ _ _ _, hw.generation, hw.device, hw.running, hw.loaded,
        fun other hother => hw.held other (List.mem_of_mem_erase hother), hw.counting⟩
  | build nodes chain tracks hidle hchain =>
      have hgrown := ho.of_registry (Registry.grows_attach chain)
      exact ⟨hgrown.build hidle fun ring hring => Registry.exists_of_mem_buildGraph hchain hring,
        hw.build hidle⟩
  | buildFailed chain hidle =>
      exact ⟨ho.of_registry (Registry.grows_attach chain), hw.generation, hw.device, hw.running,
        hw.loaded, hw.held, hw.counting⟩
  | exchangeSlot hbuilt => exact ⟨ho.exchangeSlot hbuilt, hw.exchangeSlot hbuilt⟩
  | exchangeRaw hslot => exact ⟨ho.exchangeRaw hslot, hw.exchangeRaw ho hslot⟩
  | snapshot hraw => exact ⟨ho.snapshot hraw s.callback_generation_, hw.snapshot hraw⟩
  | @check r hidle hr hsafe =>
      have hnot := not_holding_of_isRetireSafe ho hw hidle hr hsafe
      have hidle' := hplain hidle ⟨rfl, rfl⟩
      refine ⟨ho.plain hidle' ⟨rfl, rfl⟩, hw.plain hidle' hw.device
        (fun h => Or.inr ⟨hw.running_of_ne (by rw [hidle]; nofun) h, nofun⟩) ?_⟩
      intro r' hr'
      obtain rfl := Control.counting.inj hr'
      exact ⟨hr, hnot⟩
  | @free r hcounting hcount =>
      exact ⟨ho.free (hplain hcounting ⟨rfl, rfl⟩) (hw.counting r hcounting).1,
        hw.free hcounting hcount⟩
  | spare hcounting hcount =>
      have hplain' := hplain hcounting ⟨rfl, rfl⟩
      exact ⟨ho.plain hplain' ⟨rfl, rfl⟩, hw.plain hplain' hw.device
        (fun h => Or.inr ⟨hw.running_of_ne (by rw [hcounting]; nofun) h, nofun⟩) nofun⟩
  | evict hidle hpending hempty =>
      exact ⟨ho.evict (hplain hidle ⟨rfl, rfl⟩) hempty, hw.generation, hw.device, hw.running,
        hw.loaded, hw.held, hw.counting⟩
  | start hidle hstopped =>
      have hidle' := hplain hidle ⟨rfl, rfl⟩
      have hnext := ho.plain hidle' (show Control.starting.Plain from ⟨rfl, rfl⟩)
      exact ⟨hnext.elsewhere _ _ _ _ _, hw.plain hidle' (fun _ => rfl) (fun _ => Or.inl rfl) nofun⟩
  | startRunning hstarting =>
      have hplain' := hplain hstarting ⟨rfl, rfl⟩
      have hnext := ho.plain hplain' (show Control.idle.Plain from ⟨rfl, rfl⟩)
      exact ⟨hnext.elsewhere _ _ _ _ _,
        hw.plain hplain' hw.device (fun _ => Or.inr ⟨rfl, nofun⟩) nofun⟩
  | stop hidle hrunning hout =>
      have hidle' := hplain hidle ⟨rfl, rfl⟩
      have hnext := ho.plain hidle' (show Control.stopping.Plain from ⟨rfl, rfl⟩)
      exact ⟨hnext.elsewhere _ _ _ _ _, hw.plain hidle' (fun h => absurd hout h) nofun nofun⟩
  | stopRunning hstopping =>
      have hplain' := hplain hstopping ⟨rfl, rfl⟩
      have hnext := ho.plain hplain' (show Control.idle.Plain from ⟨rfl, rfl⟩)
      have hstarted : s.started = true → False := by
        intro h
        rcases hw.running h with hstarting | ⟨-, hne⟩
        · rw [hstopping] at hstarting
          cases hstarting
        · exact hne hstopping
      exact ⟨hnext.elsewhere _ _ _ _ _,
        hw.plain hplain' hw.device (fun h => (hstarted h).elim) nofun⟩
  | clear hidle hstopped hempty =>
      have hout : s.callback = .out := by
        by_contra hinside
        have hrunning := hw.running_of_ne (by rw [hidle]; nofun) (hw.device hinside)
        rw [hstopped] at hrunning
        cases hrunning
      refine ⟨ho.clear (hplain hidle ⟨rfl, rfl⟩), hw.generation, hw.device,
        fun h => Or.inr ⟨hw.running_of_ne (by rw [hidle]; nofun) h, nofun⟩, ?_, ?_, nofun⟩
      · intro graph hholding
        change s.callback = _ at hholding
        rw [hout] at hholding
        cases hholding
      · intro graph hgraph
        change graph ∈ s.held at hgraph
        rw [hempty] at hgraph
        cases hgraph

end Watchers

section Result

variable {s : Engine} {debug_proxy : Bool}

theorem owners_launch : Owners (Engine.launch debug_proxy) := by
  refine ⟨⟨rfl, rfl⟩, ?_, List.nodup_nil, nofun, nofun, ?_, nofun, nofun⟩
  · rintro graph (hgraph | hgraph)
    · rw [owned_of_plain ⟨rfl, rfl⟩] at hgraph
      rcases hgraph with hgraph | hgraph <;> cases hgraph
    · cases hgraph
  · intro graph hgraph
    rw [owned_of_plain ⟨rfl, rfl⟩] at hgraph
    rcases hgraph with hgraph | hgraph <;> cases hgraph

theorem watchers_launch : Watchers (Engine.launch debug_proxy) :=
  ⟨iff_of_false (fun h => h rfl) (Nat.zero_ne_one), fun h => absurd rfl h, nofun, nofun,
    List.forall_mem_nil _, nofun⟩

theorem owned_of_usable (ho : Owners s) (hw : Watchers s) {graph : Nat} (husable : Usable s graph) :
    Owned s graph := by
  rcases husable with hholding | hheld | hactive | hraw
  · rcases hw.loaded graph hholding with hraw | ⟨next, nodes, hcontrol⟩ | ⟨r, hr, rfl, -⟩
    · exact ho.owned_of_raw hraw
    · refine Or.inr (Or.inl ?_)
      rw [hcontrol]
      rfl
    · exact Or.inr (Or.inr (Or.inr (List.mem_map_of_mem hr)))
  · rcases hw.held graph hheld with hactive | hold | hretired
    · exact Or.inl hactive
    · exact Or.inr (Or.inl hold)
    · exact Or.inr (Or.inr (Or.inr hretired))
  · exact Or.inl hactive
  · exact ho.owned_of_raw hraw

/-- Whatever the order of the callback, of the other threads and of the control
thread, no graph is freed that someone has or can get, and its rings are mapped. -/
theorem safe_of_run (hrun : Run.Reaches Step (Engine.launch debug_proxy) s) : Safe s := by
  have hkept : Owners s ∧ Watchers s :=
    Run.Reaches.invariant (P := fun s => Owners s ∧ Watchers s) hrun
      ⟨owners_launch, watchers_launch⟩ fun a b hstep ha => kept_of_step ha.1 ha.2 hstep
  exact ⟨fun graph husable hfreed =>
      hkept.1.freed graph hfreed (owned_of_usable hkept.1 hkept.2 husable),
    fun graph husable => hkept.1.rings graph (owned_of_usable hkept.1 hkept.2 husable)⟩

end Result

/-- A second graph comes in while a callback is in the first, which is freed when
the callback is over. -/
theorem safe_swapped : ∃ s : Engine, Run.Reaches Step (Engine.launch true) s ∧
    s.freed = [0] ∧ s.plugin_registry.Mapped 1 ∧ Safe s := by
  have hstart : Run.Reaches Step (Engine.launch true) (Engine.launch true) :=
    Relation.ReflTransGen.refl
  have hbuilt := hstart.tail (.build ["synth"] [("synth", true)] true rfl (by simp))
  have hraw := (hbuilt.tail (.exchangeSlot rfl)).tail (.exchangeRaw rfl)
  have hstarted := ((hraw.tail (.snapshot rfl)).tail (.start rfl rfl)).tail (.startRunning rfl)
  have hloaded := (hstarted.tail (.enter rfl rfl)).tail (.load rfl)
  have hbuilt := hloaded.tail (.build ["synth"] [("synth", true)] true rfl (by simp))
  have hraw := (hbuilt.tail (.exchangeSlot rfl)).tail (.exchangeRaw rfl)
  have hretired := hraw.tail (.snapshot rfl)
  have hexited := hretired.tail (.exit rfl)
  have hchecked := hexited.tail (.check (r := ⟨0, 1⟩) rfl List.mem_cons_self rfl)
  have hfreed := hchecked.tail (.free rfl rfl)
  have hevicted := hfreed.tail (.evict rfl rfl rfl)
  exact ⟨_, hevicted, rfl, ⟨"synth", rfl⟩, safe_of_run hevicted⟩

end DawProject.Audio.Reclaim
