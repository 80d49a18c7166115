import DawProject.Lib.Latest
import DawProject.Lib.Run
import Mathlib.Data.Prod.Lex
import Mathlib.Logic.Function.Basic
import Mathlib.Order.Fin.Basic

/-!
The capture of a plugin's state, in the control loop of `engine/src/main.cpp`:
a rebuild schedules one, the capture compares what the running child saves with
the hash in the document, and a hash that moved is written and broadcast, which
brings another rebuild. Several engines run a child of one vst3 node. A hash
that comes from another engine is never loaded into a running child.
-/

namespace DawProject.Engine

-- Engines, by the order of their Automerge actors, and the bytes of a state.
variable {E B : Type}

/-- One `setProcessorState`. Automerge orders the writes of a field by their
counter, then by their actor. -/
structure StateChange (E : Type) where
  counter : Nat
  author : E
  state_hash : String
  state_version : Int
deriving DecidableEq, Repr

def StateChange.key (c : StateChange E) : Nat ×ₗ E := toLex (c.counter, c.author)

/-- An engine with its child of the node. -/
structure EngineNode (E B : Type) where
  child : B
  /-- The writes in the document, the last applied first. -/
  writes : List (StateChange E) := []
  /-- `doc_version` is ahead of `last_built_version`. -/
  build_due : Bool := false
  state_capture_due : Bool := false
  /-- What a capture under way read of the document. -/
  snap : Option (String × Int) := none
deriving DecidableEq, Repr

/-- The engines of one project. `authored` is history: no step reads it. -/
structure Engines (E B : Type) where
  node : E → EngineNode E B
  sent : List (StateChange E) := []
  authored : E → Nat := fun _ => 0

def Engines.put [DecidableEq E] (s : Engines E B) (e : E) (n : EngineNode E B) : Engines E B :=
  { s with node := Function.update s.node e n }

inductive CaptureStep (E : Type) where
  | deliver (e : E) (c : StateChange E)
  | rebuild (e : E)
  | snapshot (e : E)
  /-- `counter` is the next operation of the document; `saved` tells whether
  `saveState` and `writeBlobToAssets` succeeded. -/
  | capture (e : E) (counter : Nat) (saved : Bool)
deriving DecidableEq, Repr

section System

variable [LinearOrder E] (sha256Hex : B → String)

/-- The write that a reader of the document sees. -/
def latest (writes : List (StateChange E)) : Option (StateChange E) :=
  writes.foldr (fun c last => Latest.offer StateChange.key last c) none

/-- `state_hash` and `state_version` of the node, with their defaults. -/
def readState (writes : List (StateChange E)) : String × Int :=
  match latest writes with
  | none => ("", 0)
  | some c => (c.state_hash, c.state_version)

/-- Any change that was sent may be delivered, at any time and again. -/
def Engines.step (s : Engines E B) : CaptureStep E → Option (Engines E B)
  | .deliver e c =>
      if c ∈ s.sent then
        some (s.put e { s.node e with
          writes := if c ∈ (s.node e).writes then (s.node e).writes else c :: (s.node e).writes
          build_due := true })
      else none
  | .rebuild e =>
      if (s.node e).build_due && (s.node e).snap.isNone then
        some (s.put e { s.node e with build_due := false, state_capture_due := true })
      else none
  | .snapshot e =>
      if (s.node e).state_capture_due && (s.node e).snap.isNone then
        some (s.put e { s.node e with
          state_capture_due := false, snap := some (readState (s.node e).writes) })
      else none
  | .capture e counter saved =>
      match (s.node e).snap with
      | none => none
      | some (state_hash, state_version) =>
          let sha := sha256Hex (s.node e).child
          if !saved || sha == state_hash then
            some (s.put e { s.node e with snap := none })
          else if ∀ c ∈ (s.node e).writes, c.counter < counter then
            let change : StateChange E := ⟨counter, e, sha, state_version + 1⟩
            some { s.put e { s.node e with
                writes := change :: (s.node e).writes, snap := none } with
              sent := change :: s.sent
              authored := Function.update s.authored e (s.authored e + 1) }
          else none

def CaptureStepped (s next : Engines E B) : Prop := ∃ l, s.step sha256Hex l = some next

/-- In every run each engine writes the state at most once more. -/
def Settles (start : Engines E B) : Prop :=
  ∀ s, Run.Reaches (CaptureStepped sha256Hex) start s → ∀ e, s.authored e ≤ start.authored e + 1

/-- All children hold a state of the same hash, and a write of another one that
has still to arrive somewhere loses to one that is there. -/
def Calm (s : Engines E B) : Prop :=
  ∃ sha, (∀ e, sha256Hex (s.node e).child = sha) ∧
    ∀ e, ∀ c ∈ s.sent, c ∉ (s.node e).writes →
      c.state_hash = sha ∨ ∃ b ∈ (s.node e).writes, c.key < b.key

end System

section Register

variable [LinearOrder E] {c : StateChange E} {writes : List (StateChange E)} {sha : String}

theorem latest_cons (c : StateChange E) (writes : List (StateChange E)) :
    latest (c :: writes) = Latest.offer StateChange.key (latest writes) c := rfl

theorem isLatest_latest (writes : List (StateChange E)) :
    Latest.IsLatest StateChange.key writes (latest writes) := by
  induction writes with
  | nil => rfl
  | cons c writes ih => exact ih.offer c

theorem readState_cons_of_lower (hlower : ∃ b ∈ writes, c.key < b.key) :
    readState (c :: writes) = readState writes := by
  obtain ⟨b, hb, hlower⟩ := hlower
  obtain ⟨kept, hkept, -, hle⟩ := (isLatest_latest writes).le hb
  have hsame : latest (c :: writes) = latest writes := by
    rw [latest_cons, hkept, Latest.offer, if_pos (hlower.trans_le hle)]
  unfold readState
  rw [hsame]

/-- A write of the hash that is read leaves it. -/
theorem readState_cons_of_same (hhash : c.state_hash = sha) (hread : (readState writes).1 = sha) :
    (readState (c :: writes)).1 = sha := by
  have hstep : latest (c :: writes) = latest writes ∨ latest (c :: writes) = some c := by
    rw [latest_cons]
    cases latest writes with
    | none => exact Or.inr rfl
    | some kept =>
        rw [Latest.offer]
        split
        · exact Or.inl rfl
        · exact Or.inr rfl
  unfold readState
  rcases hstep with hkept | hnew
  · rw [hkept]
    exact hread
  · rw [hnew]
    exact hhash

/-- The write of an engine is above all that its document has. -/
theorem readState_cons_of_counter (hcounter : ∀ b ∈ writes, b.counter < c.counter) :
    readState (c :: writes) = (c.state_hash, c.state_version) := by
  have hnew : latest (c :: writes) = some c := by
    rw [latest_cons]
    cases hlatest : latest writes with
    | none => rfl
    | some kept =>
        have hlast := isLatest_latest writes
        rw [hlatest] at hlast
        rw [Latest.offer, if_neg]
        intro hlower
        have hlt := hcounter kept hlast.1
        rcases Prod.Lex.toLex_lt_toLex.mp hlower with hless | ⟨heq, -⟩
        · exact absurd hless (Nat.lt_asymm hlt)
        · exact absurd heq.symm hlt.ne
  unfold readState
  rw [hnew]

end Register

section Calm

variable [LinearOrder E] {sha256Hex : B → String} {sha : String} {sent : List (StateChange E)}

/-- What is still to arrive at an engine does not change the hash it reads
once that is `sha`. -/
def EngineNode.Awaits (sha : String) (sent : List (StateChange E)) (n : EngineNode E B) : Prop :=
  ∀ c ∈ sent, c ∉ n.writes → c.state_hash = sha ∨ ∃ b ∈ n.writes, c.key < b.key

/-- The document of an engine has the hash, and so has a capture under way. -/
def EngineNode.Holds (sha : String) (n : EngineNode E B) : Prop :=
  (readState n.writes).1 = sha ∧ ∀ read ∈ n.snap, read.1 = sha

/-- An engine that has written the state since `before` holds the hash. -/
structure EngineOk (sha256Hex : B → String) (sha : String) (sent : List (StateChange E))
    (before now : Nat) (n : EngineNode E B) : Prop where
  child : sha256Hex n.child = sha
  awaits : n.Awaits sha sent
  written : now = before ∨ now = before + 1 ∧ n.Holds sha

variable {before now : Nat} {n : EngineNode E B}

theorem EngineOk.deliver (hok : EngineOk sha256Hex sha sent before now n) {c : StateChange E}
    (hsent : c ∈ sent) (build_due : Bool) :
    EngineOk sha256Hex sha sent before now { n with
      writes := if c ∈ n.writes then n.writes else c :: n.writes
      build_due := build_due } := by
  split
  · exact ⟨hok.child, hok.awaits, hok.written⟩
  · rename_i hnew
    refine ⟨hok.child, ?_, ?_⟩
    · intro d hd hout
      apply (hok.awaits d hd fun hin => hout (List.mem_cons_of_mem c hin)).imp_right
      rintro ⟨b, hb, hlower⟩
      exact ⟨b, List.mem_cons_of_mem c hb, hlower⟩
    · apply hok.written.imp_right
      rintro ⟨hnow, hread, hsnap⟩
      refine ⟨hnow, ?_, hsnap⟩
      rcases hok.awaits c hsent hnew with hhash | hlower
      · exact readState_cons_of_same hhash hread
      · rw [readState_cons_of_lower hlower]
        exact hread

theorem EngineOk.snapshot (hok : EngineOk sha256Hex sha sent before now n) :
    EngineOk sha256Hex sha sent before now { n with
      state_capture_due := false, snap := some (readState n.writes) } := by
  refine ⟨hok.child, hok.awaits, ?_⟩
  apply hok.written.imp_right
  rintro ⟨hnow, hread, -⟩
  refine ⟨hnow, hread, ?_⟩
  rintro read hsnap
  obtain rfl := Option.some.inj hsnap
  exact hread

theorem EngineOk.skip (hok : EngineOk sha256Hex sha sent before now n) :
    EngineOk sha256Hex sha sent before now { n with snap := none } := by
  refine ⟨hok.child, hok.awaits, ?_⟩
  apply hok.written.imp_right
  rintro ⟨hnow, hread, -⟩
  exact ⟨hnow, hread, nofun⟩

/-- An engine that writes the state had not written it before. -/
theorem EngineOk.capture (hok : EngineOk sha256Hex sha sent before now n) {c : StateChange E}
    {read : String × Int} (hsnap : n.snap = some read) (hmoved : sha256Hex n.child ≠ read.1)
    (hhash : c.state_hash = sha256Hex n.child)
    (hcounter : ∀ b ∈ n.writes, b.counter < c.counter) :
    EngineOk sha256Hex sha (c :: sent) before (now + 1) { n with
      writes := c :: n.writes, snap := none } := by
  have hsha : c.state_hash = sha := hhash.trans hok.child
  refine ⟨hok.child, ?_, Or.inr ⟨?_, ?_, nofun⟩⟩
  · intro d hd hout
    rcases List.mem_cons.mp hd with rfl | hold
    · exact Or.inl hsha
    · apply (hok.awaits d hold fun hin => hout (List.mem_cons_of_mem c hin)).imp_right
      rintro ⟨b, hb, hlower⟩
      exact ⟨b, List.mem_cons_of_mem c hb, hlower⟩
  · rcases hok.written with hnow | ⟨-, -, hread⟩
    · rw [hnow]
    · rw [hok.child, hread read hsnap] at hmoved
      exact absurd rfl hmoved
  · rw [readState_cons_of_counter hcounter]
    exact hsha

/-- Another engine writes the same hash. -/
theorem EngineOk.hear (hok : EngineOk sha256Hex sha sent before now n) {c : StateChange E}
    (hhash : c.state_hash = sha) : EngineOk sha256Hex sha (c :: sent) before now n := by
  refine ⟨hok.child, ?_, hok.written⟩
  intro d hd hout
  rcases List.mem_cons.mp hd with rfl | hold
  · exact Or.inl hhash
  · exact hok.awaits d hold hout

variable {start s next : Engines E B}

theorem engineOk_of_step
    (hok : ∀ e, EngineOk sha256Hex sha s.sent (start.authored e) (s.authored e) (s.node e))
    (hstep : CaptureStepped sha256Hex s next) :
    ∀ e, EngineOk sha256Hex sha next.sent (start.authored e) (next.authored e) (next.node e) := by
  -- a step that touches the node of one engine only
  have honly : ∀ p n, EngineOk sha256Hex sha s.sent (start.authored p) (s.authored p) n →
      ∀ e, EngineOk sha256Hex sha s.sent (start.authored e) (s.authored e)
        (Function.update s.node p n e) := by
    intro p n hn e
    rcases eq_or_ne e p with rfl | hne
    · rw [Function.update_self]
      exact hn
    · rw [Function.update_of_ne hne]
      exact hok e
  obtain ⟨l, hstep⟩ := hstep
  cases l with
  | deliver p c =>
      simp only [Engines.step] at hstep
      split at hstep
      · rename_i hsent
        obtain rfl := Option.some.inj hstep
        exact honly p _ ((hok p).deliver hsent true)
      · cases hstep
  | rebuild p =>
      simp only [Engines.step] at hstep
      split at hstep
      · obtain rfl := Option.some.inj hstep
        exact honly p _ ⟨(hok p).child, (hok p).awaits, (hok p).written⟩
      · cases hstep
  | snapshot p =>
      simp only [Engines.step] at hstep
      split at hstep
      · obtain rfl := Option.some.inj hstep
        exact honly p _ (hok p).snapshot
      · cases hstep
  | capture p counter saved =>
      simp only [Engines.step] at hstep
      split at hstep
      · cases hstep
      · rename_i state_hash state_version hsnap
        split at hstep
        · obtain rfl := Option.some.inj hstep
          exact honly p _ (hok p).skip
        · rename_i hmoved
          simp only [Bool.or_eq_true, beq_iff_eq, not_or] at hmoved
          split at hstep
          · rename_i hcounter
            obtain rfl := Option.some.inj hstep
            intro e
            dsimp only [Engines.put]
            rcases eq_or_ne e p with rfl | hne
            · rw [Function.update_self, Function.update_self]
              exact (hok e).capture hsnap hmoved.2 rfl hcounter
            · rw [Function.update_of_ne hne, Function.update_of_ne hne]
              exact (hok e).hear (hok p).child
          · cases hstep

/-- From a calm state the capture ends: no engine writes the state twice. -/
theorem settles_of_calm (hcalm : Calm sha256Hex start) : Settles sha256Hex start := by
  obtain ⟨sha, hchild, hawaits⟩ := hcalm
  intro s hrun e
  have hok : ∀ e, EngineOk sha256Hex sha s.sent (start.authored e) (s.authored e) (s.node e) := by
    apply Run.Reaches.invariant hrun
    · exact fun e => ⟨hchild e, hawaits e, Or.inl rfl⟩
    · exact fun a b hstep hok => engineOk_of_step hok hstep
  rcases (hok e).written with hsame | ⟨honce, -⟩
  · rw [hsame]
    exact Nat.le_succ _
  · exact honce.le

end Calm

section Endless

variable [LinearOrder E] {sha256Hex : B → String} {s : Engines E B} {p q : E}

@[simp] theorem put_node_self (n : EngineNode E B) : (s.put p n).node p = n := by
  simp [Engines.put]

theorem put_node_of_ne (n : EngineNode E B) (hne : q ≠ p) : (s.put p n).node q = s.node q := by
  simp [Engines.put, hne]

@[simp] theorem put_put (n n' : EngineNode E B) : (s.put p n).put p n' = s.put p n' := by
  simp [Engines.put]

omit [LinearOrder E] in
theorem exists_counter (writes : List (StateChange E)) : ∃ n, ∀ c ∈ writes, c.counter < n := by
  induction writes with
  | nil => exact ⟨0, nofun⟩
  | cons c writes ih =>
      obtain ⟨n, hn⟩ := ih
      refine ⟨max n (c.counter + 1), ?_⟩
      intro b hb
      rcases List.mem_cons.mp hb with rfl | hold
      · omega
      · have := hn b hold
        omega

/-- A rebuild is due at `p`, whose child holds another state than its document
names, and no capture is under way at `p` or `q`. -/
structure OnTurn (sha256Hex : B → String) (p q : E) (s : Engines E B) : Prop where
  due : (s.node p).build_due = true
  idle : (s.node p).snap = none
  other : (s.node q).snap = none
  moved : sha256Hex (s.node p).child ≠ (readState (s.node p).writes).1

/-- `p` writes its state and `q` receives it: it is the turn of `q`. -/
theorem OnTurn.exchange (hturn : OnTurn sha256Hex p q s)
    (hdiffer : sha256Hex (s.node p).child ≠ sha256Hex (s.node q).child) :
    ∃ t, Run.Reaches (CaptureStepped sha256Hex) s t ∧ OnTurn sha256Hex q p t ∧
      (∀ e, (t.node e).child = (s.node e).child) ∧
      t.authored = Function.update s.authored p (s.authored p + 1) := by
  obtain ⟨hdue, hidle, hother, hmoved⟩ := hturn
  have hne : q ≠ p := by
    rintro rfl
    exact hdiffer rfl
  obtain ⟨counter, hcounter⟩ := exists_counter ((s.node p).writes ++ (s.node q).writes)
  have hmine : ∀ c ∈ (s.node p).writes, c.counter < counter :=
    fun c hc => hcounter c (List.mem_append_left _ hc)
  have hyours : ∀ c ∈ (s.node q).writes, c.counter < counter :=
    fun c hc => hcounter c (List.mem_append_right _ hc)
  let c : StateChange E :=
    ⟨counter, p, sha256Hex (s.node p).child, (readState (s.node p).writes).2 + 1⟩
  let built : Engines E B :=
    s.put p { s.node p with build_due := false, state_capture_due := true }
  let reading : Engines E B :=
    s.put p { s.node p with
      build_due := false, state_capture_due := false
      snap := some (readState (s.node p).writes) }
  let written : Engines E B :=
    { s.put p { s.node p with
        build_due := false, state_capture_due := false
        writes := c :: (s.node p).writes, snap := none } with
      sent := c :: s.sent
      authored := Function.update s.authored p (s.authored p + 1) }
  have hbuild : CaptureStepped sha256Hex s built := by
    refine ⟨.rebuild p, ?_⟩
    simp [Engines.step, hdue, hidle, built]
  have hsnap : CaptureStepped sha256Hex built reading := by
    refine ⟨.snapshot p, ?_⟩
    simp [Engines.step, hidle, built, reading]
  have hwrite : CaptureStepped sha256Hex reading written := by
    refine ⟨.capture p counter true, ?_⟩
    simp only [Engines.step, reading, put_node_self, Bool.not_true, Bool.false_or, beq_iff_eq,
      if_neg hmoved, if_pos hmine, put_put]
    rfl
  have hreceive : CaptureStepped sha256Hex written
      (written.put q { s.node q with writes := c :: (s.node q).writes, build_due := true }) := by
    have hnew : c ∉ (s.node q).writes := fun hin => absurd (hyours c hin) (Nat.lt_irrefl _)
    refine ⟨.deliver q c, ?_⟩
    simp [Engines.step, hnew, hne, written, Engines.put]
  refine ⟨_, (((Relation.ReflTransGen.single hbuild).tail hsnap).tail hwrite).tail hreceive,
    ⟨?_, ?_, ?_, ?_⟩, ?_, rfl⟩
  · rw [put_node_self]
  · rw [put_node_self]
    exact hother
  · rw [put_node_of_ne _ hne.symm]
    simp [written, Engines.put]
  · rw [put_node_self]
    dsimp only
    rw [readState_cons_of_counter hyours]
    exact hdiffer.symm
  · intro e
    rcases eq_or_ne e q with rfl | hq
    · rw [put_node_self]
    · rw [put_node_of_ne _ hq]
      rcases eq_or_ne e p with rfl | hp
      · simp [written, Engines.put]
      · simp [written, Engines.put, hp]

/-- Two engines whose children hold different states write them in turn for
ever: the capture does not end. -/
theorem OnTurn.writes_without_end (hturn : OnTurn sha256Hex p q s)
    (hdiffer : sha256Hex (s.node p).child ≠ sha256Hex (s.node q).child) (n : Nat) :
    ∃ t, Run.Reaches (CaptureStepped sha256Hex) s t ∧ t.authored p = s.authored p + n := by
  induction n generalizing s with
  | zero => exact ⟨s, Relation.ReflTransGen.refl, rfl⟩
  | succ n ih =>
      have hne : p ≠ q := by
        rintro rfl
        exact hdiffer rfl
      obtain ⟨mid, hfirst, hback, hchild, hmid⟩ := hturn.exchange hdiffer
      obtain ⟨after, hsecond, hagain, hchild', hafter⟩ := hback.exchange (by
        rw [hchild, hchild]
        exact hdiffer.symm)
      obtain ⟨t, hrest, ht⟩ := ih hagain (by
        rw [hchild', hchild', hchild, hchild]
        exact hdiffer)
      refine ⟨t, (hfirst.trans hsecond).trans hrest, ?_⟩
      rw [ht, hafter, Function.update_of_ne hne, hmid, Function.update_self]
      omega

theorem OnTurn.not_settles (hturn : OnTurn sha256Hex p q s)
    (hdiffer : sha256Hex (s.node p).child ≠ sha256Hex (s.node q).child) :
    ¬Settles sha256Hex s := by
  intro hsettles
  obtain ⟨t, hrun, ht⟩ := hturn.writes_without_end hdiffer 2
  have hle := hsettles t hrun p
  omega

end Endless

/-- Two engines after an edit, with the states of their children. -/
def twoEngines (states : Fin 2 → String) : Engines (Fin 2) String where
  node e := { child := states e, build_due := true }

/-- One state in both children, and a write of another one on its way that is
older than the one in both documents. -/
def olderOnItsWay : Engines (Fin 2) String where
  node _ := { child := "a", writes := [⟨2, ⟨0, Nat.zero_lt_two⟩, "a", 1⟩], build_due := true }
  sent := [⟨1, ⟨1, Nat.one_lt_two⟩, "b", 1⟩]

theorem settles_olderOnItsWay : Settles id olderOnItsWay := by
  apply settles_of_calm
  refine ⟨"a", fun _ => rfl, ?_⟩
  intro e c hc _
  obtain rfl := List.mem_singleton.mp hc
  right
  refine ⟨⟨2, 0, "a", 1⟩, List.mem_cons_self, ?_⟩
  exact Prod.Lex.toLex_lt_toLex.mpr (Or.inl Nat.one_lt_two)

/-- The children of the two engines hold different states. -/
theorem not_settles_twoStates :
    ¬∀ start : Engines (Fin 2) String, Settles id start := by
  intro hall
  have hturn : OnTurn id 0 1 (twoEngines fun e => if e = 0 then "a" else "b") :=
    ⟨rfl, rfl, rfl, by decide⟩
  exact hturn.not_settles (by decide) (hall _)

end DawProject.Engine
