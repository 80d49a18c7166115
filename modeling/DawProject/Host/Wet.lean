import DawProject.Host.Ring
import Mathlib.Algebra.Ring.Int.Defs

/-!
What the node returns. A wet block is the whole output of one call of the
plugin on the audio deposited for that block, and every other block past the
fill is the dry audio of the same block, in every run where no block that is
already stamped is collected while a restarted child processes it again, or
left half written by the death of that child.
-/

namespace DawProject.Host

variable {α : Type}

/-- The block the plugin is called for. -/
def Child.inCall : Child α → Option Nat
  | .processing b _ _ => some b
  | _ => none

/-- The block whose output the audio thread tests or copies. -/
def Engine.collects (seq : Nat) : Engine α → Option Nat
  | .published node => if node.bypass then none else some (seq - node.depth)
  | .copying node .wet _ _ => some (seq - node.depth)
  | _ => none

/-- The child is in a call for a block whose output is already stamped. -/
def Bridge.Reprocesses (s : Bridge α) (b : Nat) : Prop :=
  s.child.inCall = some b ∧ s.ring.out_slot_seq (slotOf b) = b

/-- The audio thread collects the block that the child processes again. -/
def Bridge.Overlap (s : Bridge α) : Prop :=
  ∃ b, s.Reprocesses b ∧ s.engine.collects s.ring.input_seq = some b

/-- The output of one finished call that read the audio of the block only. -/
def Bridge.WetBlock (s : Bridge α) (b : Nat) (output : Samples α) : Prop :=
  ∃ call ∈ s.calls, call.block = b ∧ (∀ i < kBlockSamples, call.written i = some (output i)) ∧
    ∀ p ∈ call.read, p.2 = s.blocks b p.1

def Bridge.DryBlock (s : Bridge α) (b : Nat) (output : Samples α) : Prop :=
  ∀ i < kBlockSamples, output i = s.blocks b i

/-- What a call of the node may return. -/
def Bridge.Honest [Zero α] (s : Bridge α) (r : Returned α) : Prop :=
  match r.source with
  | .fill => r.seq ≤ r.node.depth ∧ r.output = fun _ => 0
  | .bypass => r.node.depth < r.seq ∧ r.node.bypass = true ∧ s.DryBlock r.want r.output
  | .wet => r.node.depth < r.seq ∧ r.node.bypass = false ∧ s.WetBlock r.want r.output
  | .dry => r.node.depth < r.seq ∧ r.node.bypass = false ∧ s.DryBlock r.want r.output

/-- Every block returned is what it should be, and the dry ones are counted. -/
structure Bridge.Integrity [Zero α] (s : Bridge α) : Prop where
  returned : ∀ r ∈ s.returned, s.Honest r
  missed : s.missed = s.returned.countP fun r => r.source = .dry

/-- A step that does not collect a block from under a second call for it, and
does not cut that call short. -/
inductive CleanStep [Zero α] (s t : Bridge α) : Prop where
  | engine (hstep : EngineStep s t) (hapart : ¬ s.Overlap)
  | child (hstep : ChildStep s t) (hapart : ¬ s.Overlap)
  | die (hstep : Die s t) (hwhole : ∀ b, ¬ s.Reprocesses b)

section Slots

theorem slotOf_ne {a b : Nat} (hne : a ≠ b) (hab : a < b + 8) (hba : b < a + 8) :
    slotOf a ≠ slotOf b := by
  unfold slotOf kRingSlots
  omega

theorem storeAt_slot (slots : Nat → Samples α) (slot i : Nat) (x : α) :
    storeAt slots slot i x slot = Function.update (slots slot) i x :=
  Function.update_self slot _ slots

theorem storeAt_other (slots : Nat → Samples α) {slot other : Nat} (i : Nat) (x : α)
    (hne : other ≠ slot) : storeAt slots slot i x other = slots other :=
  Function.update_of_ne hne _ slots

end Slots

section Invariant

/-- The child is at block `b` of a backlog up to `newest`. -/
structure AtBlock (input_seq : Nat) (out_slot_seq : Nat → Nat) (b newest : Nat) : Prop where
  one_le : 1 ≤ b
  newest_le : newest ≤ input_seq
  le_succ : b ≤ newest + 1
  stamps : ∀ slot, out_slot_seq slot < b + kRingSlots

/-- What the call in flight has read is the audio of its block, as long as the
block can still be collected, and what it has written is in the slot. -/
structure CallOk (input_seq : Nat) (audio out : Samples α) (b : Nat) (call : Call α) : Prop where
  block : call.block = b
  read : input_seq ≤ b + 6 → ∀ p ∈ call.read, p.2 = audio p.1
  written : ∀ i x, call.written i = some x → out i = x

def ChildOk (s : Bridge α) : Child α → Prop
  | .dead => True
  | .polling last_in => last_in ≤ s.ring.input_seq
  | .backlog b newest => AtBlock s.ring.input_seq s.ring.out_slot_seq b newest
  | .draining b newest _ => AtBlock s.ring.input_seq s.ring.out_slot_seq b newest ∧ b ≤ newest
  | .processing b newest call =>
      (AtBlock s.ring.input_seq s.ring.out_slot_seq b newest ∧ b ≤ newest) ∧
        CallOk s.ring.input_seq (s.blocks b) (s.ring.out_ (slotOf b)) b call
  | .processed b newest | .confirmed b newest =>
      (AtBlock s.ring.input_seq s.ring.out_slot_seq b newest ∧ b ≤ newest) ∧
        (s.ring.input_seq ≤ b + 6 → s.WetBlock b (s.ring.out_ (slotOf b)))

/-- The samples copied so far. -/
def CopyOk (s : Bridge α) (node : ProxyNode) (i : Nat) (output : Samples α) : Source → Prop
  | .fill => False
  | .bypass => node.bypass = true ∧
      ∀ j < i, output j = s.blocks (s.ring.input_seq - node.depth) j
  | .dry => node.bypass = false ∧
      ∀ j < i, output j = s.blocks (s.ring.input_seq - node.depth) j
  | .wet => node.bypass = false ∧
      s.ring.out_slot_seq (slotOf (s.ring.input_seq - node.depth)) =
        s.ring.input_seq - node.depth ∧
      (s.child.inCall ≠ some (s.ring.input_seq - node.depth) →
        ∀ j < i, output j = s.ring.out_ (slotOf (s.ring.input_seq - node.depth)) j)

def EngineOk (s : Bridge α) : Engine α → Prop
  | .idle => True
  | .storing _ input _ i => i ≤ kBlockSamples ∧ s.blocks (s.ring.input_seq + 1) = input ∧
      ∀ j < i, s.ring.in_ (slotOf (s.ring.input_seq + 1)) j = input j
  | .emitting _ _ | .publishing _ => ∀ j < kBlockSamples,
      s.ring.in_ (slotOf (s.ring.input_seq + 1)) j = s.blocks (s.ring.input_seq + 1) j
  | .published _ => True
  | .copying node source i output => node.depth < s.ring.input_seq ∧ i ≤ kBlockSamples ∧
      CopyOk s node i output source

structure Intact [Zero α] (s : Bridge α) : Prop where
  deposits : ∀ n, 1 ≤ n → n ≤ s.ring.input_seq → s.ring.input_seq ≤ n + 6 →
    ∀ i < kBlockSamples, s.ring.in_ (slotOf n) i = s.blocks n i
  engine : EngineOk s s.engine
  child : ChildOk s s.child
  stamps : ∀ slot, s.ring.out_slot_seq slot ≤ s.ring.input_seq
  wet : ∀ b, 1 ≤ b → s.ring.input_seq ≤ b + 6 → s.ring.out_slot_seq (slotOf b) = b →
    s.child.inCall ≠ some b → s.WetBlock b (s.ring.out_ (slotOf b))
  returned : ∀ r ∈ s.returned, r.seq ≤ s.ring.input_seq ∧ s.Honest r
  missed : s.missed = s.returned.countP fun r => r.source = .dry

end Invariant

variable {s t : Bridge α}

/-- A block stays wet while calls are added and its audio is not replaced. -/
theorem Bridge.WetBlock.mono {b : Nat} {output : Samples α} (hwet : s.WetBlock b output)
    (hcalls : ∀ call ∈ s.calls, call ∈ t.calls) (hblocks : t.blocks b = s.blocks b) :
    t.WetBlock b output := by
  obtain ⟨call, hcall, hblock, hwritten, hread⟩ := hwet
  refine ⟨call, hcalls call hcall, hblock, hwritten, ?_⟩
  rw [hblocks]
  exact hread

theorem push_eq (s : Bridge α) (ev : MidiEvent) :
    ∃ midi pushed, s.push ev =
      { s with ring := { s.ring with midi := midi }, pushed := pushed } := by
  unfold Bridge.push pushMidiEvent
  split
  · exact ⟨_, _, rfl⟩
  · exact ⟨_, _, rfl⟩

variable [Zero α]

theorem Intact.start : Intact (Bridge.start α) := by
  refine ⟨?_, trivial, Nat.le_refl 0, fun _ => Nat.le_refl 0, ?_, nofun, rfl⟩
  · intro n hone hle
    exact absurd hone (by simp only [Bridge.start] at hle; omega)
  · intro b hone _ hstamp
    exact absurd hstamp (by simp only [Bridge.start]; omega)

/-- The events on the way say nothing of the audio. -/
theorem Intact.midi (hs : Intact s) (midi pushed : List Scheduled) :
    Intact { s with ring := { s.ring with midi := midi }, pushed := pushed } :=
  ⟨hs.deposits, hs.engine, hs.child, hs.stamps, hs.wet, hs.returned,
    hs.missed⟩

theorem Intact.push (hs : Intact s) (ev : MidiEvent) : Intact (s.push ev) := by
  obtain ⟨midi, pushed, heq⟩ := push_eq s ev
  rw [heq]
  exact hs.midi midi pushed

omit [Zero α] in
theorem ChildOk.progress {child : Child α} (hok : ChildOk s child)
    (hseq : s.ring.input_seq ≤ t.ring.input_seq)
    (hstamps : t.ring.out_slot_seq = s.ring.out_slot_seq) (hout : t.ring.out_ = s.ring.out_)
    (hcalls : t.calls = s.calls)
    (hblocks : ∀ b ≤ s.ring.input_seq, t.blocks b = s.blocks b) : ChildOk t child := by
  have hat : ∀ {b newest}, AtBlock s.ring.input_seq s.ring.out_slot_seq b newest →
      AtBlock t.ring.input_seq t.ring.out_slot_seq b newest := by
    rintro b newest ⟨hone, hnewest, hle, hlt⟩
    refine ⟨hone, Nat.le_trans hnewest hseq, hle, ?_⟩
    rw [hstamps]
    exact hlt
  have hwet : ∀ {b newest}, AtBlock s.ring.input_seq s.ring.out_slot_seq b newest → b ≤ newest →
      (s.ring.input_seq ≤ b + 6 → s.WetBlock b (s.ring.out_ (slotOf b))) →
      (t.ring.input_seq ≤ b + 6 → t.WetBlock b (t.ring.out_ (slotOf b))) := by
    intro b newest hb hle hold hnear
    rw [hout]
    refine (hold (Nat.le_trans hseq hnear)).mono ?_ (hblocks b (Nat.le_trans hle hb.newest_le))
    rw [hcalls]
    exact fun call hcall => hcall
  cases child with
  | dead => trivial
  | polling last_in => exact Nat.le_trans hok hseq
  | backlog b newest => exact hat hok
  | draining b newest events => exact ⟨hat hok.1, hok.2⟩
  | processing b newest call =>
      obtain ⟨⟨hb, hle⟩, hblock, hread, hwritten⟩ := hok
      refine ⟨⟨hat hb, hle⟩, hblock, ?_, ?_⟩
      · intro hnear
        rw [hblocks b (Nat.le_trans hle hb.newest_le)]
        exact hread (Nat.le_trans hseq hnear)
      · rw [hout]
        exact hwritten
  | processed b newest => exact ⟨⟨hat hok.1.1, hok.1.2⟩, hwet hok.1.1 hok.1.2 hok.2⟩
  | confirmed b newest => exact ⟨⟨hat hok.1.1, hok.1.2⟩, hwet hok.1.1 hok.1.2 hok.2⟩

/-- What was returned stays honest while calls are added and the audio of the
deposited blocks is kept. -/
theorem Bridge.Honest.mono {r : Returned α} (hr : s.Honest r)
    (hseq : r.seq ≤ s.ring.input_seq) (hcalls : ∀ call ∈ s.calls, call ∈ t.calls)
    (hblocks : ∀ b ≤ s.ring.input_seq, t.blocks b = s.blocks b) : t.Honest r := by
  have hwant : t.blocks r.want = s.blocks r.want := hblocks _ (by unfold Returned.want; omega)
  unfold Bridge.Honest at hr ⊢
  unfold Bridge.DryBlock at hr ⊢
  rw [hwant]
  cases hsource : r.source with
  | fill =>
      rw [hsource] at hr
      exact hr
  | bypass =>
      rw [hsource] at hr
      exact hr
  | dry =>
      rw [hsource] at hr
      exact hr
  | wet =>
      rw [hsource] at hr
      exact ⟨hr.1, hr.2.1, hr.2.2.mono hcalls hwant⟩

theorem Intact.process (hs : Intact s) (node : ProxyNode) (input : Samples α)
    (notes : List MidiEvent) :
    Intact
      { s with
        engine := .storing node input notes 0
        blocks := Function.update s.blocks (s.ring.input_seq + 1) input } := by
  have hblocks : ∀ b ≤ s.ring.input_seq,
      Function.update s.blocks (s.ring.input_seq + 1) input b = s.blocks b := by
    intro b hb
    exact Function.update_of_ne (by omega) _ _
  refine ⟨?_, ⟨Nat.zero_le _, Function.update_self _ _ _, nofun⟩,
    hs.child.progress (Nat.le_refl _) rfl rfl rfl hblocks, hs.stamps, ?_, ?_, hs.missed⟩
  · intro n hone hn hnear i hi
    dsimp only
    rw [hblocks n hn]
    exact hs.deposits n hone hn hnear i hi
  · intro b hone hnear hstamp hcall
    have hb : b ≤ s.ring.input_seq := by
      rw [← hstamp]
      exact hs.stamps _
    exact (hs.wet b hone hnear hstamp hcall).mono (fun _ hmem => hmem) (hblocks b hb)
  · intro r hr
    obtain ⟨hseq, hhonest⟩ := hs.returned r hr
    exact ⟨hseq, hhonest.mono hseq (fun _ hmem => hmem) hblocks⟩

theorem Intact.store (hs : Intact s) {node : ProxyNode} {input : Samples α}
    {notes : List MidiEvent} {i : Nat} (hengine : s.engine = .storing node input notes i)
    (hi : i < kBlockSamples) :
    Intact
      { s with
        engine := .storing node input notes (i + 1)
        ring := { s.ring with
          in_ := storeAt s.ring.in_ (slotOf (s.ring.input_seq + 1)) i (input i) } } := by
  have hok := hs.engine
  rw [hengine] at hok
  obtain ⟨-, hinput, hstored⟩ := hok
  refine ⟨?_, ⟨hi, hinput, ?_⟩, hs.child, hs.stamps, hs.wet, hs.returned, hs.missed⟩
  · intro n hone hn hnear j hj
    dsimp only at hn hnear ⊢
    rw [storeAt_other _ _ _ (slotOf_ne (by omega) (by omega) (by omega))]
    exact hs.deposits n hone hn hnear j hj
  · intro j hj
    dsimp only
    rw [storeAt_slot]
    by_cases hji : j = i
    · rw [hji, Function.update_self]
    · rw [Function.update_of_ne hji]
      exact hstored j (by omega)

theorem Intact.publish (hs : Intact s) {node : ProxyNode}
    (hengine : s.engine = .publishing node) :
    Intact
      { s with
        engine := .published node
        ring := { s.ring with input_seq := s.ring.input_seq + 1 } } := by
  have hok := hs.engine
  rw [hengine] at hok
  refine ⟨?_, trivial, hs.child.progress (Nat.le_succ _) rfl rfl rfl (fun _ _ => rfl), ?_, ?_, ?_,
    hs.missed⟩
  · intro n hone hn hnear i hi
    dsimp only at hn hnear
    by_cases hlast : n = s.ring.input_seq + 1
    · rw [hlast]
      exact hok i hi
    · exact hs.deposits n hone (by omega) (by omega) i hi
  · intro slot
    exact Nat.le_succ_of_le (hs.stamps slot)
  · intro b hone hnear hstamp hcall
    dsimp only at hnear
    exact hs.wet b hone (by omega) hstamp hcall
  · intro r hr
    obtain ⟨hseq, hhonest⟩ := hs.returned r hr
    exact ⟨Nat.le_succ_of_le hseq, hhonest⟩

theorem Intact.collect (hs : Intact s) {node : ProxyNode} {source : Source}
    (hseq : node.depth < s.ring.input_seq)
    (hsource : source =
      if node.bypass then .bypass
      else if s.ring.out_slot_seq (slotOf (s.ring.input_seq - node.depth)) =
          s.ring.input_seq - node.depth then .wet
      else .dry) :
    Intact { s with engine := .copying node source 0 fun _ => 0 } := by
  refine ⟨hs.deposits, ⟨hseq, Nat.zero_le _, ?_⟩, hs.child, hs.stamps, hs.wet, hs.returned,
    hs.missed⟩
  rw [hsource]
  split
  · rename_i hbypass
    exact ⟨hbypass, nofun⟩
  · rename_i hbypass
    have hlive : node.bypass = false := (Bool.not_eq_true _).mp hbypass
    split
    · rename_i hstamp
      exact ⟨hlive, hstamp, fun _ => nofun⟩
    · exact ⟨hlive, nofun⟩

/-- The block a node returns is still in its slot. -/
theorem Intact.in_want (hs : Intact s) (node : ProxyNode) (hseq : node.depth < s.ring.input_seq)
    {i : Nat} (hi : i < kBlockSamples) :
    s.ring.in_ (slotOf (s.ring.input_seq - node.depth)) i =
      s.blocks (s.ring.input_seq - node.depth) i := by
  have hdepth : node.depth ≤ 6 := node.depth_le
  exact hs.deposits _ (by omega) (by omega) (by omega) i hi

omit [Zero α] in
theorem update_copied {output want : Samples α} {i : Nat} {x : α}
    (hcopied : ∀ j < i, output j = want j) (hx : x = want i) :
    ∀ j < i + 1, Function.update output i x j = want j := by
  intro j hj
  by_cases hji : j = i
  · rw [hji, Function.update_self]
    exact hx
  · rw [Function.update_of_ne hji]
    exact hcopied j (by omega)

theorem Intact.copy (hs : Intact s) {node : ProxyNode} {source : Source} {i : Nat}
    {output : Samples α} (hengine : s.engine = .copying node source i output)
    (hi : i < kBlockSamples) :
    Intact
      { s with
        engine := .copying node source (i + 1) <|
          Function.update output i <|
            (if source = .wet then s.ring.out_ else s.ring.in_)
              (slotOf (s.ring.input_seq - node.depth)) i } := by
  have hok := hs.engine
  rw [hengine] at hok
  obtain ⟨hseq, -, hcopy⟩ := hok
  refine ⟨hs.deposits, ⟨hseq, hi, ?_⟩, hs.child, hs.stamps, hs.wet, hs.returned, hs.missed⟩
  cases source with
  | fill => exact hcopy
  | bypass => exact ⟨hcopy.1, update_copied hcopy.2 (hs.in_want node hseq hi)⟩
  | dry => exact ⟨hcopy.1, update_copied hcopy.2 (hs.in_want node hseq hi)⟩
  | wet => exact ⟨hcopy.1, hcopy.2.1, fun hcall => update_copied (hcopy.2.2 hcall) rfl⟩

theorem Intact.copied (hs : Intact s) (hapart : ¬ s.Overlap) {node : ProxyNode} {source : Source}
    {i : Nat} {output : Samples α} (hengine : s.engine = .copying node source i output)
    (hi : i = kBlockSamples) :
    Intact
      { s with
        engine := .idle
        missed := if source = .dry then s.missed + 1 else s.missed
        returned := s.returned ++ [⟨node, s.ring.input_seq, source, output⟩] } := by
  have hok := hs.engine
  rw [hengine, hi] at hok
  obtain ⟨hseq, -, hcopy⟩ := hok
  refine ⟨hs.deposits, trivial, hs.child, hs.stamps, hs.wet, ?_, ?_⟩
  · intro r hr
    rcases List.mem_append.mp hr with hr | hr
    · exact hs.returned r hr
    rw [List.mem_singleton.mp hr]
    refine ⟨Nat.le_refl _, ?_⟩
    cases source with
    | fill => exact hcopy.elim
    | bypass => exact ⟨hseq, hcopy⟩
    | dry => exact ⟨hseq, hcopy⟩
    | wet =>
        obtain ⟨hlive, hstamp, hsame⟩ := hcopy
        have hdepth : node.depth ≤ 6 := node.depth_le
        have hcall : s.child.inCall ≠ some (s.ring.input_seq - node.depth) := by
          intro hcall
          refine hapart ⟨_, ⟨hcall, hstamp⟩, ?_⟩
          rw [hengine]
          rfl
        obtain ⟨call, hmem, hblock, hwritten, hread⟩ :=
          hs.wet _ (by omega) (by omega) hstamp hcall
        refine ⟨hseq, hlive, call, hmem, hblock, ?_, hread⟩
        intro j hj
        rw [hwritten j hj]
        exact congrArg some (hsame hcall j hj).symm
  · dsimp only
    rw [List.countP_append, List.countP_singleton, ← hs.missed]
    cases source <;> rfl

/-- A step of the audio thread. -/
theorem Intact.engineStep (hs : Intact s) (hapart : ¬ s.Overlap) (hstep : EngineStep s t) :
    Intact t := by
  cases hstep with
  | emitMidi ev hengine => exact hs.push ev
  | process node input notes hengine => exact hs.process node _ notes
  | store hengine hi => exact hs.store hengine hi
  | stored hengine hi =>
      have hok := hs.engine
      rw [hengine, hi] at hok
      obtain ⟨-, hinput, hstored⟩ := hok
      refine ⟨hs.deposits, ?_, hs.child, hs.stamps, hs.wet, hs.returned, hs.missed⟩
      intro j hj
      dsimp only
      rw [hinput]
      exact hstored j hj
  | @emit node ev notes hengine =>
      have hok := hs.engine
      rw [hengine] at hok
      obtain ⟨midi, pushed, heq⟩ := push_eq s ev
      rw [heq]
      exact ⟨hs.deposits, hok, hs.child, hs.stamps, hs.wet, hs.returned, hs.missed⟩
  | stamp hengine =>
      have hok := hs.engine
      rw [hengine] at hok
      exact ⟨hs.deposits, hok, hs.child, hs.stamps, hs.wet, hs.returned, hs.missed⟩
  | publish hengine => exact hs.publish hengine
  | fill hengine hseq =>
      refine ⟨hs.deposits, trivial, hs.child, hs.stamps, hs.wet, ?_, ?_⟩
      · intro r hr
        rcases List.mem_append.mp hr with hr | hr
        · exact hs.returned r hr
        · rw [List.mem_singleton.mp hr]
          exact ⟨Nat.le_refl _, hseq, rfl⟩
      · dsimp only
        rw [List.countP_append, ← hs.missed]
        rfl
  | collect hengine hseq hsource => exact hs.collect hseq hsource
  | copy hengine hi => exact hs.copy hengine hi
  | copied hengine hi => exact hs.copied hapart hengine hi

/-- Where the backlog is taken up: no later block is stamped yet. -/
theorem resumePoint_bounds {last_in newest : Nat} (hle : last_in ≤ newest)
    (hne : newest ≠ last_in) :
    1 ≤ resumePoint last_in newest ∧ resumePoint last_in newest ≤ newest ∧
      newest < resumePoint last_in newest + kRingSlots := by
  unfold resumePoint kRingSlots
  split <;> omega

omit [Zero α] in
/-- The audio thread notices the child only on the block it collects: its stamp
stays, and its output too while no call for it is on. -/
theorem EngineOk.beside (hok : EngineOk s s.engine) (hseq : t.ring.input_seq = s.ring.input_seq)
    (hin : t.ring.in_ = s.ring.in_) (hblocks : t.blocks = s.blocks)
    (hcollect : ∀ b, s.ring.out_slot_seq (slotOf b) = b → s.ring.input_seq ≤ b + 6 →
      s.engine.collects s.ring.input_seq = some b →
      t.ring.out_slot_seq (slotOf b) = b ∧ (t.child.inCall ≠ some b →
        s.child.inCall ≠ some b ∧ t.ring.out_ (slotOf b) = s.ring.out_ (slotOf b))) :
    EngineOk t s.engine := by
  cases hengine : s.engine with
  | idle => trivial
  | storing node input notes i =>
      rw [hengine] at hok
      unfold EngineOk
      rw [hseq, hin, hblocks]
      exact hok
  | emitting node notes =>
      rw [hengine] at hok
      unfold EngineOk
      rw [hseq, hin, hblocks]
      exact hok
  | publishing node =>
      rw [hengine] at hok
      unfold EngineOk
      rw [hseq, hin, hblocks]
      exact hok
  | published node => trivial
  | copying node source i output =>
      rw [hengine] at hok hcollect
      have hdepth : node.depth ≤ 6 := node.depth_le
      unfold EngineOk
      rw [hseq]
      refine ⟨hok.1, hok.2.1, ?_⟩
      unfold CopyOk
      rw [hseq, hblocks]
      cases source with
      | fill => exact hok.2.2
      | bypass => exact hok.2.2
      | dry => exact hok.2.2
      | wet =>
          obtain ⟨hlive, hstamp, hcopied⟩ := hok.2.2
          obtain ⟨hkept, hsame⟩ := hcollect _ hstamp (by omega) rfl
          refine ⟨hlive, hkept, ?_⟩
          intro hother
          obtain ⟨hother', hout⟩ := hsame hother
          rw [hout]
          exact hcopied hother'

/-- The child moves on outside a call. -/
theorem Intact.move (hs : Intact s) {child : Child α} (hout : s.child.inCall = none)
    (hok : ChildOk s child) : Intact { s with child := child } := by
  refine ⟨hs.deposits, hs.engine.beside rfl rfl rfl ?_, hok, hs.stamps, ?_, hs.returned,
    hs.missed⟩
  · intro b hstamp _ _
    refine ⟨hstamp, fun _ => ⟨?_, rfl⟩⟩
    rw [hout]
    nofun
  · intro b hone hnear hstamp hcall
    exact hs.wet b hone hnear hstamp (by rw [hout]; nofun)

theorem Intact.begin (hs : Intact s) {b newest : Nat} {events : List Scheduled}
    (hchild : s.child = .draining b newest events) (delivered : List Delivery) :
    Intact
      { s with
        child := .processing b newest { block := b }
        delivered := delivered } := by
  have hok := hs.child
  rw [hchild] at hok
  have hout : s.child.inCall = none := by rw [hchild]; rfl
  have hmoved : Intact { s with child := .processing b newest { block := b } } :=
    hs.move hout ⟨hok, rfl, fun _ => nofun, nofun⟩
  exact ⟨hmoved.deposits, hmoved.engine, hmoved.child, hmoved.stamps, hmoved.wet, hmoved.returned,
    hmoved.missed⟩

theorem Intact.read (hs : Intact s) {b newest i : Nat} {call : Call α}
    (hchild : s.child = .processing b newest call) (hi : i < kBlockSamples) :
    Intact
      { s with
        child := .processing b newest
          { call with read := call.read ++ [(i, s.ring.in_ (slotOf b) i)] } } := by
  have hok := hs.child
  rw [hchild] at hok
  obtain ⟨⟨hat, hle⟩, hblock, hread, hwritten⟩ := hok
  have hsame : s.child.inCall = some b := by rw [hchild]; rfl
  refine ⟨hs.deposits, hs.engine.beside rfl rfl rfl ?_, ⟨⟨hat, hle⟩, hblock, ?_, hwritten⟩,
    hs.stamps, ?_, hs.returned, hs.missed⟩
  · intro other hstamp _ _
    refine ⟨hstamp, fun hother => ⟨?_, rfl⟩⟩
    rw [hsame]
    exact hother
  · intro hnear p hp
    rcases List.mem_append.mp hp with hp | hp
    · exact hread hnear p hp
    · rw [List.mem_singleton.mp hp]
      exact hs.deposits b hat.one_le (Nat.le_trans hle hat.newest_le) hnear i hi
  · intro other hone hnear hstamp hother
    exact hs.wet other hone hnear hstamp (by rw [hsame]; exact hother)

omit [Zero α] in
/-- A stamped block that can still be collected shares no slot with another
block the child is at. -/
theorem AtBlock.slot_ne {b newest other : Nat} {out_slot_seq : Nat → Nat} {input_seq : Nat}
    (hat : AtBlock input_seq out_slot_seq b newest) (hle : b ≤ newest)
    (hstamp : out_slot_seq (slotOf other) = other) (hnear : input_seq ≤ other + 6)
    (hne : other ≠ b) : slotOf other ≠ slotOf b := by
  have hlt := hat.stamps (slotOf other)
  rw [hstamp] at hlt
  have hnewest := hat.newest_le
  exact slotOf_ne hne hlt (by omega)

theorem Intact.write (hs : Intact s) {b newest i : Nat} {call : Call α} (x : α)
    (hchild : s.child = .processing b newest call) :
    Intact
      { s with
        child := .processing b newest
          { call with written := Function.update call.written i (some x) }
        ring := { s.ring with out_ := storeAt s.ring.out_ (slotOf b) i x } } := by
  have hok := hs.child
  rw [hchild] at hok
  obtain ⟨⟨hat, hle⟩, hblock, hread, hwritten⟩ := hok
  have hsame : s.child.inCall = some b := by rw [hchild]; rfl
  have hkept : ∀ other, s.ring.input_seq ≤ other + 6 →
      s.ring.out_slot_seq (slotOf other) = other → other ≠ b →
      storeAt s.ring.out_ (slotOf b) i x (slotOf other) = s.ring.out_ (slotOf other) := by
    intro other hnear hstamp hne
    exact storeAt_other _ _ _ (hat.slot_ne hle hstamp hnear hne)
  have halone : ∀ other, other ≠ b → s.child.inCall ≠ some other := by
    intro other hne
    rw [hsame]
    exact fun heq => hne (Option.some.inj heq).symm
  refine ⟨hs.deposits, hs.engine.beside rfl rfl rfl ?_, ⟨⟨hat, hle⟩, hblock, hread, ?_⟩, hs.stamps,
    ?_, hs.returned, hs.missed⟩
  · intro other hstamp hnear _
    refine ⟨hstamp, fun hother => ?_⟩
    have hne : other ≠ b := fun heq => hother (by rw [heq]; rfl)
    exact ⟨halone other hne, hkept other hnear hstamp hne⟩
  · intro j y hy
    dsimp only at hy ⊢
    rw [storeAt_slot]
    by_cases hji : j = i
    · rw [hji, Function.update_self] at hy
      rw [hji, Function.update_self]
      exact Option.some.inj hy
    · rw [Function.update_of_ne hji] at hy
      rw [Function.update_of_ne hji]
      exact hwritten j y hy
  · intro other hone hnear hstamp hother
    have hne : other ≠ b := fun heq => hother (by rw [heq]; rfl)
    dsimp only
    rw [hkept other hnear hstamp hne]
    exact hs.wet other hone hnear hstamp (halone other hne)

theorem Intact.finish (hs : Intact s) (hapart : ¬ s.Overlap) {b newest : Nat} {call : Call α}
    (hchild : s.child = .processing b newest call)
    (hcomplete : ∀ i < kBlockSamples, call.written i ≠ none) :
    Intact { s with child := .processed b newest, calls := s.calls ++ [call] } := by
  have hok := hs.child
  rw [hchild] at hok
  obtain ⟨⟨hat, hle⟩, hblock, hread, hwritten⟩ := hok
  have hsame : s.child.inCall = some b := by rw [hchild]; rfl
  have hmem : ∀ c ∈ s.calls, c ∈ s.calls ++ [call] := fun c hc => List.mem_append_left _ hc
  have hwet : s.ring.input_seq ≤ b + 6 →
      Bridge.WetBlock { s with child := .processed b newest, calls := s.calls ++ [call] } b
        (s.ring.out_ (slotOf b)) := by
    intro hnear
    refine ⟨call, List.mem_append_right _ List.mem_cons_self, hblock, ?_, hread hnear⟩
    intro i hi
    obtain ⟨x, hx⟩ := Option.ne_none_iff_exists'.mp (hcomplete i hi)
    rw [hx, hwritten i x hx]
  refine ⟨hs.deposits, hs.engine.beside rfl rfl rfl ?_, ⟨⟨hat, hle⟩, hwet⟩, hs.stamps, ?_, ?_,
    hs.missed⟩
  · intro other hstamp _ hcollects
    exact ⟨hstamp, fun _ => ⟨fun hagain => hapart ⟨other, ⟨hagain, hstamp⟩, hcollects⟩, rfl⟩⟩
  · intro other hone hnear hstamp _
    by_cases hother : other = b
    · rw [hother]
      exact hwet (by rw [← hother]; exact hnear)
    · refine (hs.wet other hone hnear hstamp ?_).mono hmem rfl
      rw [hsame]
      exact fun heq => hother (Option.some.inj heq).symm
  · intro r hr
    obtain ⟨hseq, hhonest⟩ := hs.returned r hr
    exact ⟨hseq, hhonest.mono hseq hmem (fun _ _ => rfl)⟩

omit [Zero α] in
theorem AtBlock.succ {input_seq b newest : Nat} {out_slot_seq : Nat → Nat}
    (hat : AtBlock input_seq out_slot_seq b newest) (hle : b ≤ newest) :
    AtBlock input_seq out_slot_seq (b + 1) newest := by
  refine ⟨Nat.le_add_left 1 b, hat.newest_le, Nat.succ_le_succ hle, ?_⟩
  intro slot
  have hlt := hat.stamps slot
  omega

theorem Intact.publishOut (hs : Intact s) {b newest : Nat}
    (hchild : s.child = .confirmed b newest) :
    Intact
      { s with
        child := .backlog (b + 1) newest
        ring := { s.ring with
          out_slot_seq := Function.update s.ring.out_slot_seq (slotOf b) b
          output_seq := b } } := by
  have hok := hs.child
  rw [hchild] at hok
  obtain ⟨⟨hat, hle⟩, hwet⟩ := hok
  have hout : s.child.inCall = none := by rw [hchild]; rfl
  have hb : b ≤ s.ring.input_seq := Nat.le_trans hle hat.newest_le
  refine ⟨hs.deposits, hs.engine.beside rfl rfl rfl ?_, ?_, ?_, ?_, hs.returned, hs.missed⟩
  · intro other hstamp hnear _
    refine ⟨?_, fun _ => ⟨by rw [hout]; nofun, rfl⟩⟩
    dsimp only
    by_cases hother : other = b
    · rw [hother, Function.update_self]
    · rw [Function.update_of_ne (hat.slot_ne hle hstamp hnear hother)]
      exact hstamp
  · obtain ⟨hone, hnewest, hsucc, hlt⟩ := hat.succ hle
    refine ⟨hone, hnewest, hsucc, ?_⟩
    intro slot
    by_cases hslot : slot = slotOf b
    · dsimp only
      rw [hslot, Function.update_self]
      unfold kRingSlots
      omega
    · dsimp only
      rw [Function.update_of_ne hslot]
      exact hlt slot
  · intro slot
    by_cases hslot : slot = slotOf b
    · dsimp only
      rw [hslot, Function.update_self]
      exact hb
    · dsimp only
      rw [Function.update_of_ne hslot]
      exact hs.stamps slot
  · intro other hone hnear hstamp _
    dsimp only at hstamp hnear
    by_cases hslot : slotOf other = slotOf b
    · rw [hslot, Function.update_self] at hstamp
      rw [← hstamp] at hnear ⊢
      exact hwet hnear
    · rw [Function.update_of_ne hslot] at hstamp
      exact hs.wet other hone hnear hstamp (by rw [hout]; nofun)

/-- A step of the child. -/
theorem Intact.childStep (hs : Intact s) (hapart : ¬ s.Overlap) (hstep : ChildStep s t) :
    Intact t := by
  have hok := hs.child
  cases hstep with
  | restart hchild => exact hs.move (by rw [hchild]; rfl) (Nat.zero_le _)
  | poll hchild hnewest =>
      rw [hchild] at hok
      obtain ⟨hone, hle, hlt⟩ := resumePoint_bounds hok hnewest
      refine hs.move (by rw [hchild]; rfl) ⟨hone, Nat.le_refl _, Nat.le_succ_of_le hle, ?_⟩
      exact fun slot => Nat.lt_of_le_of_lt (hs.stamps slot) hlt
  | caughtUp hchild hb =>
      rw [hchild] at hok
      exact hs.move (by rw [hchild]; rfl) hok.newest_le
  | skip hchild hb hstamp =>
      rw [hchild] at hok
      exact hs.move (by rw [hchild]; rfl) (hok.succ hb)
  | enter hchild hb hstamp =>
      rw [hchild] at hok
      exact hs.move (by rw [hchild]; rfl) ⟨hok, hb⟩
  | @drain b newest events rest ev hchild hmidi =>
      rw [hchild] at hok
      have hmoved : Intact { s with child := .draining b newest (events ++ [ev]) } :=
        hs.move (by rw [hchild]; rfl) hok
      exact hmoved.midi rest s.pushed
  | begin hchild hmidi => exact hs.begin hchild _
  | read hchild hi => exact hs.read hchild hi
  | write x hchild hi => exact hs.write x hchild
  | finish hchild hcomplete => exact hs.finish hapart hchild hcomplete
  | @torn b newest hchild hstamp =>
      rw [hchild] at hok
      have hmoved : Intact { s with child := .backlog (b + 1) newest } :=
        hs.move (by rw [hchild]; rfl) (hok.1.1.succ hok.1.2)
      exact ⟨hmoved.deposits, hmoved.engine, hmoved.child, hmoved.stamps, hmoved.wet,
        hmoved.returned, hmoved.missed⟩
  | confirm hchild hstamp =>
      rw [hchild] at hok
      exact hs.move (by rw [hchild]; rfl) hok
  | publishOut hchild => exact hs.publishOut hchild

theorem Intact.die (hs : Intact s) (hwhole : ∀ b, ¬ s.Reprocesses b) (hstep : Die s t) :
    Intact t := by
  cases hstep with
  | die =>
      refine ⟨hs.deposits, hs.engine.beside rfl rfl rfl ?_, trivial, hs.stamps, ?_, hs.returned,
        hs.missed⟩
      · intro b hstamp _ _
        exact ⟨hstamp, fun _ => ⟨fun hcall => hwhole b ⟨hcall, hstamp⟩, rfl⟩⟩
      · intro b hone hnear hstamp _
        exact hs.wet b hone hnear hstamp fun hcall => hwhole b ⟨hcall, hstamp⟩

theorem Intact.step (hs : Intact s) (hstep : CleanStep s t) : Intact t := by
  cases hstep with
  | engine hstep hapart => exact hs.engineStep hapart hstep
  | child hstep hapart => exact hs.childStep hapart hstep
  | die hstep hwhole => exact hs.die hwhole hstep

section Loops

omit [Zero α] in
theorem not_overlap_of_collects (hengine : s.engine.collects s.ring.input_seq = none) :
    ¬ s.Overlap := by
  rintro ⟨b, -, hcollects⟩
  rw [hengine] at hcollects
  cases hcollects

omit [Zero α] in
theorem not_overlap_of_inCall (hchild : s.child.inCall = none) : ¬ s.Overlap := by
  rintro ⟨b, ⟨hcall, -⟩, -⟩
  rw [hchild] at hcall
  cases hcall

theorem CleanStep.step (hstep : CleanStep s t) : Step s t := by
  cases hstep with
  | engine hstep hapart => exact .engine hstep
  | child hstep hapart => exact .child hstep
  | die hstep hwhole => exact .die hstep

theorem CleanStep.reaches (hrun : Run.Reaches CleanStep s t) : Run.Reaches Step s t :=
  Relation.ReflTransGen.mono (fun _ _ hstep => CleanStep.step hstep) s t hrun

section Deposit

-- The steps of a deposit are steps of `R`: they collect nothing and push nothing.
variable {R : Bridge α → Bridge α → Prop}
  (hR : ∀ a b, EngineStep a b → a.engine.collects a.ring.input_seq = none →
    b.pushed = a.pushed → R a b)

include hR

/-- The audio thread stores a whole block. -/
theorem reaches_stored {node : ProxyNode} {input : Samples α} {notes : List MidiEvent}
    (hengine : s.engine = .storing node input notes 0) :
    ∃ in_, Run.Reaches R s
      { s with engine := .emitting node notes, ring := { s.ring with in_ := in_ } } := by
  have hloop : ∀ i ≤ kBlockSamples, ∃ in_, Run.Reaches R s
      { s with engine := .storing node input notes i, ring := { s.ring with in_ := in_ } } := by
    intro i
    induction i with
    | zero =>
        intro _
        refine ⟨s.ring.in_, ?_⟩
        rw [← hengine]
    | succ i ih =>
        intro hi
        obtain ⟨in_, hrun⟩ := ih (Nat.le_of_succ_le hi)
        exact ⟨_, hrun.tail (hR _ _ (.store rfl hi) rfl rfl)⟩
  obtain ⟨in_, hrun⟩ := hloop kBlockSamples (Nat.le_refl _)
  exact ⟨in_, hrun.tail (hR _ _ (.stored rfl rfl) rfl rfl)⟩

/-- The audio thread deposits a block without events. -/
theorem reaches_published (node : ProxyNode) (input : Samples α) (hengine : s.engine = .idle) :
    ∃ in_, Run.Reaches R s
      { s with
        engine := .published node
        blocks := Function.update s.blocks (s.ring.input_seq + 1) input
        ring := { s.ring with
          input_seq := s.ring.input_seq + 1
          in_slot_seq := Function.update s.ring.in_slot_seq (slotOf (s.ring.input_seq + 1))
            (s.ring.input_seq + 1)
          in_ := in_ } } := by
  have hstart : R s
      { s with
        engine := .storing node input [] 0
        blocks := Function.update s.blocks (s.ring.input_seq + 1) input } :=
    hR _ _ (.process node (some input) [] hengine) (by rw [hengine]; rfl) rfl
  obtain ⟨in_, hstored⟩ := reaches_stored hR (s :=
    { s with
      engine := .storing node input [] 0
      blocks := Function.update s.blocks (s.ring.input_seq + 1) input }) rfl
  have hstamped := hstored.tail (hR _ _ (.stamp rfl) rfl rfl)
  have hpublished := hstamped.tail (hR _ _ (.publish rfl) rfl rfl)
  exact ⟨in_, hpublished.head hstart⟩

end Deposit

theorem CleanStep.ofDeposit (hstep : EngineStep s t)
    (hcollects : s.engine.collects s.ring.input_seq = none) : CleanStep s t :=
  .engine hstep (not_overlap_of_collects hcollects)

/-- The audio thread copies a whole block. -/
theorem reaches_copied {R : Bridge α → Bridge α → Prop} {node : ProxyNode} {source : Source}
    {start : Samples α}
    (hR : ∀ engine t, EngineStep { s with engine := engine } t → R { s with engine := engine } t)
    (hengine : s.engine = .copying node source 0 start) :
    ∃ output, Run.Reaches R s
        { s with engine := .copying node source kBlockSamples output } ∧
      ∀ i < kBlockSamples, output i =
        (if source = .wet then s.ring.out_ else s.ring.in_)
          (slotOf (s.ring.input_seq - node.depth)) i := by
  have hloop : ∀ i ≤ kBlockSamples, ∃ output, Run.Reaches R s
      { s with engine := .copying node source i output } ∧
      ∀ j < i, output j = (if source = .wet then s.ring.out_ else s.ring.in_)
        (slotOf (s.ring.input_seq - node.depth)) j := by
    intro i
    induction i with
    | zero =>
        intro _
        refine ⟨start, ?_, nofun⟩
        rw [← hengine]
    | succ i ih =>
        intro hi
        obtain ⟨output, hrun, hcopied⟩ := ih (Nat.le_of_succ_le hi)
        exact ⟨_, hrun.tail (hR _ _ (.copy rfl hi)), update_copied hcopied rfl⟩
  exact hloop kBlockSamples (Nat.le_refl _)

/-- The plugin writes the same sample everywhere. -/
theorem reaches_written {b newest : Nat} {call : Call α} (x : α) (hengine : s.engine = .idle)
    (hchild : s.child = .processing b newest call) :
    ∃ written out_, Run.Reaches CleanStep s
        { s with
          child := .processing b newest { call with written := written }
          ring := { s.ring with out_ := out_ } } ∧
      ∀ i < kBlockSamples, written i = some x := by
  have hidle : s.engine.collects s.ring.input_seq = none := by rw [hengine]; rfl
  have hloop : ∀ i ≤ kBlockSamples, ∃ written out_, Run.Reaches CleanStep s
      { s with
        child := .processing b newest { call with written := written }
        ring := { s.ring with out_ := out_ } } ∧
      ∀ j < i, written j = some x := by
    intro i
    induction i with
    | zero =>
        intro _
        refine ⟨call.written, s.ring.out_, ?_, nofun⟩
        rw [← hchild]
    | succ i ih =>
        intro hi
        obtain ⟨written, out_, hrun, hwritten⟩ := ih (Nat.le_of_succ_le hi)
        refine ⟨Function.update written i (some x), storeAt out_ (slotOf b) i x,
          hrun.tail (.child ?_ (not_overlap_of_collects hidle)), ?_⟩
        · exact @ChildStep.write α _ b newest i { call with written := written } x rfl hi
        · intro j hj
          by_cases hji : j = i
          · rw [hji, Function.update_self]
          · rw [Function.update_of_ne hji]
            exact hwritten j (by omega)
  exact hloop kBlockSamples (Nat.le_refl _)

end Loops

/-- In every run whose steps are clean, what the node returns is what it should
be. -/
theorem integrity_of_run (hrun : Run.Reaches CleanStep (Bridge.start α) s) : s.Integrity := by
  have hs : Intact s := hrun.invariant Intact.start fun _ _ hstep ha => ha.step hstep
  exact ⟨fun r hr => (hs.returned r hr).2, hs.missed⟩

section Example

/-- A node that returns the block before. -/
def oneBlock : ProxyNode := ProxyNode.ofDepth 1 false

/-- Block 1 is deposited, and the child is somewhere. -/
def deposited (in_ : Nat → Samples ℤ) (child : Child ℤ) : Bridge ℤ where
  ring :=
    { input_seq := 1
      in_slot_seq := Function.update (fun _ => 0) (slotOf 1) 1
      in_ := in_
      out_ := fun _ _ => 0 }
  child := child
  blocks := Function.update (fun _ _ => 0) 1 fun _ => 0
  returned := [⟨oneBlock, 1, .fill, fun _ => 0⟩]

/-- The plugin has answered block 1. -/
def answered (in_ out_ : Nat → Samples ℤ) (written : Nat → Option ℤ) (child : Child ℤ) :
    Bridge ℤ :=
  { deposited in_ child with
    ring := { (deposited in_ child).ring with
      output_seq := 1
      out_slot_seq := Function.update (fun _ => 0) (slotOf 1) 1
      out_ := out_ }
    calls := [{ block := 1, written := written }] }

/-- Block 2 is deposited, and block 1 is about to be copied. -/
def collecting (in_ out_ : Nat → Samples ℤ) (written : Nat → Option ℤ) (child : Child ℤ) :
    Bridge ℤ :=
  { answered in_ out_ written child with
    engine := .copying oneBlock .wet 0 fun _ => 0
    blocks := Function.update (answered in_ out_ written child).blocks 2 fun _ => 0
    ring := { (answered in_ out_ written child).ring with
      input_seq := 2
      in_slot_seq :=
        Function.update (answered in_ out_ written child).ring.in_slot_seq (slotOf 2) 2 } }

/-- The child answers block 1 with 1 everywhere. -/
theorem reaches_answered :
    ∃ in_ out_ written,
      Run.Reaches CleanStep (Bridge.start ℤ) (answered in_ out_ written (.backlog 2 1)) ∧
        ∀ i < kBlockSamples, written i = some 1 := by
  obtain ⟨in_, hpublished⟩ := reaches_published
    (fun _ _ hstep hidle _ => CleanStep.ofDeposit hstep hidle) (s := Bridge.start ℤ) oneBlock
    (fun _ => 0) rfl
  have hfilled : Run.Reaches CleanStep (Bridge.start ℤ) (deposited in_ (.polling 0)) :=
    hpublished.tail (.engine (.fill rfl (Nat.le_refl 1)) (not_overlap_of_inCall rfl))
  have hbacklog : Run.Reaches CleanStep (Bridge.start ℤ) (deposited in_ (.backlog 1 1)) :=
    hfilled.tail (.child (.poll rfl Nat.one_ne_zero) (not_overlap_of_collects rfl))
  have hentered : Run.Reaches CleanStep (Bridge.start ℤ) (deposited in_ (.draining 1 1 [])) :=
    hbacklog.tail (.child (.enter rfl (Nat.le_refl 1) rfl) (not_overlap_of_collects rfl))
  have hbegun : Run.Reaches CleanStep (Bridge.start ℤ)
      (deposited in_ (.processing 1 1 { block := 1 })) :=
    hentered.tail (.child (@ChildStep.begin ℤ (deposited in_ (.draining 1 1 [])) 1 1 [] rfl rfl)
      (not_overlap_of_collects rfl))
  obtain ⟨written, out_, hwrite, hwritten⟩ :=
    reaches_written (s := deposited in_ (.processing 1 1 { block := 1 })) 1 rfl rfl
  have hcomplete : ∀ i < kBlockSamples, written i ≠ none := by
    intro i hi
    rw [hwritten i hi]
    nofun
  have hfinished := (hbegun.trans hwrite).tail
    (.child (.finish rfl hcomplete) (not_overlap_of_collects rfl))
  have hconfirmed := hfinished.tail (.child (.confirm rfl rfl) (not_overlap_of_collects rfl))
  have hanswered := hconfirmed.tail (.child (.publishOut rfl) (not_overlap_of_collects rfl))
  exact ⟨in_, out_, written, hanswered, hwritten⟩

/-- A run without a restart returns block 1 wet. -/
theorem integrity_of_run_wet :
    ∃ s : Bridge ℤ, s.Integrity ∧ ∃ r ∈ s.returned, r.source = .wet := by
  obtain ⟨in_, out_, written, hanswered, -⟩ := reaches_answered
  obtain ⟨in_', hpublished⟩ :=
    reaches_published (fun _ _ hstep hidle _ => CleanStep.ofDeposit hstep hidle)
      (s := answered in_ out_ written (.backlog 2 1)) oneBlock (fun _ => 0) rfl
  have hcollected : Run.Reaches CleanStep (Bridge.start ℤ)
      (collecting in_' out_ written (.backlog 2 1)) :=
    (hanswered.trans hpublished).tail
      (.engine (.collect rfl (Nat.lt_succ_self 1) rfl) (not_overlap_of_inCall rfl))
  obtain ⟨output, hcopied, -⟩ := reaches_copied (s := collecting in_' out_ written (.backlog 2 1))
    (fun _ _ hstep => CleanStep.engine hstep (not_overlap_of_inCall rfl)) rfl
  have hreturned := (hcollected.trans hcopied).tail
    (.engine (.copied rfl rfl) (not_overlap_of_inCall rfl))
  exact ⟨_, integrity_of_run hreturned, _, List.mem_append_right _ List.mem_cons_self, rfl⟩

/-- The child answers block 1 with 1 everywhere and dies; the next child starts
on block 1 again and has written 2 once when the node returns the block. -/
theorem not_integrity_restart :
    ∃ s : Bridge ℤ, Run.Reaches Step (Bridge.start ℤ) s ∧ ¬ s.Integrity := by
  obtain ⟨in_, out_, written, hanswered, hwritten⟩ := reaches_answered
  have hrun : Run.Reaches Step (Bridge.start ℤ) (answered in_ out_ written (.backlog 2 1)) :=
    CleanStep.reaches hanswered
  have hdead : Run.Reaches Step (Bridge.start ℤ) (answered in_ out_ written .dead) :=
    hrun.tail (.die .die)
  have hpolling : Run.Reaches Step (Bridge.start ℤ) (answered in_ out_ written (.polling 0)) :=
    hdead.tail (.child (.restart rfl))
  have hbacklog : Run.Reaches Step (Bridge.start ℤ) (answered in_ out_ written (.backlog 1 1)) :=
    hpolling.tail (.child (.poll rfl Nat.one_ne_zero))
  have hentered : Run.Reaches Step (Bridge.start ℤ)
      (answered in_ out_ written (.draining 1 1 [])) :=
    hbacklog.tail (.child (.enter rfl (Nat.le_refl 1) rfl))
  have hbegun : Run.Reaches Step (Bridge.start ℤ)
      (answered in_ out_ written (.processing 1 1 { block := 1 })) :=
    hentered.tail (.child
      (@ChildStep.begin ℤ (answered in_ out_ written (.draining 1 1 [])) 1 1 [] rfl rfl))
  have hwrote : Run.Reaches Step (Bridge.start ℤ)
      (answered in_ (storeAt out_ (slotOf 1) 0 2) written
        (.processing 1 1 { block := 1, written := Function.update (fun _ => none) 0 (some 2) })) :=
    hbegun.tail (.child
      (@ChildStep.write ℤ (answered in_ out_ written (.processing 1 1 { block := 1 })) 1 1 0
        { block := 1 } 2 rfl (by decide)))
  obtain ⟨in_', hpublished⟩ := reaches_published (fun _ _ hstep _ _ => Step.engine hstep)
    (s := answered in_ (storeAt out_ (slotOf 1) 0 2) written
      (.processing 1 1 { block := 1, written := Function.update (fun _ => none) 0 (some 2) }))
    oneBlock (fun _ => 0) rfl
  have hcollected : Run.Reaches Step (Bridge.start ℤ)
      (collecting in_' (storeAt out_ (slotOf 1) 0 2) written
        (.processing 1 1 { block := 1, written := Function.update (fun _ => none) 0 (some 2) })) :=
    (hwrote.trans hpublished).tail
      (.engine (.collect rfl (Nat.lt_succ_self 1) rfl))
  obtain ⟨output, hcopied, hsame⟩ := reaches_copied
    (s := collecting in_' (storeAt out_ (slotOf 1) 0 2) written
      (.processing 1 1 { block := 1, written := Function.update (fun _ => none) 0 (some 2) }))
    (fun _ _ hstep => Step.engine hstep) rfl
  have hreturned := (hcollected.trans hcopied).tail (.engine (.copied rfl rfl))
  refine ⟨_, hreturned, fun hintegrity => ?_⟩
  obtain ⟨-, -, call, hcall, -, hall, -⟩ :=
    hintegrity.returned _ (List.mem_append_right _ List.mem_cons_self)
  have houtput : output 0 = 2 := by
    rw [hsame 0 (by decide)]
    exact (congrFun (storeAt_slot out_ (slotOf 1) 0 2) 0).trans (Function.update_self 0 2 _)
  have hfirst : some (1 : ℤ) = some 2 := by
    rw [← hwritten 0 (by decide), ← houtput, ← hall 0 (by decide), List.mem_singleton.mp hcall]
  exact absurd hfirst (by decide)

end Example

end DawProject.Host
