import DawProject.Host.Wet

/-!
Which call of the plugin receives a MIDI event. The FIFO carries no block
number, so an event is delivered with its block in every run where the engine
pushes only when the child has drained the queue for all deposited blocks, the
queue never overflows, no block is passed over while events wait, and no child
dies with events in hand.
-/

namespace DawProject.Host

variable {α : Type}

/-- The last block the child has drained the queue for. -/
def Child.drained : Child α → Nat
  | .dead => 0
  | .polling last_in => last_in
  | .backlog b _ | .draining b _ _ => b - 1
  | .processing b _ _ | .processed b _ | .confirmed b _ => b

/-- The events popped for a call that has not begun. -/
def Child.inHand : Child α → List Scheduled
  | .draining _ _ events => events
  | _ => []

/-- The events pushed and not delivered yet. -/
def Bridge.waiting (s : Bridge α) : List Scheduled := s.child.inHand ++ s.ring.midi

/-- Every event that was delivered was delivered once, in order and in the call
for its block, and no event waits once the child has drained its block. -/
structure Bridge.MidiOnTime (s : Bridge α) : Prop where
  own_block : ∀ d ∈ s.delivered, d.call = d.scheduled.block
  conserved : s.pushed = s.delivered.map Delivery.scheduled ++ s.waiting
  due : ∀ ev ∈ s.waiting, s.child.drained < ev.block

/-- The next step of the child passes over a block without draining the
queue. -/
def Bridge.PassesOver (s : Bridge α) : Prop :=
  match s.child with
  | .dead => True
  | .polling last_in => resumePoint last_in s.ring.input_seq ≠ last_in + 1
  | .backlog b newest => b ≤ newest ∧ s.ring.in_slot_seq (slotOf b) ≠ b
  | _ => False

/-- A step that keeps the events with their blocks. -/
inductive TimelyStep [Zero α] (s t : Bridge α) : Prop where
  | engine (hstep : EngineStep s t)
      (hpush : t.pushed ≠ s.pushed →
        s.ring.midi.length < kMidiQueueSlots ∧ s.child.drained = s.ring.input_seq)
  | child (hstep : ChildStep s t) (hpass : s.PassesOver → s.ring.midi = [])
  | die (hstep : Die s t) (hhand : s.child.inHand = [])

section Invariant

/-- The child is at a block up to the next one of its backlog. -/
def Child.InBacklog (input_seq : Nat) : Child α → Prop
  | .dead => True
  | .polling last_in => last_in ≤ input_seq
  | .backlog b newest => 1 ≤ b ∧ b ≤ newest + 1 ∧ newest ≤ input_seq
  | .draining b newest _ | .processing b newest _ | .processed b newest | .confirmed b newest =>
      1 ≤ b ∧ b ≤ newest ∧ newest ≤ input_seq

theorem Child.InBacklog.mono {input_seq input_seq' : Nat} {child : Child α}
    (hback : child.InBacklog input_seq) (hle : input_seq ≤ input_seq') :
    child.InBacklog input_seq' := by
  cases child with
  | dead => trivial
  | polling last_in => exact Nat.le_trans hback hle
  | backlog b newest => exact ⟨hback.1, hback.2.1, Nat.le_trans hback.2.2 hle⟩
  | draining b newest events => exact ⟨hback.1, hback.2.1, Nat.le_trans hback.2.2 hle⟩
  | processing b newest call => exact ⟨hback.1, hback.2.1, Nat.le_trans hback.2.2 hle⟩
  | processed b newest => exact ⟨hback.1, hback.2.1, Nat.le_trans hback.2.2 hle⟩
  | confirmed b newest => exact ⟨hback.1, hback.2.1, Nat.le_trans hback.2.2 hle⟩

/-- The events that wait are those of the block the child drains next. -/
structure Timely (s : Bridge α) : Prop where
  backlog : s.child.InBacklog s.ring.input_seq
  own_block : ∀ d ∈ s.delivered, d.call = d.scheduled.block
  conserved : s.pushed = s.delivered.map Delivery.scheduled ++ s.waiting
  pos : ∀ ev ∈ s.waiting, 0 < ev.block
  next : s.child ≠ .dead → ∀ ev ∈ s.waiting, ev.block = s.child.drained + 1

theorem Timely.onTime {s : Bridge α} (hs : Timely s) : s.MidiOnTime := by
  refine ⟨hs.own_block, hs.conserved, ?_⟩
  intro ev hev
  by_cases hdead : s.child = .dead
  · rw [hdead]
    exact hs.pos ev hev
  · rw [hs.next hdead ev hev]
    exact Nat.lt_succ_self _

end Invariant

variable {s t : Bridge α}

/-- The events stay where they are. -/
theorem Timely.keep (hs : Timely s) (hback : t.child.InBacklog t.ring.input_seq)
    (hdelivered : t.delivered = s.delivered) (hpushed : t.pushed = s.pushed)
    (hwaiting : t.waiting = s.waiting)
    (hdrained : t.child ≠ .dead → ∀ ev ∈ s.waiting,
      ev.block = s.child.drained + 1 → ev.block = t.child.drained + 1)
    (halive : t.child ≠ .dead → s.child = .dead → s.waiting = []) : Timely t := by
  refine ⟨hback, ?_, ?_, ?_, ?_⟩
  · rw [hdelivered]
    exact hs.own_block
  · rw [hpushed, hdelivered, hwaiting]
    exact hs.conserved
  · rw [hwaiting]
    exact hs.pos
  · rw [hwaiting]
    intro hdead ev hev
    by_cases hwas : s.child = .dead
    · rw [halive hdead hwas] at hev
      cases hev
    · exact hdrained hdead ev hev (hs.next hwas ev hev)

/-- The child takes up the next block, or passes over some while none waits. -/
theorem Timely.pass (hs : Timely s) {child : Child α} (hout : s.child.inHand = [])
    (hin : child.inHand = []) (hback : child.InBacklog s.ring.input_seq)
    (hnext : s.ring.midi = [] ∨ (s.child ≠ .dead ∧ child.drained = s.child.drained)) :
    Timely { s with child := child } := by
  have hwaiting : Bridge.waiting { s with child := child } = s.waiting := by
    rw [Bridge.waiting, Bridge.waiting, hin, hout]
  have hnone : s.ring.midi = [] → s.waiting = [] := by
    intro hmidi
    rw [Bridge.waiting, hout, hmidi]
    rfl
  refine hs.keep hback rfl rfl hwaiting ?_ ?_
  · intro _ ev hev heq
    rcases hnext with hmidi | ⟨-, hdrained⟩
    · rw [hnone hmidi] at hev
      cases hev
    · rw [heq, ← hdrained]
  · intro _ hdead
    rcases hnext with hmidi | ⟨halive, -⟩
    · exact hnone hmidi
    · exact absurd hdead halive

theorem Timely.begin (hs : Timely s) {b newest : Nat} {events : List Scheduled}
    (hchild : s.child = .draining b newest events) (hmidi : s.ring.midi = []) :
    Timely
      { s with
        child := .processing b newest { block := b }
        delivered := s.delivered ++ events.map fun ev => ⟨b, ev⟩ } := by
  have hback := hs.backlog
  rw [hchild] at hback
  have hwaiting : s.waiting = events := by
    rw [Bridge.waiting, hchild, hmidi]
    exact List.append_nil events
  have hnone : Bridge.waiting
      { s with
        child := .processing b newest { block := b }
        delivered := s.delivered ++ events.map fun ev => ⟨b, ev⟩ } = [] := by
    rw [Bridge.waiting, hmidi]
    rfl
  refine ⟨hback, ?_, ?_, ?_, ?_⟩
  · intro d hd
    rcases List.mem_append.mp hd with hd | hd
    · exact hs.own_block d hd
    · obtain ⟨ev, hev, rfl⟩ := List.mem_map.mp hd
      have hnext := hs.next (by rw [hchild]; nofun) ev (by rw [hwaiting]; exact hev)
      rw [hchild] at hnext
      have hpos : 1 ≤ b := hback.1
      dsimp only [Child.drained] at hnext ⊢
      omega
  · rw [hnone, List.append_nil, List.map_append, List.map_map]
    dsimp only
    rw [hs.conserved, hwaiting]
    exact congrArg _ (List.map_id events).symm
  · rw [hnone]
    nofun
  · rw [hnone]
    exact fun _ => nofun

theorem Timely.drain (hs : Timely s) {b newest : Nat} {events rest : List Scheduled}
    {ev : Scheduled} (hchild : s.child = .draining b newest events)
    (hmidi : s.ring.midi = ev :: rest) :
    Timely
      { s with
        child := .draining b newest (events ++ [ev])
        ring := { s.ring with midi := rest } } := by
  have hback := hs.backlog
  rw [hchild] at hback
  refine hs.keep hback rfl rfl ?_ ?_ ?_
  · rw [Bridge.waiting, Bridge.waiting, hchild, hmidi]
    exact List.append_assoc events [ev] rest
  · intro _ other _ heq
    rw [hchild] at heq
    exact heq
  · intro _ hdead
    rw [hchild] at hdead
    cases hdead

/-- A step of the call, or after it, that leaves the child at its block or moves
it to the next one. -/
theorem Timely.past (hs : Timely s) (hout : s.child.inHand = []) (halive : s.child ≠ .dead)
    (hin : t.child.inHand = []) (hback : t.child.InBacklog t.ring.input_seq)
    (hdrained : t.child.drained = s.child.drained) (hdelivered : t.delivered = s.delivered)
    (hpushed : t.pushed = s.pushed) (hmidi : t.ring.midi = s.ring.midi) : Timely t := by
  refine hs.keep hback hdelivered hpushed ?_ ?_ ?_
  · rw [Bridge.waiting, Bridge.waiting, hin, hout, hmidi]
  · intro _ ev _ heq
    rw [hdrained]
    exact heq
  · intro _ hdead
    exact absurd hdead halive

theorem Timely.childStep (hs : Timely s) (hstep : ChildStep s t)
    (hpass : s.PassesOver → s.ring.midi = []) : Timely t := by
  have hback := hs.backlog
  cases hstep with
  | restart hchild =>
      rw [Bridge.PassesOver, hchild] at hpass
      exact hs.pass (by rw [hchild]; rfl) rfl (Nat.zero_le _) (Or.inl (hpass trivial))
  | @poll last_in hchild hnewest =>
      rw [Bridge.PassesOver, hchild] at hpass
      rw [hchild] at hback
      obtain ⟨hone, hle, -⟩ := resumePoint_bounds hback hnewest
      refine hs.pass (by rw [hchild]; rfl) rfl ⟨hone, Nat.le_succ_of_le hle, Nat.le_refl _⟩ ?_
      by_cases hresume : resumePoint last_in s.ring.input_seq = last_in + 1
      · refine Or.inr ⟨by rw [hchild]; nofun, ?_⟩
        rw [hchild]
        dsimp only [Child.drained]
        rw [hresume, Nat.add_sub_cancel]
      · exact Or.inl (hpass hresume)
  | @caughtUp b newest hchild hb =>
      rw [hchild] at hback
      refine hs.pass (by rw [hchild]; rfl) rfl hback.2.2 (Or.inr ⟨by rw [hchild]; nofun, ?_⟩)
      have hle : b ≤ newest + 1 := hback.2.1
      rw [hchild]
      dsimp only [Child.drained]
      omega
  | skip hchild hb hstamp =>
      rw [hchild] at hback
      rw [Bridge.PassesOver, hchild] at hpass
      exact hs.pass (by rw [hchild]; rfl) rfl
        ⟨Nat.le_add_left 1 _, Nat.succ_le_succ hb, hback.2.2⟩
        (Or.inl (hpass ⟨hb, hstamp⟩))
  | enter hchild hb hstamp =>
      rw [hchild] at hback
      exact hs.pass (by rw [hchild]; rfl) rfl ⟨hback.1, hb, hback.2.2⟩
        (Or.inr ⟨by rw [hchild]; nofun, by rw [hchild]; rfl⟩)
  | drain hchild hmidi => exact hs.drain hchild hmidi
  | begin hchild hmidi => exact hs.begin hchild hmidi
  | read hchild hi =>
      rw [hchild] at hback
      exact hs.past (by rw [hchild]; rfl) (by rw [hchild]; nofun) rfl hback (by rw [hchild]; rfl)
        rfl rfl rfl
  | write x hchild hi =>
      rw [hchild] at hback
      exact hs.past (by rw [hchild]; rfl) (by rw [hchild]; nofun) rfl hback (by rw [hchild]; rfl)
        rfl rfl rfl
  | finish hchild hcomplete =>
      rw [hchild] at hback
      exact hs.past (by rw [hchild]; rfl) (by rw [hchild]; nofun) rfl hback (by rw [hchild]; rfl)
        rfl rfl rfl
  | torn hchild hstamp =>
      rw [hchild] at hback
      exact hs.past (by rw [hchild]; rfl) (by rw [hchild]; nofun) rfl
        ⟨Nat.le_add_left 1 _, Nat.succ_le_succ hback.2.1, hback.2.2⟩ (by rw [hchild]; rfl) rfl rfl
        rfl
  | confirm hchild hstamp =>
      rw [hchild] at hback
      exact hs.past (by rw [hchild]; rfl) (by rw [hchild]; nofun) rfl hback (by rw [hchild]; rfl)
        rfl rfl rfl
  | publishOut hchild =>
      rw [hchild] at hback
      exact hs.past (by rw [hchild]; rfl) (by rw [hchild]; nofun) rfl
        ⟨Nat.le_add_left 1 _, Nat.succ_le_succ hback.2.1, hback.2.2⟩ (by rw [hchild]; rfl) rfl rfl
        rfl

theorem Timely.die (hs : Timely s) (hstep : Die s t) (hhand : s.child.inHand = []) : Timely t := by
  cases hstep with
  | die =>
      refine hs.keep trivial rfl rfl ?_ ?_ ?_
      · rw [Bridge.waiting, Bridge.waiting, hhand]
        rfl
      · intro halive
        exact absurd rfl halive
      · intro halive
        exact absurd rfl halive

theorem input_seq_push (s : Bridge α) (ev : MidiEvent) :
    (s.push ev).ring.input_seq = s.ring.input_seq := by
  obtain ⟨midi, pushed, heq⟩ := push_eq s ev
  rw [heq]

variable [Zero α]

/-- What a step of the audio thread does to the events: it pushes one for the
next block, or none. -/
theorem EngineStep.midi (hstep : EngineStep s t) :
    s.ring.input_seq ≤ t.ring.input_seq ∧ t.child = s.child ∧ t.delivered = s.delivered ∧
      ((t.ring.midi = s.ring.midi ∧ t.pushed = s.pushed) ∨
        ∃ ev : Scheduled, ev.block = s.ring.input_seq + 1 ∧
          t.ring.midi = (pushMidiEvent s.ring ev).midi ∧ t.pushed = s.pushed ++ [ev]) := by
  cases hstep with
  | emitMidi ev hengine =>
      exact ⟨Nat.le_of_eq (input_seq_push s ev).symm, rfl, rfl, Or.inr ⟨_, rfl, rfl, rfl⟩⟩
  | emit hengine =>
      exact ⟨Nat.le_of_eq (input_seq_push s _).symm, rfl, rfl, Or.inr ⟨_, rfl, rfl, rfl⟩⟩
  | process node input notes hengine => exact ⟨Nat.le_refl _, rfl, rfl, Or.inl ⟨rfl, rfl⟩⟩
  | store hengine hi => exact ⟨Nat.le_refl _, rfl, rfl, Or.inl ⟨rfl, rfl⟩⟩
  | stored hengine hi => exact ⟨Nat.le_refl _, rfl, rfl, Or.inl ⟨rfl, rfl⟩⟩
  | stamp hengine => exact ⟨Nat.le_refl _, rfl, rfl, Or.inl ⟨rfl, rfl⟩⟩
  | publish hengine => exact ⟨Nat.le_succ _, rfl, rfl, Or.inl ⟨rfl, rfl⟩⟩
  | fill hengine hseq => exact ⟨Nat.le_refl _, rfl, rfl, Or.inl ⟨rfl, rfl⟩⟩
  | collect hengine hseq hsource => exact ⟨Nat.le_refl _, rfl, rfl, Or.inl ⟨rfl, rfl⟩⟩
  | copy hengine hi => exact ⟨Nat.le_refl _, rfl, rfl, Or.inl ⟨rfl, rfl⟩⟩
  | copied hengine hi => exact ⟨Nat.le_refl _, rfl, rfl, Or.inl ⟨rfl, rfl⟩⟩

theorem Timely.start : Timely (Bridge.start α) :=
  ⟨Nat.le_refl 0, nofun, rfl, nofun, fun _ => nofun⟩

theorem Timely.engineStep (hs : Timely s) (hstep : EngineStep s t)
    (hpush : t.pushed ≠ s.pushed →
      s.ring.midi.length < kMidiQueueSlots ∧ s.child.drained = s.ring.input_seq) :
    Timely t := by
  obtain ⟨hseq, hchild, hdelivered, ⟨hmidi, hpushed⟩ | ⟨ev, hblock, hmidi, hpushed⟩⟩ := hstep.midi
  · refine hs.keep (by rw [hchild]; exact hs.backlog.mono hseq) hdelivered hpushed ?_ ?_ ?_
    · rw [Bridge.waiting, hchild, hmidi, Bridge.waiting]
    · intro _ ev _ hnext
      rw [hchild]
      exact hnext
    · intro halive hdead
      rw [hchild] at halive
      exact absurd hdead halive
  · have hne : t.pushed ≠ s.pushed := by
      rw [hpushed]
      exact fun heq => absurd (List.append_right_eq_self.mp heq) (List.cons_ne_nil _ _)
    obtain ⟨hroom, hdrained⟩ := hpush hne
    have hwaiting : t.waiting = s.waiting ++ [ev] := by
      rw [Bridge.waiting, hchild, hmidi, pushMidiEvent, if_neg (Nat.not_le.mpr hroom),
        Bridge.waiting, List.append_assoc]
    refine ⟨?_, ?_, ?_, ?_, ?_⟩
    · rw [hchild]
      exact hs.backlog.mono hseq
    · rw [hdelivered]
      exact hs.own_block
    · rw [hpushed, hdelivered, hwaiting, hs.conserved, List.append_assoc]
    · rw [hwaiting]
      intro other hother
      rcases List.mem_append.mp hother with hother | hother
      · exact hs.pos other hother
      · rw [List.mem_singleton.mp hother, hblock]
        exact Nat.succ_pos _
    · rw [hwaiting, hchild]
      intro halive other hother
      rcases List.mem_append.mp hother with hother | hother
      · exact hs.next halive other hother
      · rw [List.mem_singleton.mp hother, hblock, hdrained]

theorem Timely.step (hs : Timely s) (hstep : TimelyStep s t) : Timely t := by
  cases hstep with
  | engine hstep hpush => exact hs.engineStep hstep hpush
  | child hstep hpass => exact hs.childStep hstep hpass
  | die hstep hhand => exact hs.die hstep hhand

/-- In every run whose steps keep the events with their blocks, an event is
delivered in the call for its block and in no other. -/
theorem midiOnTime_of_run (hrun : Run.Reaches TimelyStep (Bridge.start α) s) : s.MidiOnTime :=
  (hrun.invariant Timely.start fun _ _ hstep ha => ha.step hstep).onTime

section Example

/-- A note at sample 10 of its block. -/
def noteOn : MidiEvent := { kind := .noteOn, data1 := 60, data2 := 100, sample_offset := 10 }

/-- The child keeps up with the engine: the note of block 1 is delivered in the
call for block 1. -/
theorem midiOnTime_of_run_oneNote :
    ∃ s : Bridge ℤ, s.MidiOnTime ∧ s.delivered = [⟨1, ⟨1, noteOn⟩⟩] := by
  have hpushed : Run.Reaches TimelyStep (Bridge.start ℤ) ((Bridge.start ℤ).push noteOn) :=
    Relation.ReflTransGen.single (.engine (.emitMidi noteOn rfl) fun _ => ⟨by decide, rfl⟩)
  obtain ⟨in_, hpublished⟩ := reaches_published
    (fun _ _ hstep _ hnone => TimelyStep.engine hstep fun hsome => absurd hnone hsome)
    (s := (Bridge.start ℤ).push noteOn) oneBlock (fun _ => 0) rfl
  have hfilled := (hpushed.trans hpublished).tail
    (.engine (.fill rfl (Nat.le_refl 1)) fun hsome => absurd rfl hsome)
  have hbacklog := hfilled.tail
    (.child (.poll rfl Nat.one_ne_zero) fun hpass => absurd rfl hpass)
  have hentered := hbacklog.tail
    (.child (.enter rfl (Nat.le_refl 1) rfl) fun hpass => absurd rfl hpass.2)
  have hdrained := hentered.tail (.child (.drain rfl rfl) nofun)
  have hbegun := hdrained.tail (.child (.begin rfl rfl) nofun)
  exact ⟨_, midiOnTime_of_run hbegun, rfl⟩

/-- Two blocks are deposited before the child drains: the note of block 2 is
delivered in the call for block 1. -/
theorem not_midiOnTime_burst :
    ∃ s : Bridge ℤ, Run.Reaches Step (Bridge.start ℤ) s ∧ ¬ s.MidiOnTime := by
  obtain ⟨in_, hpublished⟩ := reaches_published (fun _ _ hstep _ _ => Step.engine hstep)
    (s := Bridge.start ℤ) oneBlock (fun _ => 0) rfl
  have hfilled : Run.Reaches Step (Bridge.start ℤ) (deposited in_ (.polling 0)) :=
    hpublished.tail (.engine (.fill rfl (Nat.le_refl 1)))
  have hpushed : Run.Reaches Step (Bridge.start ℤ) ((deposited in_ (.polling 0)).push noteOn) :=
    hfilled.tail (.engine (.emitMidi noteOn rfl))
  obtain ⟨in_', hpublished'⟩ := reaches_published (fun _ _ hstep _ _ => Step.engine hstep)
    (s := (deposited in_ (.polling 0)).push noteOn) oneBlock (fun _ => 0) rfl
  have hbacklog := (hpushed.trans hpublished').tail (.child (.poll rfl (Nat.succ_ne_zero 1)))
  have hentered := hbacklog.tail (.child (.enter rfl (Nat.le_succ 1) rfl))
  have hdrained := hentered.tail (.child (.drain rfl rfl))
  have hbegun := hdrained.tail (.child (.begin rfl rfl))
  refine ⟨_, hbegun, fun hontime => ?_⟩
  have hsame : 1 = 2 := hontime.own_block ⟨1, ⟨2, noteOn⟩⟩ List.mem_cons_self
  exact absurd hsame (by decide)

end Example

end DawProject.Host
