import DawProject.Audio.TapPlayer

/-!
The way of the master output from the audio thread to the peers of a jam: the tap
of the engine, its messages to the page, `onAudioTap` of `web/src/app/wiring.ts`,
and the worklet that the page feeds, `JamAudio` of `web/src/network/jam_audio.ts`.
Frames are lost where the ring is full, where the connection is down, while nothing
is broadcast and where the worklet has fallen behind; what is played is in order
all the same, and nothing is played twice.
-/

namespace DawProject.Audio

open SpscRing
open TapRing (kSlots kBlockFrames)
open TapPlayer (PRIME)

structure Jam (α : Type) where
  tap : TapRing α
  /-- The frames of all calls of `pushSamples`. -/
  fed : List α := []
  /-- The messages of the tap that have reached the page, or were lost. -/
  handled : ℕ := 0
  /-- Which of them reached it. -/
  taken : List ℕ := []
  tapNextSeq : Option ℕ := none
  tapGaps : ℕ := 0
  broadcasting : Bool := false
  node : Option (Node α) := none

def Jam.start {α : Type} (blocks : ℕ → List α) : Jam α := { tap := TapRing.init blocks }

inductive JamEvent (α : Type) where
  /-- A step of the engine. -/
  | tap (e : TapEvent α)
  /-- The next message of the tap reaches the page. -/
  | onAudioTap
  /-- The next message of the tap is lost with the connection. -/
  | lose
  | setRole (broadcasting : Bool)
  | initBroadcast
  | stop
  /-- The next block reaches the worklet. -/
  | onmessage
  | process (length : ℕ)

section Steps

variable {α : Type}

def Jam.onAudioTap (s : Jam α) (m : AudioTap α) : Jam α :=
  { s with
    handled := s.handled + 1
    taken := s.taken ++ [s.handled]
    tapGaps :=
      match s.tapNextSeq with
      | some seq => if m.first_seq ≠ seq then s.tapGaps + 1 else s.tapGaps
      | none => s.tapGaps
    tapNextSeq := some (m.first_seq + m.block_count)
    node := s.node.map fun n => if s.broadcasting then n.feed m else n.miss }

def Jam.step [Zero α] (s : Jam α) : JamEvent α → Option (Jam α)
  | .tap e => (s.tap.step e).map fun tap => { s with tap := tap, fed := s.fed ++ e.fed }
  | .onAudioTap => s.tap.messages[s.handled]?.map s.onAudioTap
  | .lose =>
      s.tap.messages[s.handled]?.map fun _ =>
        { s with handled := s.handled + 1, node := s.node.map Node.miss }
  | .setRole broadcasting => some { s with broadcasting := broadcasting }
  | .initBroadcast =>
      match s.node with
      | some _ => some s
      | none => some { s with node := some { since := s.handled } }
  | .stop => some { s with node := none }
  | .onmessage => do
      let node ← s.node
      let next ← node.onmessage
      some { s with node := some next }
  | .process length => s.node.map fun node => { s with node := some (node.process length) }

/-- The places where messages that reached the page do not follow one another. -/
def breaks : List ℕ → ℕ
  | i :: j :: taken => (if j = i + 1 then 0 else 1) + breaks (j :: taken)
  | _ => 0

/-- What a peer hears is the master output in its order, each frame at most once,
and whole where nothing is missed and the worklet is not late. It never has more
than 50 blocks, and of the blocks it gets no more than one in four ends in an
underrun. The page counts the gaps. -/
structure Jam.Faithful [Zero α] (s : Jam α) : Prop where
  played : ∀ node ∈ s.node, ∃ heard, HeardIn heard node.outputs ∧ heard.flatten.Sublist s.fed ∧
    (node.spliced = 0 → node.missed = 0 →
      heard.flatten <+: ((s.tap.messages.drop node.since).map AudioTap.samples).flatten)
  bounded : ∀ node ∈ s.node, node.player.queue.length ≤ 50
  underruns : ∀ node ∈ s.node, PRIME * node.player.underruns ≤ node.arrived
  gaps : s.tapGaps = breaks s.taken

end Steps

section Tap

variable {α : Type} {t next : TapRing α} {e : TapEvent α}

/-- The frames in the blocks that have been offered, and those that wait. -/
def TapRing.offered (t : TapRing α) : List α :=
  (t.queue.offers.map Prod.fst).flatten ++ t.pending

theorem offered_ringStep (hinv : TapInv t) {e : Event (List α)} (hstep : t.ringStep e = some next) :
    next.offered = t.offered := by
  rcases ringStep_cases hinv.overrun hstep with ⟨block, hproducer, rfl⟩ | ⟨block, hproducer, rfl⟩ |
    ⟨w, buf, -, rfl⟩ | ⟨queue, rfl, hoffers, -, hflight, -⟩
  · simp [TapRing.offered, TapRing.pending, hproducer, inFlight]
  · simp [TapRing.offered, TapRing.pending, hproducer, inFlight]
  · rfl
  · simp [TapRing.offered, TapRing.pending, hoffers, hflight]

/-- Only the frames of a call are added, and a tap that is disabled drops its own. -/
theorem offered_step (hinv : TapInv t) (hstep : t.step e = some next) :
    next.offered.Sublist (t.offered ++ e.fed) := by
  have hquiet : next.offered = t.offered → next.offered.Sublist (t.offered ++ e.fed) :=
    fun heq => heq ▸ List.sublist_append_left _ _
  cases e with
  | setEnabled enabled =>
      rw [← Option.some.inj hstep] at hquiet ⊢
      exact hquiet rfl
  | pushSamples interleaved =>
      simp only [TapRing.step] at hstep
      split at hstep
      · cases hstep
      · rename_i hframes
        split at hstep
        · rw [← Option.some.inj hstep]
          simp [TapRing.offered, TapRing.pending, hframes, TapEvent.fed]
        · rw [← Option.some.inj hstep]
          simp [TapRing.offered, TapRing.pending, hframes, TapEvent.fed]
  | take =>
      simp only [TapRing.step] at hstep
      split at hstep
      · rename_i hframes hidle _
        refine hquiet ?_
        obtain ⟨staged, rest, hjoined, ⟨-, rfl⟩ | ⟨-, rfl⟩⟩ :=
          takeStep_cases hidle hinv.staging hstep
        · simp [TapRing.offered, TapRing.pending, hidle, hframes, inFlight, hjoined]
        · simp [TapRing.offered, TapRing.pending, hidle, hframes, inFlight, hjoined]
      · cases hstep
  | drop =>
      simp only [TapRing.step] at hstep
      split at hstep
      · rw [← Option.some.inj hstep] at hquiet ⊢
        exact hquiet rfl
      · cases hstep
  | return_ =>
      simp only [TapRing.step] at hstep
      split at hstep
      · rename_i hframes hidle _
        rw [← Option.some.inj hstep] at hquiet ⊢
        exact hquiet (by simp [TapRing.offered, TapRing.pending, hframes])
      · cases hstep
  | ring e => exact hquiet (offered_ringStep hinv hstep)
  | send =>
      simp only [TapRing.step] at hstep
      split at hstep
      · cases hstep
      · rw [← Option.some.inj hstep] at hquiet ⊢
        exact hquiet rfl

/-- The frames of the messages are among those offered. -/
theorem samples_sublist_offered (hinv : TapInv t) :
    (t.messages.map AudioTap.samples).flatten.Sublist t.offered := by
  have hpopped : (t.messages.map AudioTap.samples).flatten <+: t.queue.popped.flatten :=
    ⟨_, hinv.samples⟩
  obtain ⟨more, hpushed⟩ := hinv.queue.popped_prefix
  have hgrown : t.queue.popped.flatten <+: t.queue.pushed.flatten :=
    ⟨more.flatten, by rw [← hpushed, List.flatten_append]⟩
  have hoffers : t.queue.pushed.Sublist (t.queue.offers.map Prod.fst) :=
    List.filter_sublist.map Prod.fst
  exact ((hpopped.trans hgrown).sublist.trans hoffers.flatten).trans
    (List.sublist_append_left _ _)

theorem messages_of_ringStep {e : Event (List α)} (hstep : t.ringStep e = some next) :
    next.messages = t.messages := by
  obtain ⟨queue, -, hnext⟩ := Option.bind_eq_some_iff.mp hstep
  cases e with
  | offer block => cases hnext
  | compare | smear _ | store | publish | look => rw [← Option.some.inj hnext]
  | start | read | release =>
      dsimp only at hnext
      split at hnext <;> first | cases hnext; done | rw [← Option.some.inj hnext]

theorem messages_of_step (hinv : TapInv t) (hstep : t.step e = some next) :
    t.messages <+: next.messages := by
  cases e with
  | setEnabled enabled => exact Option.some.inj hstep ▸ List.prefix_rfl
  | pushSamples _ | drop | return_ =>
      simp only [TapRing.step] at hstep
      repeat' split at hstep
      all_goals first | cases hstep; done | exact Option.some.inj hstep ▸ List.prefix_rfl
  | take =>
      simp only [TapRing.step] at hstep
      split at hstep
      · rename_i hidle _
        obtain ⟨_, _, -, ⟨-, rfl⟩ | ⟨-, rfl⟩⟩ := takeStep_cases hidle hinv.staging hstep
        · exact List.prefix_rfl
        · exact List.prefix_rfl
      · cases hstep
  | ring e => exact messages_of_ringStep hstep ▸ List.prefix_rfl
  | send =>
      simp only [TapRing.step] at hstep
      split at hstep
      · cases hstep
      · rw [← Option.some.inj hstep]
        exact List.prefix_append _ _

/-- A batch has blocks, and they are whole. -/
structure Whole (t : TapRing α) : Prop where
  messages : ∀ m ∈ t.messages, 0 < m.block_count ∧
    m.samples.length = kBlockFrames * m.block_count
  sending : ∀ sending ∈ t.sending, 0 < sending.2.length ∧
    ∀ block ∈ sending.2, block.length = kBlockFrames
  reading : ∀ w buf, t.queue.consumer = .reading w buf → t.queue.read_idx < w

theorem Whole.init (blocks : ℕ → List α) : Whole (TapRing.init blocks) where
  messages := fun _ hm => absurd hm List.not_mem_nil
  sending := fun _ hsending => absurd hsending.symm (Option.some_ne_none _)
  reading := by
    intro w buf hreading
    cases hreading

theorem length_of_mem_pushed (hinv : TapInv t) {block : List α} (hblock : block ∈ t.queue.pushed) :
    block.length = kBlockFrames := by
  obtain ⟨offer, hoffer, rfl⟩ := List.mem_map.mp hblock
  exact hinv.lengths offer (List.mem_filter.mp hoffer).1

theorem Whole.ringStep (hinv : TapInv t) (h : Whole t) {e : Event (List α)}
    (hstep : t.ringStep e = some next) : Whole next := by
  obtain ⟨queue, hqueue, hnext⟩ := Option.bind_eq_some_iff.mp hstep
  cases e with
  | offer block => cases hnext
  | compare =>
      rw [← Option.some.inj hnext]
      refine ⟨h.messages, h.sending, ?_⟩
      simp only [Queue.step] at hqueue
      repeat' split at hqueue
      all_goals first | cases hqueue; done | exact Option.some.inj hqueue ▸ h.reading
  | smear _ | store | publish =>
      rw [← Option.some.inj hnext]
      refine ⟨h.messages, h.sending, ?_⟩
      simp only [Queue.step] at hqueue
      split at hqueue
      · exact Option.some.inj hqueue ▸ h.reading
      · cases hqueue
  | start =>
      dsimp only at hnext
      split at hnext
      · cases hnext
      · rw [← Option.some.inj hnext]
        refine ⟨h.messages, h.sending, ?_⟩
        simp only [Queue.step] at hqueue
        split at hqueue
        · rw [← Option.some.inj hqueue]
          intro w buf hreading
          cases hreading
        · cases hqueue
  | look =>
      rw [← Option.some.inj hnext]
      refine ⟨h.messages, h.sending, ?_⟩
      simp only [Queue.step] at hqueue
      split at hqueue
      · split at hqueue
        · rw [← Option.some.inj hqueue]
          intro w buf hreading
          cases hreading
        · rename_i hsome
          rw [← Option.some.inj hqueue]
          intro w buf hreading
          cases hreading
          exact Nat.lt_of_le_of_ne hinv.queue.le hsome
      · cases hqueue
  | read =>
      dsimp only at hnext
      split at hnext
      · rw [← Option.some.inj hnext]
        refine ⟨h.messages, h.sending, ?_⟩
        simp only [Queue.step] at hqueue
        split at hqueue
        · rename_i w buf hconsumer
          split at hqueue
          · rw [← Option.some.inj hqueue]
            intro w' buf' hreading
            cases hreading
            exact h.reading w buf hconsumer
          · cases hqueue
        · cases hqueue
      · cases hnext
  | release =>
      dsimp only at hnext
      split at hnext
      · cases hnext
      · rename_i hreads
        simp only [Queue.step] at hqueue
        split at hqueue
        · rename_i w buf hconsumer
          rw [← Option.some.inj hnext, ← Option.some.inj hqueue]
          have hok := hinv.queue.consumer
          rw [hconsumer] at hok
          obtain ⟨-, -, hbuf⟩ := hok
          refine ⟨h.messages, ?_, ?_⟩
          · intro sending hsending
            obtain rfl := Option.some.inj hsending
            rw [hconsumer]
            refine ⟨?_, fun block hblock => ?_⟩
            · rw [Bool.not_eq_true, TapRing.reads, hconsumer] at hreads
              have hlt := h.reading w buf hconsumer
              have hdone := of_decide_eq_false hreads
              have hslots : kSlots = 64 := rfl
              show 0 < buf.length
              omega
            · exact length_of_mem_pushed hinv (List.mem_of_mem_drop (hbuf.subset hblock))
          · intro w' buf' hreading
            cases hreading
        · cases hqueue

theorem Whole.step (hinv : TapInv t) (h : Whole t) (hstep : t.step e = some next) :
    Whole next := by
  cases e with
  | ring e => exact h.ringStep hinv hstep
  | setEnabled enabled =>
      rw [← Option.some.inj hstep]
      exact ⟨h.messages, h.sending, h.reading⟩
  | pushSamples _ | drop | return_ =>
      simp only [TapRing.step] at hstep
      repeat' split at hstep
      all_goals first
        | cases hstep; done
        | rw [← Option.some.inj hstep]; exact ⟨h.messages, h.sending, h.reading⟩
  | take =>
      simp only [TapRing.step] at hstep
      split at hstep
      · rename_i hidle _
        obtain ⟨_, _, -, ⟨-, rfl⟩ | ⟨-, rfl⟩⟩ := takeStep_cases hidle hinv.staging hstep
        · exact ⟨h.messages, h.sending, h.reading⟩
        · exact ⟨h.messages, h.sending, h.reading⟩
      · cases hstep
  | send =>
      simp only [TapRing.step] at hstep
      split at hstep
      · cases hstep
      · rename_i r blocks hsending
        obtain ⟨hsome, hlengths⟩ := h.sending (r, blocks) hsending
        rw [← Option.some.inj hstep]
        refine ⟨?_, fun _ hnone => absurd hnone.symm (Option.some_ne_none _), h.reading⟩
        intro m hm
        rcases List.mem_append.mp hm with hm | hm
        · exact h.messages m hm
        · obtain rfl := List.mem_singleton.mp hm
          refine ⟨hsome, ?_⟩
          show blocks.flatten.length = kBlockFrames * blocks.length
          rw [List.length_flatten, List.map_eq_replicate_iff.mpr hlengths,
            List.sum_replicate_nat, Nat.mul_comm]

end Tap

section Page

variable {α : Type} {messages : List (AudioTap α)} {m : AudioTap α} {handled since k : ℕ}

/-- The frames of the messages handled since then. -/
def due (messages : List (AudioTap α)) (handled since : ℕ) : List α :=
  (((messages.take handled).drop since).map AudioTap.samples).flatten

theorem due_self : due messages handled handled = [] := by
  rw [due, List.drop_eq_nil_of_le (List.length_take_le _ _)]
  rfl

theorem due_succ (hm : messages[handled]? = some m) (hle : since ≤ handled) :
    due messages (handled + 1) since = due messages handled since ++ m.samples := by
  have hlength : since ≤ (messages.take handled).length := by
    have hlt := (List.getElem?_eq_some_iff.mp hm).1
    rw [List.length_take]
    omega
  rw [due, List.take_add_one, hm, Option.toList_some, List.drop_append_of_le_length hlength]
  simp [due]

/-- A message that is sent later is not due. -/
theorem due_grown {later : List (AudioTap α)} (hgrown : messages <+: later)
    (hle : handled ≤ messages.length) : due later handled since = due messages handled since := by
  obtain ⟨more, rfl⟩ := hgrown
  rw [due, List.take_append_of_le_length hle, due]

theorem due_initial : due messages handled since <+:
    ((messages.drop since).map AudioTap.samples).flatten := by
  refine ⟨((messages.drop (max handled since)).map AudioTap.samples).flatten, ?_⟩
  rw [due, ← List.flatten_append, ← List.map_append]
  congr 2
  rcases Nat.le_total handled since with hle | hle
  · rw [Nat.max_eq_right hle, List.drop_eq_nil_of_le
      (Nat.le_trans (List.length_take_le _ _) hle), List.nil_append]
  · rw [Nat.max_eq_left hle, List.drop_take]
    conv_rhs => rw [← List.take_append_drop (handled - since) (messages.drop since)]
    rw [List.drop_drop, Nat.add_sub_cancel' hle]

def blocksBefore (messages : List (AudioTap α)) (k : ℕ) : ℕ :=
  ((messages.take k).map AudioTap.block_count).sum

theorem blocksBefore_succ (hm : messages[k]? = some m) :
    blocksBefore messages (k + 1) = blocksBefore messages k + m.block_count := by
  rw [blocksBefore, List.take_add_one, hm]
  simp [blocksBefore]

theorem blocksBefore_grown {later : List (AudioTap α)} (hgrown : messages <+: later)
    (hle : k ≤ messages.length) : blocksBefore later k = blocksBefore messages k := by
  obtain ⟨more, rfl⟩ := hgrown
  rw [blocksBefore, List.take_append_of_le_length hle, blocksBefore]

theorem blocksBefore_lt (hblocks : ∀ m ∈ messages, 0 < m.block_count) {i : ℕ} (hi : i < k)
    (hk : k ≤ messages.length) : blocksBefore messages i < blocksBefore messages k := by
  induction k with
  | zero => exact absurd hi (Nat.not_lt_zero i)
  | succ k ih =>
      have hm : messages[k]? = some messages[k] := List.getElem?_eq_getElem hk
      have hpos := hblocks messages[k] (List.getElem_mem hk)
      rw [blocksBefore_succ hm]
      rcases Nat.lt_or_eq_of_le (Nat.lt_succ_iff.mp hi) with hlt | rfl
      · exact Nat.lt_add_right _ (ih hlt (Nat.le_of_lt hk))
      · exact Nat.lt_add_of_pos_right hpos

theorem first_seq_eq (hnumbered : Numbered messages) (hm : messages[k]? = some m) :
    m.first_seq = blocksBefore messages k := by
  obtain ⟨hlt, rfl⟩ := List.getElem?_eq_some_iff.mp hm
  refine hnumbered (messages.take k) _ (messages.drop (k + 1)) ?_
  rw [← List.drop_eq_getElem_cons hlt, List.take_append_drop]

theorem breaks_concat (taken : List ℕ) (k : ℕ) : breaks (taken ++ [k]) =
    breaks taken + taken.getLast?.elim 0 fun i => if k = i + 1 then 0 else 1 := by
  induction taken with
  | nil => rfl
  | cons i taken ih =>
      cases taken with
      | nil => simp [breaks]
      | cons j taken =>
          rw [List.cons_append, List.cons_append, breaks, ← List.cons_append, ih, breaks,
            List.getLast?_cons_cons, Nat.add_assoc]

/-- The page has counted the gaps between the messages it has taken. -/
structure Gapped (messages : List (AudioTap α)) (handled : ℕ) (taken : List ℕ)
    (tapNextSeq : Option ℕ) (tapGaps : ℕ) : Prop where
  next : tapNextSeq = taken.getLast?.map fun i => blocksBefore messages (i + 1)
  lt : ∀ i ∈ taken.getLast?, i < handled
  gaps : tapGaps = breaks taken

/-- The sequence number is the next one only if the message is. -/
theorem Gapped.onAudioTap {taken : List ℕ} {tapNextSeq : Option ℕ} {tapGaps : ℕ}
    (h : Gapped messages handled taken tapNextSeq tapGaps) (hnumbered : Numbered messages)
    (hblocks : ∀ m ∈ messages, 0 < m.block_count) (hm : messages[handled]? = some m) :
    Gapped messages (handled + 1) (taken ++ [handled]) (some (m.first_seq + m.block_count))
      (tapNextSeq.elim tapGaps fun seq => if m.first_seq ≠ seq then tapGaps + 1 else tapGaps) := by
  have hfirst := first_seq_eq hnumbered hm
  refine ⟨?_, ?_, ?_⟩
  · rw [List.getLast?_concat, Option.map_some, blocksBefore_succ hm, hfirst]
  · intro i hi
    rw [List.getLast?_concat] at hi
    obtain rfl := Option.some.inj hi
    exact Nat.lt_succ_self _
  · rw [breaks_concat, h.next, h.gaps]
    cases hlast : taken.getLast? with
    | none => rfl
    | some i =>
        have hi := h.lt i hlast
        rw [Option.map_some, Option.elim_some, Option.elim_some, hfirst]
        by_cases hnext : handled = i + 1
        · rw [if_neg (by rw [hnext]; exact fun hne => hne rfl), if_pos hnext, Nat.add_zero]
        · have hhandled := (List.getElem?_eq_some_iff.mp hm).1
          have hlt := blocksBefore_lt hblocks (show i + 1 < handled by omega)
            (Nat.le_of_lt hhandled)
          rw [if_pos (Nat.ne_of_gt hlt), if_neg hnext]

end Page

section Run

variable {α : Type} [Zero α] {s next : Jam α}

/-- What holds of the engine, the page and the worklet in every state. -/
structure JamInv (s : Jam α) : Prop where
  tap : TapInv s.tap
  whole : Whole s.tap
  fed : s.tap.offered.Sublist s.fed
  handled : s.handled ≤ s.tap.messages.length
  since : ∀ n ∈ s.node, n.since ≤ s.handled
  node : ∀ n ∈ s.node, NodeOk (due s.tap.messages s.handled n.since) n
  gapped : Gapped s.tap.messages s.handled s.taken s.tapNextSeq s.tapGaps

theorem JamInv.start (blocks : ℕ → List α) : JamInv (Jam.start blocks) where
  tap := tapInv_init blocks
  whole := .init blocks
  fed := List.nil_sublist _
  handled := Nat.zero_le _
  since := fun _ hn => absurd hn.symm (Option.some_ne_none _)
  node := fun _ hn => absurd hn.symm (Option.some_ne_none _)
  gapped := ⟨rfl, fun _ hi => absurd hi.symm (Option.some_ne_none _), rfl⟩

theorem JamInv.tapStep (h : JamInv s) {e : TapEvent α} {tap : TapRing α}
    (hstep : s.tap.step e = some tap) : JamInv { s with tap := tap, fed := s.fed ++ e.fed } := by
  have hgrown := messages_of_step h.tap hstep
  refine ⟨tapInv_step h.tap hstep, h.whole.step h.tap hstep,
    (offered_step h.tap hstep).trans (h.fed.append (List.Sublist.refl _)),
    Nat.le_trans h.handled hgrown.length_le, h.since, ?_, ?_, h.gapped.lt, h.gapped.gaps⟩
  · intro n hn
    show NodeOk (due tap.messages s.handled n.since) n
    rw [due_grown hgrown h.handled]
    exact h.node n hn
  · show s.tapNextSeq = s.taken.getLast?.map fun i => blocksBefore tap.messages (i + 1)
    rw [h.gapped.next]
    refine Option.map_congr fun i hi => (blocksBefore_grown hgrown ?_).symm
    exact Nat.le_trans (h.gapped.lt i hi) h.handled

/-- The messages are handled one by one, and a node hears one or misses it. -/
theorem JamInv.handle (h : JamInv s) {m : AudioTap α} (hm : s.tap.messages[s.handled]? = some m)
    {taken : List ℕ} {tapNextSeq : Option ℕ} {tapGaps : ℕ} {f : Node α → Node α}
    (hgapped : Gapped s.tap.messages (s.handled + 1) taken tapNextSeq tapGaps)
    (hsince : ∀ n, (f n).since = n.since)
    (hf : ∀ due n, NodeOk due n → NodeOk (due ++ m.samples) (f n)) :
    JamInv { s with
      handled := s.handled + 1
      taken := taken
      tapNextSeq := tapNextSeq
      tapGaps := tapGaps
      node := s.node.map f } := by
  refine ⟨h.tap, h.whole, h.fed, (List.getElem?_eq_some_iff.mp hm).1, ?_, ?_, hgapped⟩
  · intro n hn
    obtain ⟨n, hold, rfl⟩ := Option.map_eq_some_iff.mp hn
    rw [hsince]
    exact Nat.le_succ_of_le (h.since n hold)
  · intro n hn
    obtain ⟨n, hold, rfl⟩ := Option.map_eq_some_iff.mp hn
    show NodeOk (due s.tap.messages (s.handled + 1) (f n).since) (f n)
    rw [hsince, due_succ hm (h.since n hold)]
    exact hf _ n (h.node n hold)

theorem JamInv.onAudioTap (h : JamInv s) {m : AudioTap α}
    (hm : s.tap.messages[s.handled]? = some m) : JamInv (s.onAudioTap m) := by
  have hgapped := h.gapped.onAudioTap h.tap.numbered (fun m hm => (h.whole.messages m hm).1) hm
  have hgaps : (s.onAudioTap m).tapGaps = s.tapNextSeq.elim s.tapGaps
      fun seq => if m.first_seq ≠ seq then s.tapGaps + 1 else s.tapGaps := by
    unfold Jam.onAudioTap
    cases s.tapNextSeq <;> rfl
  rw [← hgaps] at hgapped
  refine h.handle hm hgapped (fun n => ?_) (fun due n hn => ?_)
  · cases s.broadcasting <;> rfl
  · cases s.broadcasting with
    | true => exact hn.feed (h.whole.messages m (List.mem_of_getElem? hm)).2
    | false => exact hn.miss m.samples

/-- A node may be replaced by one that the same frames are due to. -/
theorem JamInv.setNode (h : JamInv s) (node : Option (Node α))
    (hsince : ∀ n ∈ node, n.since ≤ s.handled)
    (hnode : ∀ n ∈ node, NodeOk (due s.tap.messages s.handled n.since) n) :
    JamInv { s with node := node } :=
  ⟨h.tap, h.whole, h.fed, h.handled, hsince, hnode, h.gapped⟩

theorem JamInv.step (h : JamInv s) {e : JamEvent α} (hstep : s.step e = some next) :
    JamInv next := by
  cases e with
  | tap e =>
      obtain ⟨tap, htap, rfl⟩ := Option.map_eq_some_iff.mp hstep
      exact h.tapStep htap
  | onAudioTap =>
      obtain ⟨m, hm, rfl⟩ := Option.map_eq_some_iff.mp hstep
      exact h.onAudioTap hm
  | lose =>
      obtain ⟨m, hm, rfl⟩ := Option.map_eq_some_iff.mp hstep
      refine h.handle hm ⟨h.gapped.next, ?_, h.gapped.gaps⟩ (fun _ => rfl) fun due n hn =>
        hn.miss m.samples
      exact fun i hi => Nat.lt_succ_of_lt (h.gapped.lt i hi)
  | setRole broadcasting =>
      rw [← Option.some.inj hstep]
      exact ⟨h.tap, h.whole, h.fed, h.handled, h.since, h.node, h.gapped⟩
  | initBroadcast =>
      simp only [Jam.step] at hstep
      split at hstep
      · rw [← Option.some.inj hstep]
        exact h
      · rw [← Option.some.inj hstep]
        refine h.setNode _ ?_ ?_
        · intro n hn
          obtain rfl := Option.some.inj hn
          exact Nat.le_refl _
        · intro n hn
          obtain rfl := Option.some.inj hn
          rw [due_self]
          exact .start s.handled
  | stop =>
      rw [← Option.some.inj hstep]
      exact h.setNode none (fun _ hn => absurd hn.symm (Option.some_ne_none _))
        (fun _ hn => absurd hn.symm (Option.some_ne_none _))
  | onmessage =>
      obtain ⟨node, hnode, hrest⟩ := Option.bind_eq_some_iff.mp hstep
      obtain ⟨node', hnode', hnext⟩ := Option.bind_eq_some_iff.mp hrest
      have hsince : node'.since = node.since := by
        unfold Node.onmessage at hnode'
        split at hnode'
        · cases hnode'
        · rw [← Option.some.inj hnode']
      rw [← Option.some.inj hnext]
      refine h.setNode _ ?_ ?_
      · intro n hn
        obtain rfl := Option.some.inj hn
        rw [hsince]
        exact h.since node hnode
      · intro n hn
        obtain rfl := Option.some.inj hn
        rw [hsince]
        exact (h.node node hnode).onmessage hnode'
  | process length =>
      obtain ⟨node, hnode, rfl⟩ := Option.map_eq_some_iff.mp hstep
      refine h.setNode _ ?_ ?_
      · intro n hn
        obtain rfl := Option.some.inj hn
        exact h.since node hnode
      · intro n hn
        obtain rfl := Option.some.inj hn
        exact (h.node node hnode).process length

/-- In every interleaving of the engine, the connection, the page and the worklet. -/
theorem faithful_of_run (blocks : ℕ → List α) {events : List (JamEvent α)}
    (hrun : events.foldlM Jam.step (Jam.start blocks) = some s) : s.Faithful := by
  have hreaches : Run.Reaches (fun s next => ∃ e, Jam.step s e = some next)
      (Jam.start blocks) s := Run.Reaches.of_foldlM (fun _ e _ hstep => ⟨e, hstep⟩) hrun
  have h : JamInv s := by
    refine hreaches.invariant (.start blocks) ?_
    rintro _ _ ⟨_, hstep⟩ h
    exact h.step hstep
  refine ⟨fun n hn => ?_, fun n hn => (h.node n hn).bounded,
    fun n hn => (h.node n hn).counted.le, h.gapped.gaps⟩
  obtain ⟨heard, hplays, hsub, hall⟩ := (h.node n hn).played
  have hheard : heard.flatten <+: heard.flatten ++ n.player.rest ++ n.port.flatten := by
    rw [List.append_assoc]
    exact List.prefix_append _ _
  have hmessages : ((s.tap.messages.drop n.since).map AudioTap.samples).flatten.Sublist s.fed :=
    (((List.drop_sublist _ _).map AudioTap.samples).flatten.trans
      (samples_sublist_offered h.tap)).trans h.fed
  refine ⟨heard, hplays, ?_, fun hspliced hmissed => ?_⟩
  · exact ((hheard.sublist.trans hsub).trans due_initial.sublist).trans hmessages
  · rw [hall hspliced hmissed] at hheard
    exact hheard.trans due_initial

/-- Four blocks of the master reach the worklet, which plays three frames. -/
def fourBlocks : List (JamEvent ℕ) :=
  [.initBroadcast, .setRole true, .tap (.setEnabled true), .tap (.pushSamples (List.range 1024))] ++
    (List.replicate 4 [.tap .take, .tap (.ring .compare), .tap (.ring .store),
      .tap (.ring .publish)]).flatten ++
    [.tap .return_, .tap (.ring .start), .tap (.ring .look)] ++
    List.replicate 4 (.tap (.ring .read)) ++
    [.tap (.ring .release), .tap .send, .onAudioTap] ++ List.replicate 4 .onmessage ++ [.process 3]

theorem faithful_of_run_fourBlocks :
    ∃ s, fourBlocks.foldlM Jam.step (Jam.start fun _ => []) = some s ∧ s.Faithful ∧
      s.node.map Node.outputs = some [[0, 1, 2]] := by
  have hruns : ((fourBlocks.foldlM Jam.step (Jam.start fun _ => [])).map
      fun s => s.node.map Node.outputs) = some (some [[0, 1, 2]]) := by
    decide +kernel
  obtain ⟨s, hrun, houtputs⟩ := Option.map_eq_some_iff.mp hruns
  exact ⟨s, hrun, faithful_of_run _ hrun, houtputs⟩

end Run

end DawProject.Audio
