import DawProject.Lib.Blocks
import DawProject.Lib.SpscRing
import Mathlib.Algebra.GroupWithZero.Nat

/-!
The tap of the master output, `engine/src/audio/tap_ring.h`, and its drain,
`WebSocketServer::pumpTap` of `engine/src/websocket/websocket_server.cpp`. The
audio thread puts frames of any number together to blocks and publishes them
through a ring, or drops them when it is full, while the control thread reads.
The blocks are those of the stream of frames, however it was cut into calls.
-/

namespace DawProject.Audio

open SpscRing

def TapRing.kSlots : ℕ := 64

def TapRing.kBlockFrames : ℕ := 256

open TapRing (kSlots kBlockFrames)

/-- The message of one drain. -/
structure AudioTap (α : Type) where
  first_seq : ℕ
  samples : List α
  block_count : ℕ
  dropped_blocks : ℕ
deriving DecidableEq, Repr

/-- The ring, the frames that are staged and the rest of the call of
`pushSamples` that is running, with the messages sent so far. -/
structure TapRing (α : Type) where
  enabled : Bool := false
  dropped : ℕ := 0
  staging : List α := []
  /-- None between two calls. -/
  frames : Option (List α) := none
  /-- A block has found the ring full and is not counted yet. -/
  overrun : Bool := false
  queue : Queue (List α)
  /-- The first block and the blocks of a drain that has released them. -/
  sending : Option (ℕ × List (List α)) := none
  messages : List (AudioTap α) := []

def TapRing.init {α : Type} (blocks : ℕ → List α) : TapRing α := { queue := .empty blocks }

inductive TapEvent (α : Type) where
  | setEnabled (enabled : Bool)
  /-- A call begins: the flag is loaded. -/
  | pushSamples (interleaved : List α)
  /-- One turn of the loop: frames are staged, and a block that is full is
  taken to the ring. -/
  | take
  /-- The dropped block is counted. -/
  | drop
  /-- The call returns. -/
  | return_
  /-- A load or a store of the ring, on either side. -/
  | ring (e : Event (List α))
  /-- The count of the drops is loaded, and the message goes out. -/
  | send

/-- The frames that an event feeds. -/
def TapEvent.fed {α : Type} : TapEvent α → List α
  | .pushSamples interleaved => interleaved
  | _ => []

section Steps

variable {α : Type}

/-- The blocks that the drain has read since its last store. -/
def batch : Consumer (List α) → List (List α)
  | .reading _ buf => buf
  | _ => []

/-- The loop of `pumpTap` goes on. -/
def TapRing.reads (s : TapRing α) : Bool :=
  match s.queue.consumer with
  | .reading w buf => decide (s.queue.read_idx + buf.length < w ∧ buf.length < kSlots)
  | _ => false

/-- A load or a store of the ring. A block that finds it full is to be counted,
and what the drain has read is to be sent. -/
def TapRing.ringStep (s : TapRing α) (e : Event (List α)) : Option (TapRing α) := do
  let queue ← s.queue.step kSlots kSlots e
  match e with
  | .offer _ => none
  | .compare =>
      some { s with
        queue := queue
        overrun := decide (s.queue.write_idx - s.queue.read_idx ≥ kSlots) }
  | .start => if s.sending.isSome then none else some { s with queue := queue }
  | .read => if s.reads then some { s with queue := queue } else none
  | .release =>
      if s.reads then none
      else
        some { s with
          queue := queue
          sending := some (s.queue.read_idx, batch s.queue.consumer) }
  | _ => some { s with queue := queue }

/-- One turn of the loop of `pushSamples`. -/
def TapRing.takeStep (s : TapRing α) (frames : List α) : Option (TapRing α) :=
  let take :=
    if frames.length < kBlockFrames - s.staging.length then frames.length
    else kBlockFrames - s.staging.length
  let staging := s.staging ++ frames.take take
  if staging.length = kBlockFrames then
    (s.queue.step kSlots kSlots (.offer staging)).map fun queue =>
      { s with staging := [], frames := some (frames.drop take), queue := queue }
  else some { s with staging := staging, frames := some (frames.drop take) }

def TapRing.step (s : TapRing α) : TapEvent α → Option (TapRing α)
  | .setEnabled enabled => some { s with enabled := enabled }
  | .pushSamples interleaved =>
      match s.frames with
      | some _ => none
      | none =>
          if s.enabled then some { s with frames := some interleaved }
          -- a disabled tap never carries stale audio
          else some { s with staging := [] }
  | .take =>
      match s.frames, s.queue.producer, s.overrun with
      | some (frame :: frames), .idle, false => s.takeStep (frame :: frames)
      | _, _, _ => none
  | .drop => if s.overrun then some { s with dropped := s.dropped + 1, overrun := false } else none
  | .return_ =>
      match s.frames, s.queue.producer, s.overrun with
      | some [], .idle, false => some { s with frames := none }
      | _, _, _ => none
  | .ring e => s.ringStep e
  | .send =>
      match s.sending with
      | none => none
      | some (r, blocks) =>
          some { s with
            sending := none
            messages := s.messages ++ [⟨r, blocks.flatten, blocks.length, s.dropped⟩] }

/-- The block that is being published. -/
def inFlight : Producer (List α) → List (List α)
  | .idle => []
  | .offering block | .storing block | .stored block => [block]

/-- The frames of the calls so far that are in no block of the ring yet. -/
def TapRing.pending (s : TapRing α) : List α :=
  (inFlight s.queue.producer).flatten ++ s.staging ++ s.frames.getD []

/-- The blocks that found the ring full. -/
def refused (offers : List (List α × Bool)) : List (List α) :=
  (offers.filter fun offer => !offer.2).map Prod.fst

/-- The blocks released but not sent yet. -/
def TapRing.unsent (s : TapRing α) : List (List α) := (s.sending.map Prod.snd).getD []

/-- Each message starts where those before it end. -/
def Numbered (messages : List (AudioTap α)) : Prop :=
  ∀ before message after, messages = before ++ message :: after →
    message.first_seq = (before.map AudioTap.block_count).sum

/-- What holds of the tap in every state. -/
structure TapInv (s : TapRing α) : Prop where
  queue : Inv kSlots kSlots s.queue
  staging : s.staging.length < kBlockFrames
  inFlight : ∀ block ∈ inFlight s.queue.producer, block.length = kBlockFrames
  lengths : ∀ offer ∈ s.queue.offers, offer.1.length = kBlockFrames
  between : s.frames = none → Audio.inFlight s.queue.producer = [] ∧ s.overrun = false
  overrun : s.overrun = true → Audio.inFlight s.queue.producer = []
  dropped : s.dropped + s.overrun.toNat = (refused s.queue.offers).length
  samples : (s.messages.map AudioTap.samples).flatten ++ s.unsent.flatten = s.queue.popped.flatten
  counts : (s.messages.map AudioTap.block_count).sum + s.unsent.length = s.queue.popped.length
  numbered : Numbered s.messages
  sending : ∀ sending ∈ s.sending, s.queue.consumer = .idle ∧
    sending.1 = (s.messages.map AudioTap.block_count).sum

/-- The blocks offered since a state are those of the frames fed since then,
after the ones that waited. -/
structure Streams (s₀ : TapRing α) (fed : List α) (s : TapRing α) : Prop where
  enabled : s.enabled = true
  offers : ∃ new, s.queue.offers = s₀.queue.offers ++ new ∧
    (new.map Prod.fst).flatten ++ s.pending = s₀.pending ++ fed

end Steps

section Ring

variable {α : Type} {s next : TapRing α} {e : Event (List α)}

theorem eq_false_of_inFlight {block : List α} {p : Producer (List α)}
    (hoverrun : s.overrun = true → inFlight s.queue.producer = []) (hp : s.queue.producer = p)
    (hblock : inFlight p = [block]) : s.overrun = false := by
  apply Bool.eq_false_iff.mpr
  intro htrue
  have hnil := hoverrun htrue
  rw [hp, hblock] at hnil
  cases hnil

/-- What a load or a store of the ring does: a block is refused, published or
released, or no block leaves its place. -/
theorem ringStep_cases (hoverrun : s.overrun = true → inFlight s.queue.producer = [])
    (hstep : s.ringStep e = some next) :
    (∃ block, s.queue.producer = .offering block ∧
        next = { s with
          queue := { s.queue with
            producer := .idle, offers := s.queue.offers ++ [(block, false)] }
          overrun := true }) ∨
      (∃ block, s.queue.producer = .stored block ∧
        next = { s with
          queue := { s.queue with
            producer := .idle
            write_idx := s.queue.write_idx + 1
            offers := s.queue.offers ++ [(block, true)] } }) ∨
      (∃ w buf, s.queue.consumer = .reading w buf ∧
        next = { s with
          queue := { s.queue with
            consumer := .idle
            read_idx := s.queue.read_idx + buf.length
            popped := s.queue.popped ++ buf }
          sending := some (s.queue.read_idx, buf) }) ∨
      ∃ queue, next = { s with queue := queue } ∧ queue.offers = s.queue.offers ∧
        queue.popped = s.queue.popped ∧ inFlight queue.producer = inFlight s.queue.producer ∧
        (s.sending = none ∨ (s.queue.consumer = .idle → queue.consumer = .idle)) := by
  obtain ⟨queue, hqueue, hnext⟩ := Option.bind_eq_some_iff.mp hstep
  cases e with
  | offer block => cases hnext
  | compare =>
      cases hproducer : s.queue.producer <;> simp only [Queue.step, hproducer] at hqueue
      case offering block =>
        dsimp only at hnext
        split at hqueue
        · rename_i hfull
          rw [← Option.some.inj hqueue, decide_eq_true hfull] at hnext
          exact Or.inl ⟨block, rfl, (Option.some.inj hnext).symm⟩
        · rename_i hroom
          rw [← Option.some.inj hqueue, decide_eq_false hroom,
            ← eq_false_of_inFlight hoverrun hproducer rfl] at hnext
          exact Or.inr (Or.inr (Or.inr ⟨_, (Option.some.inj hnext).symm, rfl, rfl, rfl, Or.inr id⟩))
      all_goals cases hqueue
  | smear part =>
      cases hproducer : s.queue.producer <;> simp only [Queue.step, hproducer] at hqueue
      case storing block =>
        refine Or.inr (Or.inr (Or.inr ⟨queue, (Option.some.inj hnext).symm, ?_⟩))
        rw [← Option.some.inj hqueue]
        exact ⟨rfl, rfl, rfl, Or.inr id⟩
      all_goals cases hqueue
  | store =>
      cases hproducer : s.queue.producer <;> simp only [Queue.step, hproducer] at hqueue
      case storing block =>
        refine Or.inr (Or.inr (Or.inr ⟨queue, (Option.some.inj hnext).symm, ?_⟩))
        rw [← Option.some.inj hqueue]
        exact ⟨rfl, rfl, rfl, Or.inr id⟩
      all_goals cases hqueue
  | publish =>
      cases hproducer : s.queue.producer <;> simp only [Queue.step, hproducer] at hqueue
      case stored block =>
        refine Or.inr (Or.inl ⟨block, rfl, ?_⟩)
        rw [← Option.some.inj hnext, ← Option.some.inj hqueue]
      all_goals cases hqueue
  | start =>
      cases hconsumer : s.queue.consumer <;> simp only [Queue.step, hconsumer] at hqueue
      case idle =>
        dsimp only at hnext
        split at hnext
        · cases hnext
        · rename_i hnone
          refine Or.inr (Or.inr (Or.inr ⟨queue, (Option.some.inj hnext).symm, ?_⟩))
          rw [← Option.some.inj hqueue]
          exact ⟨rfl, rfl, rfl, Or.inl (Option.not_isSome_iff_eq_none.mp hnone)⟩
      all_goals cases hqueue
  | look =>
      cases hconsumer : s.queue.consumer <;> simp only [Queue.step, hconsumer] at hqueue
      case looking =>
        refine Or.inr (Or.inr (Or.inr ⟨queue, (Option.some.inj hnext).symm, ?_⟩))
        split at hqueue <;> rw [← Option.some.inj hqueue] <;>
          exact ⟨rfl, rfl, rfl, Or.inr (by simp)⟩
      all_goals cases hqueue
  | read =>
      cases hconsumer : s.queue.consumer <;> simp only [Queue.step, hconsumer] at hqueue
      case reading w buf =>
        dsimp only at hnext
        split at hnext
        · refine Or.inr (Or.inr (Or.inr ⟨queue, (Option.some.inj hnext).symm, ?_⟩))
          split at hqueue
          · rw [← Option.some.inj hqueue]
            exact ⟨rfl, rfl, rfl, Or.inr (by simp)⟩
          · cases hqueue
        · cases hnext
      all_goals cases hqueue
  | release =>
      cases hconsumer : s.queue.consumer <;> simp only [Queue.step, hconsumer] at hqueue
      case reading w buf =>
        dsimp only at hnext
        split at hnext
        · cases hnext
        · refine Or.inr (Or.inr (Or.inl ⟨w, buf, rfl, ?_⟩))
          rw [← Option.some.inj hnext, ← Option.some.inj hqueue, hconsumer, batch]
      all_goals cases hqueue

theorem queue_of_ringStep (hstep : s.ringStep e = some next) :
    s.queue.step kSlots kSlots e = some next.queue := by
  obtain ⟨queue, hqueue, hnext⟩ := Option.bind_eq_some_iff.mp hstep
  have hsame : next.queue = queue := by
    cases e with
    | offer block => cases hnext
    | compare | smear _ | store | publish | look => rw [← Option.some.inj hnext]
    | start | read | release =>
        dsimp only at hnext
        split at hnext <;> first | cases hnext; done | rw [← Option.some.inj hnext]
  rw [hsame]
  exact hqueue

/-- What one turn of the loop does: the staged frames grow, and a full block is
taken to the ring. -/
theorem takeStep_cases {frames : List α} (hidle : s.queue.producer = .idle)
    (hstaging : s.staging.length < kBlockFrames) (hstep : s.takeStep frames = some next) :
    ∃ staged rest, staged ++ rest = s.staging ++ frames ∧
      ((staged.length = kBlockFrames ∧
          next = { s with
            staging := []
            frames := some rest
            queue := { s.queue with producer := .offering staged } }) ∨
        (staged.length < kBlockFrames ∧
          next = { s with staging := staged, frames := some rest })) := by
  unfold TapRing.takeStep at hstep
  dsimp only at hstep
  generalize htake : (if frames.length < kBlockFrames - s.staging.length then frames.length
    else kBlockFrames - s.staging.length) = take at hstep
  refine ⟨s.staging ++ frames.take take, frames.drop take, ?_, ?_⟩
  · rw [List.append_assoc, List.take_append_drop]
  · split at hstep
    · rename_i hfull
      refine Or.inl ⟨hfull, ?_⟩
      simp only [Queue.step, hidle, Option.map_some] at hstep
      exact (Option.some.inj hstep).symm
    · rename_i hpart
      refine Or.inr ⟨?_, (Option.some.inj hstep).symm⟩
      rw [List.length_append, List.length_take] at hpart ⊢
      split at htake <;> omega

end Ring

section Invariant

variable {α : Type} {s next : TapRing α}

@[simp] theorem refused_append_published (offers : List (List α × Bool)) (block : List α) :
    refused (offers ++ [(block, true)]) = refused offers := by
  simp [refused]

@[simp] theorem refused_append_refused (offers : List (List α × Bool)) (block : List α) :
    refused (offers ++ [(block, false)]) = refused offers ++ [block] := by
  simp [refused]

theorem kBlockFrames_pos : 0 < kBlockFrames := by decide

theorem tapInv_init (blocks : ℕ → List α) : TapInv (TapRing.init blocks) := by
  refine ⟨inv_empty blocks, kBlockFrames_pos, nofun, nofun, fun _ => ⟨rfl, rfl⟩, nofun, rfl, rfl, rfl, ?_,
    nofun⟩
  intro before message after hmessages
  cases before <;> cases hmessages

theorem lengths_append {offers : List (List α × Bool)} {block : List α}
    (hlengths : ∀ offer ∈ offers, offer.1.length = kBlockFrames)
    (hblock : block.length = kBlockFrames) (published : Bool) :
    ∀ offer ∈ offers ++ [(block, published)], offer.1.length = kBlockFrames := by
  intro offer hoffer
  rcases List.mem_append.mp hoffer with hold | hnew
  · exact hlengths offer hold
  · rw [List.mem_singleton.mp hnew]
    exact hblock

theorem tapInv_ringStep (hinv : TapInv s) {e : Event (List α)}
    (hstep : s.ringStep e = some next) : TapInv next := by
  have hqueue := inv_step (Nat.le_refl _) hinv.queue (queue_of_ringStep hstep)
  rcases ringStep_cases hinv.overrun hstep with ⟨block, hproducer, rfl⟩ | ⟨block, hproducer, rfl⟩ |
    ⟨w, buf, hconsumer, rfl⟩ | ⟨queue, rfl, hoffers, hpopped, hflight, hidle⟩
  · have hblock : block.length = kBlockFrames :=
      hinv.inFlight block (by rw [hproducer]; exact List.mem_singleton_self block)
    have hcounted : s.overrun = false := eq_false_of_inFlight hinv.overrun hproducer rfl
    refine ⟨hqueue, hinv.staging, nofun, lengths_append hinv.lengths hblock false, ?_, fun _ => rfl,
      ?_, hinv.samples, hinv.counts, hinv.numbered, hinv.sending⟩
    · intro hnone
      obtain ⟨hnil, -⟩ := hinv.between hnone
      rw [hproducer] at hnil
      cases hnil
    · have hdropped := hinv.dropped
      rw [hcounted] at hdropped
      rw [refused_append_refused, List.length_append, ← hdropped]
      rfl
  · have hblock : block.length = kBlockFrames :=
      hinv.inFlight block (by rw [hproducer]; exact List.mem_singleton_self block)
    refine ⟨hqueue, hinv.staging, nofun, lengths_append hinv.lengths hblock true,
      fun hnone => ⟨rfl, (hinv.between hnone).2⟩, fun _ => rfl, ?_, hinv.samples, hinv.counts,
      hinv.numbered, hinv.sending⟩
    rw [refused_append_published]
    exact hinv.dropped
  · have hnone : s.sending = none := by
      apply Option.eq_none_iff_forall_not_mem.mpr
      intro sending hsending
      have hidle := (hinv.sending sending hsending).1
      rw [hconsumer] at hidle
      cases hidle
    have hsamples := hinv.samples
    have hcounts := hinv.counts
    simp only [TapRing.unsent, hnone, Option.map_none, Option.getD_none, List.flatten_nil,
      List.append_nil, List.length_nil, Nat.add_zero] at hsamples hcounts
    refine ⟨hqueue, hinv.staging, hinv.inFlight, hinv.lengths, hinv.between, hinv.overrun,
      hinv.dropped, ?_, ?_, hinv.numbered, ?_⟩
    · simp [TapRing.unsent, hsamples]
    · simp [TapRing.unsent, hcounts]
    · intro sending hsending
      obtain rfl := Option.some.inj hsending
      refine ⟨rfl, ?_⟩
      rw [hcounts]
      exact hinv.queue.popped_length.symm
  · have hflights : ∀ block ∈ inFlight queue.producer, block.length = kBlockFrames := by
      rw [hflight]
      exact hinv.inFlight
    refine ⟨hqueue, hinv.staging, hflights, ?_, ?_, ?_, ?_, ?_, ?_, hinv.numbered, ?_⟩
    · rw [hoffers]
      exact hinv.lengths
    · rw [hflight]
      exact hinv.between
    · rw [hflight]
      exact hinv.overrun
    · rw [hoffers]
      exact hinv.dropped
    · rw [hpopped]
      exact hinv.samples
    · rw [hpopped]
      exact hinv.counts
    · intro sending hsending
      obtain ⟨hconsumer, hfirst⟩ := hinv.sending sending hsending
      refine ⟨?_, hfirst⟩
      rcases hidle with hnone | hidle
      · rw [show s.sending = none from hnone] at hsending
        cases hsending
      · exact hidle hconsumer

/-- A step that leaves the ring's producer idle, with its frames. -/
theorem tapInv_takeStep (hinv : TapInv s) {frames : List α} (hidle : s.queue.producer = .idle)
    (hcounted : s.overrun = false) (hstep : s.takeStep frames = some next) : TapInv next := by
  obtain ⟨staged, rest, -, ⟨hfull, rfl⟩ | ⟨hpart, rfl⟩⟩ := takeStep_cases hidle hinv.staging hstep
  · refine ⟨inv_of_producer hinv.queue trivial, kBlockFrames_pos, ?_, hinv.lengths, nofun, ?_,
      hinv.dropped, hinv.samples, hinv.counts, hinv.numbered, hinv.sending⟩
    · intro block hblock
      rw [List.mem_singleton.mp hblock]
      exact hfull
    · intro htrue
      rw [show s.overrun = true from htrue] at hcounted
      cases hcounted
  · exact ⟨hinv.queue, hpart, hinv.inFlight, hinv.lengths, nofun, hinv.overrun, hinv.dropped,
      hinv.samples, hinv.counts, hinv.numbered, hinv.sending⟩

theorem tapInv_send (hinv : TapInv s) {r : ℕ} {blocks : List (List α)}
    (hsending : s.sending = some (r, blocks)) :
    TapInv { s with
      sending := none
      messages := s.messages ++ [⟨r, blocks.flatten, blocks.length, s.dropped⟩] } := by
  have hsamples := hinv.samples
  have hcounts := hinv.counts
  simp only [TapRing.unsent, hsending, Option.map_some, Option.getD_some] at hsamples hcounts
  refine ⟨hinv.queue, hinv.staging, hinv.inFlight, hinv.lengths, hinv.between, hinv.overrun,
    hinv.dropped, ?_, ?_, ?_, nofun⟩
  · simp [TapRing.unsent, ← hsamples]
  · simp [TapRing.unsent, ← hcounts]
  · intro before message after hmessages
    rcases List.eq_nil_or_concat after with rfl | ⟨after, last, rfl⟩
    · obtain ⟨hbefore, hmessage⟩ := List.append_inj' hmessages rfl
      obtain ⟨rfl, -⟩ := List.cons.inj hmessage
      rw [← hbefore]
      exact (hinv.sending (r, blocks) hsending).2
    · rw [List.concat_eq_append, ← List.cons_append, ← List.append_assoc] at hmessages
      obtain ⟨hold, -⟩ := List.append_inj' hmessages rfl
      exact hinv.numbered before message after hold

theorem tapInv_step (hinv : TapInv s) {e : TapEvent α} (hstep : s.step e = some next) :
    TapInv next := by
  cases e with
  | setEnabled enabled =>
      rw [← Option.some.inj hstep]
      exact ⟨hinv.queue, hinv.staging, hinv.inFlight, hinv.lengths, hinv.between, hinv.overrun,
        hinv.dropped, hinv.samples, hinv.counts, hinv.numbered, hinv.sending⟩
  | pushSamples interleaved =>
      simp only [TapRing.step] at hstep
      split at hstep
      · cases hstep
      · split at hstep
        · rw [← Option.some.inj hstep]
          exact ⟨hinv.queue, hinv.staging, hinv.inFlight, hinv.lengths, nofun, hinv.overrun,
            hinv.dropped, hinv.samples, hinv.counts, hinv.numbered, hinv.sending⟩
        · rw [← Option.some.inj hstep]
          exact ⟨hinv.queue, kBlockFrames_pos, hinv.inFlight, hinv.lengths, hinv.between, hinv.overrun,
            hinv.dropped, hinv.samples, hinv.counts, hinv.numbered, hinv.sending⟩
  | take =>
      simp only [TapRing.step] at hstep
      split at hstep
      · rename_i hidle hcounted
        exact tapInv_takeStep hinv hidle hcounted hstep
      · cases hstep
  | drop =>
      simp only [TapRing.step] at hstep
      split at hstep
      · rename_i hoverrun
        have hdropped := hinv.dropped
        rw [hoverrun] at hdropped
        rw [← Option.some.inj hstep]
        exact ⟨hinv.queue, hinv.staging, hinv.inFlight, hinv.lengths,
          fun hnone => ⟨(hinv.between hnone).1, rfl⟩, nofun, hdropped, hinv.samples, hinv.counts,
          hinv.numbered, hinv.sending⟩
      · cases hstep
  | return_ =>
      simp only [TapRing.step] at hstep
      split at hstep
      · rename_i hidle hcounted
        rw [← Option.some.inj hstep]
        have hflight : inFlight s.queue.producer = [] := by rw [hidle]; rfl
        exact ⟨hinv.queue, hinv.staging, hinv.inFlight, hinv.lengths,
          fun _ => ⟨hflight, hcounted⟩, hinv.overrun, hinv.dropped, hinv.samples, hinv.counts,
          hinv.numbered, hinv.sending⟩
      · cases hstep
  | ring e => exact tapInv_ringStep hinv hstep
  | send =>
      simp only [TapRing.step] at hstep
      split at hstep
      · cases hstep
      · rename_i hsending
        rw [← Option.some.inj hstep]
        exact tapInv_send hinv hsending

theorem tapInv_of_run {events : List (TapEvent α)} (hinv : TapInv s)
    (hrun : events.foldlM TapRing.step s = some next) : TapInv next := by
  have hreaches : Run.Reaches (fun s next => ∃ e, TapRing.step s e = some next) s next :=
    Run.Reaches.of_foldlM (fun _ e _ hstep => ⟨e, hstep⟩) hrun
  exact hreaches.invariant hinv fun _ _ ⟨_, hstep⟩ hinv => tapInv_step hinv hstep

end Invariant

section Stream

variable {α : Type} {s₀ s next : TapRing α} {fed : List α}

/-- A step that takes no block from its place. -/
theorem Streams.of_fed (hstreams : Streams s₀ fed s) (chunk : List α)
    (henabled : next.enabled = true) (hoffers : next.queue.offers = s.queue.offers)
    (hpending : next.pending = s.pending ++ chunk) : Streams s₀ (fed ++ chunk) next := by
  obtain ⟨new, hnew, hstream⟩ := hstreams.offers
  refine ⟨henabled, new, hoffers.trans hnew, ?_⟩
  rw [hpending, ← List.append_assoc, hstream, List.append_assoc]

theorem Streams.of_quiet (hstreams : Streams s₀ fed s) (henabled : next.enabled = true)
    (hoffers : next.queue.offers = s.queue.offers) (hpending : next.pending = s.pending) :
    Streams s₀ fed next := by
  have hfed := hstreams.of_fed [] henabled hoffers (hpending.trans (List.append_nil _).symm)
  rwa [List.append_nil] at hfed

/-- The first block that waits is published or refused. -/
theorem Streams.of_offer (hstreams : Streams s₀ fed s) {block : List α} {published : Bool}
    (henabled : next.enabled = true)
    (hoffers : next.queue.offers = s.queue.offers ++ [(block, published)])
    (hpending : s.pending = block ++ next.pending) : Streams s₀ fed next := by
  obtain ⟨new, hnew, hstream⟩ := hstreams.offers
  refine ⟨henabled, new ++ [(block, published)], ?_, ?_⟩
  · rw [hoffers, hnew, List.append_assoc]
  · rw [← hstream, hpending]
    simp

theorem streams_ringStep (hinv : TapInv s) (hstreams : Streams s₀ fed s) {e : Event (List α)}
    (hstep : s.ringStep e = some next) : Streams s₀ fed next := by
  rcases ringStep_cases hinv.overrun hstep with ⟨block, hproducer, rfl⟩ | ⟨block, hproducer, rfl⟩ |
    ⟨w, buf, -, rfl⟩ | ⟨queue, rfl, hoffers, -, hflight, -⟩
  · refine hstreams.of_offer hstreams.enabled rfl ?_
    simp [TapRing.pending, hproducer, inFlight]
  · refine hstreams.of_offer hstreams.enabled rfl ?_
    simp [TapRing.pending, hproducer, inFlight]
  · exact hstreams.of_quiet hstreams.enabled rfl rfl
  · refine hstreams.of_quiet hstreams.enabled hoffers ?_
    rw [TapRing.pending, hflight, TapRing.pending]

theorem streams_takeStep (hinv : TapInv s) (hstreams : Streams s₀ fed s) {frames : List α}
    (hidle : s.queue.producer = .idle) (hframes : s.frames = some frames)
    (hstep : s.takeStep frames = some next) : Streams s₀ fed next := by
  obtain ⟨staged, rest, hjoined, ⟨-, rfl⟩ | ⟨-, rfl⟩⟩ := takeStep_cases hidle hinv.staging hstep
  · refine hstreams.of_quiet hstreams.enabled rfl ?_
    simp [TapRing.pending, hidle, hframes, inFlight, hjoined]
  · refine hstreams.of_quiet hstreams.enabled rfl ?_
    simp [TapRing.pending, hidle, hframes, inFlight, hjoined]

theorem streams_step (hinv : TapInv s) (hstreams : Streams s₀ fed s) {e : TapEvent α}
    (hstays : e ≠ .setEnabled false) (hstep : s.step e = some next) :
    Streams s₀ (fed ++ e.fed) next := by
  cases e with
  | setEnabled enabled =>
      rw [← Option.some.inj hstep]
      refine hstreams.of_fed [] ?_ rfl (List.append_nil _).symm
      cases enabled with
      | false => exact absurd rfl hstays
      | true => rfl
  | pushSamples interleaved =>
      simp only [TapRing.step] at hstep
      split at hstep
      · cases hstep
      · rename_i hframes
        rw [if_pos hstreams.enabled] at hstep
        rw [← Option.some.inj hstep]
        refine hstreams.of_fed interleaved hstreams.enabled rfl ?_
        simp [TapRing.pending, hframes]
  | take =>
      show Streams s₀ (fed ++ []) next
      rw [List.append_nil]
      simp only [TapRing.step] at hstep
      split at hstep
      · rename_i hframes hidle _
        exact streams_takeStep hinv hstreams hidle hframes hstep
      · cases hstep
  | drop =>
      simp only [TapRing.step] at hstep
      split at hstep
      · rw [← Option.some.inj hstep]
        exact hstreams.of_fed [] hstreams.enabled rfl (List.append_nil _).symm
      · cases hstep
  | return_ =>
      simp only [TapRing.step] at hstep
      split at hstep
      · rename_i hframes hidle _
        rw [← Option.some.inj hstep]
        refine hstreams.of_fed [] hstreams.enabled rfl ?_
        simp [TapRing.pending, hframes]
      · cases hstep
  | ring e =>
      show Streams s₀ (fed ++ []) next
      rw [List.append_nil]
      exact streams_ringStep hinv hstreams hstep
  | send =>
      simp only [TapRing.step] at hstep
      split at hstep
      · cases hstep
      · rw [← Option.some.inj hstep]
        exact hstreams.of_fed [] hstreams.enabled rfl (List.append_nil _).symm

theorem streams_of_run {events : List (TapEvent α)} (hinv : TapInv s)
    (hstreams : Streams s₀ fed s) (hstays : TapEvent.setEnabled false ∉ events)
    (hrun : events.foldlM TapRing.step s = some next) :
    Streams s₀ (fed ++ events.flatMap TapEvent.fed) next := by
  induction events generalizing s fed with
  | nil =>
      obtain rfl := Option.some.inj hrun
      rw [List.flatMap_nil, List.append_nil]
      exact hstreams
  | cons e events ih =>
      rw [List.foldlM_cons] at hrun
      obtain ⟨mid, hmid, hrest⟩ := Option.bind_eq_some_iff.mp hrun
      have hnext := streams_step hinv hstreams
        (fun heq => hstays (heq ▸ List.mem_cons_self)) hmid
      rw [List.flatMap_cons, ← List.append_assoc]
      exact ih (tapInv_step hinv hmid) hnext
        (fun hmem => hstays (List.mem_cons_of_mem e hmem)) hrest

/-- What a block holds while it waits, it holds after every step. -/
theorem slot_of_step (hinv : TapInv s) {e : TapEvent α} (hstep : s.step e = some next) {k : ℕ}
    (hle : s.queue.read_idx ≤ k) (hlt : k < s.queue.write_idx) :
    next.queue.slots (k % kSlots) = s.queue.slots (k % kSlots) := by
  cases e with
  | ring e => exact hinv.queue.slot_of_step (Nat.le_refl _) (queue_of_ringStep hstep) hle hlt
  | take =>
      simp only [TapRing.step] at hstep
      split at hstep
      · rename_i hidle _
        obtain ⟨_, _, -, ⟨-, rfl⟩ | ⟨-, rfl⟩⟩ := takeStep_cases hidle hinv.staging hstep
        · rfl
        · rfl
      · cases hstep
  | setEnabled enabled => rw [← Option.some.inj hstep]
  | pushSamples _ | drop | return_ | send =>
      simp only [TapRing.step] at hstep
      repeat' split at hstep
      all_goals first | cases hstep; done | rw [← Option.some.inj hstep]

/-- The blocks that were published. -/
def published (offers : List (List α × Bool)) : List (List α) :=
  (offers.filter Prod.snd).map Prod.fst

/-- In every interleaving in which the tap stays enabled, the blocks offered to
the ring are those of the stream of frames. Those refused are counted, the others
reach the drain in their order, and no step writes a block that waits for it. -/
theorem tapRing_blocks (blocks : ℕ → List α) (before events : List (TapEvent α))
    (hbefore : before.foldlM TapRing.step (TapRing.init blocks) = some s₀)
    (henabled : s₀.enabled = true) (hstays : TapEvent.setEnabled false ∉ events)
    (hrun : events.foldlM TapRing.step s₀ = some s) :
    ∃ new,
      (∀ i block ok, new[i]? = some (block, ok) → block.length = kBlockFrames ∧
        block = Blocks.block kBlockFrames i (s₀.pending ++ events.flatMap TapEvent.fed)) ∧
      (s.frames = none →
        new.length = (s₀.pending ++ events.flatMap TapEvent.fed).length / kBlockFrames) ∧
      s.queue.pushed = s₀.queue.pushed ++ published new ∧
      s.dropped + s.overrun.toNat = s₀.dropped + s₀.overrun.toNat + (refused new).length ∧
      s.queue.popped <+: s.queue.pushed ∧ Numbered s.messages ∧
      (s.messages.map AudioTap.samples).flatten ++ s.unsent.flatten = s.queue.popped.flatten ∧
      ∀ k block, s.queue.read_idx ≤ k → s.queue.pushed[k]? = some block →
        s.queue.slots (k % kSlots) = block ∧
        ∀ e next, s.step e = some next → next.queue.slots (k % kSlots) = block := by
  have hinv₀ := tapInv_of_run (tapInv_init blocks) hbefore
  have hinv := tapInv_of_run hinv₀ hrun
  have hstart : Streams s₀ [] s₀ := ⟨henabled, [], by simp, by simp⟩
  obtain ⟨-, new, hnew, hstream⟩ := streams_of_run hinv₀ hstart hstays hrun
  rw [List.nil_append] at hstream
  have hlengths : ∀ block ∈ new.map Prod.fst, block.length = kBlockFrames := by
    intro block hblock
    obtain ⟨offer, hoffer, rfl⟩ := List.mem_map.mp hblock
    exact hinv.lengths offer (hnew ▸ List.mem_append_right _ hoffer)
  refine ⟨new, ?_, ?_, ?_, ?_, hinv.queue.popped_prefix, hinv.numbered, hinv.samples, ?_⟩
  · intro i block ok hget
    have hblock : (new.map Prod.fst)[i]? = some block := by
      rw [List.getElem?_map, hget]
      rfl
    refine ⟨hlengths block (List.mem_of_getElem? hblock), ?_⟩
    rw [← hstream]
    exact (Blocks.block_flatten_append hlengths hblock).symm
  · intro hnone
    obtain ⟨hflight, -⟩ := hinv.between hnone
    have hpending : s.pending = s.staging := by simp [TapRing.pending, hflight, hnone]
    rw [← hstream, hpending, Blocks.length_flatten_append_div hlengths hinv.staging,
      List.length_map]
  · rw [Queue.pushed, hnew, List.filter_append, List.map_append, Queue.pushed, published]
  · rw [hinv.dropped, hinv₀.dropped, hnew]
    simp [refused]
  · intro k block hle hget
    have hslot := hinv.queue.stored k block hle hget
    have hlt : k < s.queue.write_idx := by
      rw [← hinv.queue.length]
      exact (List.getElem?_eq_some_iff.mp hget).1
    exact ⟨hslot, fun e next hstep => (slot_of_step hinv hstep hle hlt).trans hslot⟩

/-- A call that is longer than a block, whose rest is staged. -/
def longCall : List (TapEvent ℕ) :=
  [.pushSamples (List.range 300), .take, .ring .compare, .ring .store, .ring .publish, .take,
    .return_]

def enabledTap : TapRing ℕ := { TapRing.init (fun _ => []) with enabled := true }

theorem tapRing_blocks_longCall :
    ∃ s, longCall.foldlM TapRing.step enabledTap = some s ∧
      ∃ new, s.queue.pushed = published new ∧ new.length = 1 ∧
        ∀ i block ok, new[i]? = some (block, ok) → block.length = kBlockFrames ∧
          block = Blocks.block kBlockFrames i (List.range 300) := by
  have hruns : ((longCall.foldlM TapRing.step enabledTap).map fun s => s.frames) = some none := by
    decide +kernel
  obtain ⟨s, hrun, hframes⟩ := Option.map_eq_some_iff.mp hruns
  have hbefore : [.setEnabled true].foldlM TapRing.step (TapRing.init fun _ => []) =
      some enabledTap := rfl
  obtain ⟨new, hnew, hlength, hpushed, -⟩ :=
    tapRing_blocks (fun _ => []) [.setEnabled true] longCall hbefore rfl (by simp [longCall]) hrun
  have hstream : enabledTap.pending ++ longCall.flatMap TapEvent.fed = List.range 300 := by
    decide +kernel
  rw [hstream] at hnew hlength
  exact ⟨s, hrun, new, hpushed, (hlength hframes).trans (by decide +kernel), hnew⟩

end Stream

end DawProject.Audio
