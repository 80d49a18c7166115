import DawProject.Audio.TapRing
import Mathlib.Data.List.Flatten
import Mathlib.Data.List.Forall2

/-!
The worklet that plays the master output to the peers of a jam,
`web/public/tap-player-worklet.js`, and the page that cuts the messages of the tap
to blocks for it, `JamAudio.feed` of `web/src/network/jam_audio.ts`. What is played
are the frames fed to it in their order, filled up with silence, but for the blocks
that are thrown out where the worklet has fallen behind.
-/

namespace DawProject.Audio

open TapRing (kBlockFrames)

def TapPlayer.PRIME : ℕ := 4

open TapPlayer (PRIME)

structure TapPlayer (α : Type) where
  queue : List (List α) := []
  /-- The frames of the first block that have been played. -/
  offset : ℕ := 0
  underruns : ℕ := 0
  primed : Bool := false
deriving DecidableEq, Repr

/-- What the loop of `process` reads for an output. -/
structure Filled (α : Type) where
  frames : List α
  queue : List (List α)
  offset : ℕ
  /-- The queue ran out. -/
  dry : Bool

section Player

variable {α : Type}

def TapPlayer.onmessage (p : TapPlayer α) (data : List α) : TapPlayer α :=
  let queue := p.queue ++ [data]
  let primed := p.primed || decide (queue.length ≥ PRIME)
  if queue.length > 50 then
    { p with queue := queue.drop (queue.length - 50), offset := 0, primed := primed }
  else { p with queue := queue, primed := primed }

/-- The blocks that a message throws out. -/
def TapPlayer.late (p : TapPlayer α) : ℕ := p.queue.length + 1 - 50

/-- The loop of `process`, with `left` frames of the output to fill. -/
def fill : List (List α) → ℕ → ℕ → Filled α
  | queue, offset, 0 => ⟨[], queue, offset, false⟩
  | [], offset, _ + 1 => ⟨[], [], offset, true⟩
  | buf :: queue, offset, left + 1 =>
      let take := min (buf.length - offset) (left + 1)
      let frames := (buf.drop offset).take take
      if offset + take ≥ buf.length then
        let rest := fill queue 0 (left + 1 - take)
        { rest with frames := frames ++ rest.frames }
      -- a block that is not used up has filled the output
      else ⟨frames, buf :: queue, offset + take, false⟩

/-- One output, of `length` frames, and the player after it. -/
def TapPlayer.process [Zero α] (p : TapPlayer α) (length : ℕ) : List α × TapPlayer α :=
  if p.primed then
    let filled := fill p.queue p.offset length
    (filled.frames ++ List.replicate (length - filled.frames.length) 0,
      { queue := filled.queue
        offset := filled.offset
        underruns := p.underruns + filled.dry.toNat
        primed := !filled.dry })
  else (List.replicate length 0, p)

/-- The frames that are yet to be played. -/
def TapPlayer.rest (p : TapPlayer α) : List α := p.queue.flatten.drop p.offset

/-- A batch of the tap, cut to its blocks. -/
def JamAudio.feed (samples : List α) (blockCount : ℕ) : List (List α) :=
  (List.range blockCount).map fun b => Blocks.block (samples.length / blockCount) b samples

end Player

/-- The worklet node of a broadcast, with the blocks posted to it and what it has
put out since it was built. -/
structure Node (α : Type) where
  /-- The messages of the tap that the page had handled by then. -/
  since : ℕ
  port : List (List α) := []
  player : TapPlayer α := {}
  outputs : List (List α) := []
  arrived : ℕ := 0
  /-- The blocks that were thrown out as too old. -/
  spliced : ℕ := 0
  /-- The messages since it was built that were not fed to it. -/
  missed : ℕ := 0
deriving DecidableEq, Repr

section Steps

variable {α : Type}

/-- A message passes without being fed. -/
def Node.miss (n : Node α) : Node α := { n with missed := n.missed + 1 }

def Node.feed (n : Node α) (m : AudioTap α) : Node α :=
  { n with port := n.port ++ JamAudio.feed m.samples m.block_count }

def Node.onmessage (n : Node α) : Option (Node α) :=
  match n.port with
  | [] => none
  | data :: port =>
      some { n with
        port := port
        player := n.player.onmessage data
        arrived := n.arrived + 1
        spliced := n.spliced + n.player.late }

def Node.process [Zero α] (n : Node α) (length : ℕ) : Node α :=
  { n with
    player := (n.player.process length).2
    outputs := n.outputs ++ [(n.player.process length).1] }

/-- The outputs are the pieces of what is heard, filled up with silence. -/
def HeardIn [Zero α] (heard outputs : List (List α)) : Prop :=
  List.Forall₂ (fun piece output => ∃ k, output = piece ++ List.replicate k 0) heard outputs

end Steps

section Player

variable {α : Type}

/-- The offset is a place in the first block. -/
def Placed : List (List α) → ℕ → Prop
  | [], offset => offset = 0
  | buf :: _, offset => offset ≤ buf.length

theorem Placed.zero : ∀ queue : List (List α), Placed queue 0
  | [] => rfl
  | _ :: _ => Nat.zero_le _

theorem Placed.le {queue : List (List α)} {offset : ℕ} (h : Placed queue offset) :
    offset ≤ queue.flatten.length := by
  cases queue with
  | nil => exact Nat.le_of_eq h
  | cons buf queue =>
      rw [List.flatten_cons, List.length_append]
      exact Nat.le_trans h (Nat.le_add_right _ _)

theorem Placed.snoc {queue : List (List α)} {offset : ℕ} (h : Placed queue offset)
    (data : List α) : Placed (queue ++ [data]) offset := by
  cases queue with
  | nil =>
      rw [show offset = 0 from h]
      exact Nat.zero_le _
  | cons buf queue => exact h

/-- What is left when blocks are thrown out ends what was left. -/
theorem Placed.suffix {queue : List (List α)} {offset k : ℕ} (h : Placed queue offset)
    (hk : 0 < k) : (queue.drop k).flatten <:+ queue.flatten.drop offset := by
  cases queue with
  | nil => rw [List.drop_nil]; exact List.nil_suffix
  | cons buf queue =>
      obtain ⟨k, rfl⟩ := Nat.exists_eq_succ_of_ne_zero (Nat.pos_iff_ne_zero.mp hk)
      rw [List.flatten_cons, List.drop_append_of_le_length h, List.drop_succ_cons]
      have hdrop : (queue.drop k).flatten <:+ queue.flatten := by
        refine ⟨(queue.take k).flatten, ?_⟩
        rw [← List.flatten_append, List.take_append_drop]
      exact hdrop.trans (List.suffix_append _ _)

/-- What the loop reads are the next frames. -/
theorem fill_spec (queue : List (List α)) (offset left : ℕ) (h : Placed queue offset) :
    queue.flatten.drop offset = (fill queue offset left).frames ++
        (fill queue offset left).queue.flatten.drop (fill queue offset left).offset ∧
      Placed (fill queue offset left).queue (fill queue offset left).offset ∧
      ((fill queue offset left).dry = true → (fill queue offset left).queue = []) ∧
      (fill queue offset left).queue.length ≤ queue.length := by
  induction queue, offset, left using fill.induct with
  | case1 queue offset =>
      rw [fill]
      exact ⟨rfl, h, fun hdry => absurd hdry Bool.false_ne_true, Nat.le_refl _⟩
  | case2 offset left =>
      rw [fill]
      exact ⟨rfl, h, fun _ => rfl, Nat.le_refl _⟩
  | case3 buf queue offset left take hused ih =>
      obtain ⟨hread, hplaced, hdry, hle⟩ := ih (.zero queue)
      rw [fill]
      dsimp only
      rw [if_pos hused]
      have hall : (buf.drop offset).take take = buf.drop offset :=
        List.take_of_length_le (by rw [List.length_drop]; omega)
      refine ⟨?_, hplaced, hdry, Nat.le_succ_of_le hle⟩
      rw [List.drop_zero] at hread
      rw [List.flatten_cons, List.drop_append_of_le_length h, hread, List.append_assoc]
      exact congrArg (· ++ _) hall.symm
  | case4 buf queue offset left take hused =>
      rw [fill]
      dsimp only
      rw [if_neg hused]
      have hplaced : offset + take ≤ buf.length := Nat.le_of_lt (Nat.not_le.mp hused)
      refine ⟨?_, hplaced, fun hdry => absurd hdry Bool.false_ne_true, Nat.le_refl _⟩
      rw [List.flatten_cons, List.drop_append_of_le_length h,
        List.drop_append_of_le_length hplaced, ← List.append_assoc]
      refine congrArg (· ++ queue.flatten) ?_
      rw [← List.drop_drop]
      exact (List.take_append_drop take _).symm

variable {p : TapPlayer α}

theorem TapPlayer.placed_onmessage (h : Placed p.queue p.offset) (data : List α) :
    Placed (p.onmessage data).queue (p.onmessage data).offset := by
  unfold TapPlayer.onmessage
  dsimp only
  split
  · exact .zero _
  · exact h.snoc data

/-- What is left grows by the block, unless blocks are thrown out. -/
theorem TapPlayer.rest_onmessage (h : Placed p.queue p.offset) (data : List α) :
    (p.onmessage data).rest <:+ p.rest ++ data ∧
      (p.late = 0 → (p.onmessage data).rest = p.rest ++ data) := by
  have hrest : (p.queue ++ [data]).flatten.drop p.offset = p.rest ++ data := by
    rw [List.flatten_append, List.flatten_singleton, List.drop_append_of_le_length h.le]
    rfl
  unfold TapPlayer.onmessage
  dsimp only
  split
  · rename_i hlate
    refine ⟨?_, fun hnone => ?_⟩
    · rw [← hrest]
      exact (h.snoc data).suffix (Nat.sub_pos_of_lt hlate)
    · rw [List.length_append, List.length_singleton] at hlate
      rw [TapPlayer.late] at hnone
      omega
  · exact ⟨hrest ▸ List.suffix_rfl, fun _ => hrest⟩

theorem TapPlayer.length_onmessage (data : List α) : (p.onmessage data).queue.length ≤ 50 := by
  unfold TapPlayer.onmessage
  dsimp only
  split
  · rename_i hlate
    rw [List.length_drop]
    exact Nat.le_of_eq (Nat.sub_sub_self (Nat.le_of_lt hlate))
  · rename_i hroom
    exact Nat.not_lt.mp hroom

/-- Of the blocks that arrive, PRIME are there whenever the player starts. -/
structure TapPlayer.Counted (p : TapPlayer α) (arrived : ℕ) : Prop where
  playing : p.primed = true → PRIME * p.underruns + PRIME ≤ arrived
  waiting : p.primed = false →
    PRIME * p.underruns + p.queue.length ≤ arrived ∧ p.queue.length < PRIME

theorem TapPlayer.Counted.le {arrived : ℕ} (h : p.Counted arrived) :
    PRIME * p.underruns ≤ arrived := by
  cases hprimed : p.primed with
  | true => exact Nat.le_of_add_right_le (h.playing hprimed)
  | false => exact Nat.le_of_add_right_le (h.waiting hprimed).1

theorem TapPlayer.Counted.onmessage {arrived : ℕ} (h : p.Counted arrived) (data : List α) :
    (p.onmessage data).Counted (arrived + 1) := by
  have hPRIME : PRIME = 4 := rfl
  have hunderruns : (p.onmessage data).underruns = p.underruns := by
    unfold TapPlayer.onmessage
    dsimp only
    split <;> rfl
  have hprimed : (p.onmessage data).primed =
      (p.primed || decide (p.queue.length + 1 ≥ PRIME)) := by
    unfold TapPlayer.onmessage
    dsimp only
    rw [List.length_append, List.length_singleton]
    split <;> rfl
  refine ⟨fun hplaying => ?_, fun hwaiting => ?_⟩
  · rw [hunderruns]
    cases hstarted : p.primed with
    | true => exact Nat.le_succ_of_le (h.playing hstarted)
    | false =>
        rw [hprimed, hstarted, Bool.false_or, decide_eq_true_eq] at hplaying
        obtain ⟨hle, -⟩ := h.waiting hstarted
        omega
  · rw [hprimed, Bool.or_eq_false_iff, decide_eq_false_iff_not] at hwaiting
    obtain ⟨hle, -⟩ := h.waiting hwaiting.1
    have hqueue : (p.onmessage data).queue = p.queue ++ [data] := by
      unfold TapPlayer.onmessage
      dsimp only
      rw [List.length_append, List.length_singleton, if_neg (by omega)]
    rw [hunderruns, hqueue, List.length_append, List.length_singleton]
    omega

variable [Zero α]

/-- An output is filled with the next frames, then with silence. -/
theorem TapPlayer.process_spec (h : Placed p.queue p.offset) (length : ℕ) :
    ∃ piece k, (p.process length).1 = piece ++ List.replicate k 0 ∧
      p.rest = piece ++ (p.process length).2.rest ∧
      Placed (p.process length).2.queue (p.process length).2.offset ∧
      (p.process length).2.queue.length ≤ p.queue.length := by
  unfold TapPlayer.process
  split
  · obtain ⟨hread, hplaced, -, hle⟩ := fill_spec p.queue p.offset length h
    exact ⟨_, _, rfl, hread, hplaced, hle⟩
  · exact ⟨[], length, rfl, rfl, h, Nat.le_refl _⟩

theorem TapPlayer.Counted.process {arrived : ℕ} (hcounted : p.Counted arrived)
    (h : Placed p.queue p.offset) (length : ℕ) : (p.process length).2.Counted arrived := by
  unfold TapPlayer.process
  split
  · rename_i hprimed
    obtain ⟨-, -, hdry, -⟩ := fill_spec p.queue p.offset length h
    have hplaying := hcounted.playing hprimed
    refine ⟨fun hwet => ?_, fun hran => ?_⟩
    · rw [Bool.not_eq_true'] at hwet
      dsimp only
      rw [hwet]
      exact hplaying
    · rw [Bool.not_eq_false'] at hran
      dsimp only
      rw [hdry hran, hran]
      exact ⟨hplaying, Nat.zero_lt_succ 3⟩
  · exact hcounted

end Player

section Node

variable {α : Type}

theorem feed_samples (samples : List α) (blockCount : ℕ) :
    (JamAudio.feed samples blockCount).flatten <+: samples ∧
      (samples.length = kBlockFrames * blockCount →
        (JamAudio.feed samples blockCount).flatten = samples) := by
  rw [JamAudio.feed, Blocks.flatten_map_block]
  refine ⟨List.take_prefix _ _, fun hlength => List.take_of_length_le ?_⟩
  rcases Nat.eq_zero_or_pos blockCount with rfl | hpos
  · exact Nat.le_of_eq hlength
  · exact Nat.le_of_eq (by rw [hlength, Nat.mul_div_cancel _ hpos])

variable [Zero α] {due : List α} {n next : Node α}

/-- What holds of a node when the messages since it was built hold the frames that
are due. -/
structure NodeOk (due : List α) (n : Node α) : Prop where
  placed : Placed n.player.queue n.player.offset
  played : ∃ heard, HeardIn heard n.outputs ∧
    (heard.flatten ++ n.player.rest ++ n.port.flatten).Sublist due ∧
    (n.spliced = 0 → n.missed = 0 →
      heard.flatten ++ n.player.rest ++ n.port.flatten = due)
  bounded : n.player.queue.length ≤ 50
  counted : n.player.Counted n.arrived

theorem NodeOk.start (since : ℕ) : NodeOk [] ({ since := since } : Node α) where
  placed := rfl
  played := ⟨[], .nil, .slnil, fun _ _ => rfl⟩
  bounded := Nat.zero_le _
  counted :=
    ⟨fun hprimed => absurd hprimed Bool.false_ne_true, fun _ => ⟨Nat.le_refl _, Nat.zero_lt_succ 3⟩⟩

theorem NodeOk.miss (h : NodeOk due n) (more : List α) : NodeOk (due ++ more) n.miss := by
  obtain ⟨heard, hplays, hsub, -⟩ := h.played
  refine ⟨h.placed, ⟨heard, hplays, ?_, fun _ hmissed => absurd hmissed (Nat.succ_ne_zero _)⟩,
    h.bounded, h.counted⟩
  exact hsub.trans (List.sublist_append_left _ _)

theorem NodeOk.feed (h : NodeOk due n) {m : AudioTap α}
    (hwhole : m.samples.length = kBlockFrames * m.block_count) :
    NodeOk (due ++ m.samples) (n.feed m) := by
  obtain ⟨heard, hplays, hsub, hall⟩ := h.played
  have hfed := (feed_samples m.samples m.block_count).2 hwhole
  have hport : (n.feed m).port.flatten = n.port.flatten ++ m.samples := by
    rw [← hfed]
    exact List.flatten_append
  refine ⟨h.placed, ⟨heard, hplays, ?_, fun hspliced hmissed => ?_⟩, h.bounded, h.counted⟩
  · rw [hport, ← List.append_assoc]
    exact hsub.append (List.Sublist.refl _)
  · rw [hport, ← List.append_assoc, ← hall hspliced hmissed]
    rfl

theorem NodeOk.onmessage (h : NodeOk due n) (hstep : n.onmessage = some next) :
    NodeOk due next := by
  obtain ⟨heard, hplays, hsub, hall⟩ := h.played
  unfold Node.onmessage at hstep
  split at hstep
  · cases hstep
  · rename_i data port hport
    obtain ⟨hsuffix, hkept⟩ := TapPlayer.rest_onmessage h.placed data
    rw [← Option.some.inj hstep]
    rw [hport, List.flatten_cons, ← List.append_assoc, List.append_assoc heard.flatten] at hsub hall
    refine ⟨TapPlayer.placed_onmessage h.placed data,
      ⟨heard, hplays, ?_, fun hspliced hmissed => ?_⟩, TapPlayer.length_onmessage data,
      h.counted.onmessage data⟩
    · refine List.Sublist.trans ?_ hsub
      exact ((List.Sublist.refl _).append hsuffix.sublist).append (List.Sublist.refl _)
    · obtain ⟨hspliced, hlate⟩ := Nat.add_eq_zero_iff.mp hspliced
      rw [← hall hspliced hmissed, hkept hlate]

theorem NodeOk.process (h : NodeOk due n) (length : ℕ) : NodeOk due (n.process length) := by
  obtain ⟨heard, hplays, hsub, hall⟩ := h.played
  obtain ⟨piece, k, houtput, hrest, hplaced, hle⟩ := TapPlayer.process_spec h.placed length
  have hnext : (heard ++ [piece]).flatten ++ (n.player.process length).2.rest =
      heard.flatten ++ n.player.rest := by
    rw [hrest]
    simp
  refine ⟨hplaced, ⟨heard ++ [piece], ?_, ?_, fun hspliced hmissed => ?_⟩,
    Nat.le_trans hle h.bounded, h.counted.process h.placed length⟩
  · exact List.rel_append hplays (.cons ⟨k, houtput⟩ .nil)
  · exact (congrArg (· ++ n.port.flatten) hnext) ▸ hsub
  · exact (congrArg (· ++ n.port.flatten) hnext).trans (hall hspliced hmissed)

end Node

end DawProject.Audio
