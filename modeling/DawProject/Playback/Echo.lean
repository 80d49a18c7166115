import DawProject.Lib.Comb
import DawProject.Playback.Devices

/-!
What a delay sounds like. Over exact numbers a node of
`engine/src/graph/delay_node.cpp` is a comb filter, to the sample, however its
blocks are cut; and whatever its document says, what it makes of a bounded signal is
bounded.
-/

namespace DawProject.Playback

open Signals

section Exact

variable {F : Type} [CommRing F]

/-- What the line of an echo is given at a moment. -/
def Echo.line (echo : Echo F) (x : Nat → Frame F) (n : Nat) : Frame F :=
  ⟨Comb.line echo.feedback echo.distance (fun k => (x k).left) n,
    Comb.line echo.feedback echo.distance (fun k => (x k).right) n⟩

/-- What an echo makes of a signal. -/
def Echo.heard (echo : Echo F) (x : Nat → Frame F) (n : Nat) : Frame F :=
  ⟨Comb.mixed echo.feedback echo.distance (fun k => (x k).left) echo.mix n,
    Comb.mixed echo.feedback echo.distance (fun k => (x k).right) echo.mix n⟩

/-- The echo at a moment of the signal. -/
def Echo.at_ (echo : Echo F) (x : Nat → Frame F) (n : Nat) : Echo F :=
  { echo with written := history (echo.line x) n }

variable {echo : Echo F} {x : Nat → Frame F} {n d : Nat}

theorem getD_history {α : Type} (x : Nat → α) (z : α) (n d : Nat) :
    (history x n).getD d z = if d < n then x (n - 1 - d) else z := by
  induction n generalizing d with
  | zero => rfl
  | succ n ih =>
      cases d with
      | zero => rfl
      | succ d =>
          rw [history, List.getD_cons_succ, ih]
          simp only [Nat.succ_lt_succ_iff]
          congr 2
          omega

/-- The line gives what came back by the sum of the echoes. -/
theorem returned_at (hframes : echo.line_frames ≠ 0) : (echo.at_ x n).returned =
    ⟨Comb.returned echo.feedback echo.distance (fun k => (x k).left) n,
      Comb.returned echo.feedback echo.distance (fun k => (x k).right) n⟩ := by
  have hpos := Echo.distance_pos hframes
  have hread : (echo.at_ x n).returned =
      (history (echo.line x) n).getD (echo.distance - 1) .silent := rfl
  rw [hread, getD_history]
  rcases Nat.lt_or_ge n echo.distance with hlt | hge
  · rw [if_neg (by omega), Comb.returned_of_lt hlt, Comb.returned_of_lt hlt]
    rfl
  · obtain ⟨m, rfl⟩ := Nat.exists_eq_add_of_le' hge
    rw [if_pos (by omega), Comb.returned_add hpos, Comb.returned_add hpos]
    have hback : m + echo.distance - 1 - (echo.distance - 1) = m := by omega
    rw [hback]
    rfl

/-- A frame of the signal. -/
theorem processFrame_at (hframes : echo.line_frames ≠ 0) :
    (echo.at_ x n).processFrame (x n) = (echo.at_ x (n + 1), echo.heard x n) := by
  rw [Echo.processFrame, if_neg (show (echo.at_ x n).line_frames ≠ 0 from hframes),
    returned_at hframes]
  rfl

end Exact

section Node

variable {F : Type} [Zero F] [One F] [Add F] [Sub F] [Mul F]

/-- A block of a delay, in place. -/
def DelayNode.process (node : DelayNode F) (block : List (Frame F)) :
    DelayNode F × List (Frame F) :=
  inPlace DelayNode.processFrame node block

/-- The blocks one after the other. -/
def DelayNode.run (node : DelayNode F) : List (List (Frame F)) → List (List (Frame F))
  | [] => []
  | block :: blocks =>
      let (node, out) := node.process block
      out :: node.run blocks

end Node

section Run

variable {F : Type} [CommRing F] {node : DelayNode F} {echo : Echo F} {x : Nat → Frame F} {n : Nat}

theorem DelayNode.Recalls.process (hframes : echo.line_frames ≠ 0) (count : Nat)
    (h : node.Recalls (echo.at_ x n)) :
    (node.process (window x n count)).2 = window (echo.heard x) n count ∧
      (node.process (window x n count)).1.Recalls (echo.at_ x (n + count)) := by
  induction count generalizing node n with
  | zero => exact ⟨rfl, h⟩
  | succ count ih =>
      obtain ⟨hnext, hout⟩ := h.step (x n)
      rw [processFrame_at hframes] at hnext hout
      obtain ⟨hrest, hlast⟩ := ih hnext
      rw [window_succ, window_succ, DelayNode.process, inPlace]
      refine ⟨congrArg₂ List.cons hout hrest, ?_⟩
      rw [Nat.add_right_comm] at hlast
      exact hlast

theorem DelayNode.Recalls.run (hframes : echo.line_frames ≠ 0) (lengths : List Nat)
    (h : node.Recalls (echo.at_ x n)) :
    (node.run (blocksOf x n lengths)).flatten = window (echo.heard x) n lengths.sum := by
  induction lengths generalizing node n with
  | nil => rfl
  | cons count lengths ih =>
      obtain ⟨hout, hnext⟩ := h.process hframes count
      rw [blocksOf, DelayNode.run, List.flatten_cons, ih hnext, hout, List.sum_cons, window_add]

end Run

section Parameters

variable {F : Type} [Field F] [LinearOrder F] [IsStrictOrderedRing F] {D : Type} [Floats F D]
  [Elementary D] [Mul D] [Div D] [OfScientific D]

/-- Whatever the document says, nothing comes back in full and the mix is a proportion. -/
theorem parameters_make (time_ms feedback mix : F) :
    let node := DelayNode.make (D := D) time_ms feedback mix
    (0 ≤ node.feedback ∧ node.feedback ≤ 19 / 20) ∧ 0 ≤ node.mix ∧ node.mix ≤ 1 := by
  have hfeedback : (0.95 : F) = 19 / 20 := by norm_num
  have hrange : (0 : F) ≤ 0.95 := by norm_num
  exact ⟨⟨le_clamp hrange, hfeedback ▸ clamp_le hrange⟩, le_clamp zero_le_one, clamp_le zero_le_one⟩

end Parameters

section Delay

variable {F D : Type} [Field F] [LinearOrder F] [IsStrictOrderedRing F] [Floats F D] [Elementary D]
  [Mul D] [Div D] [OfScientific D]

/-- A delay that was made and prepared gives the signal, and what comes of it after
each multiple of the delay, less by the feedback every time. Its output is at most
twenty times as large as what it is given. -/
theorem echoes_of_run (time_ms feedback mix : F) (sample_rate : Nat) (x : Nat → Frame F)
    (lengths : List Nat) :
    let node := (DelayNode.make (D := D) time_ms feedback mix).prepare sample_rate
    let echo := node.unbounded
    (node.run (blocksOf x 0 lengths)).flatten = window (echo.heard x) 0 lengths.sum ∧
      0 < echo.distance ∧ echo.distance ≤ lineFrames F sample_rate ∧
        ∀ bound, (∀ n, |(x n).left| ≤ bound ∧ |(x n).right| ≤ bound) →
          ∀ n, |(echo.heard x n).left| ≤ 20 * bound ∧ |(echo.heard x n).right| ≤ 20 * bound := by
  intro node echo
  have hframes : echo.line_frames ≠ 0 := Nat.succ_ne_zero _
  have hpos := Echo.distance_pos hframes
  obtain ⟨⟨hzero, hfeedback⟩, hmix, hdry⟩ := parameters_make (D := D) time_ms feedback mix
  have hsum : 1 ≤ (1 - echo.feedback) * 20 := by
    have hle : echo.feedback ≤ 19 / 20 := hfeedback
    linarith
  refine ⟨(recalls_prepare _ sample_rate).run hframes lengths, hpos, Echo.distance_le, ?_⟩
  intro bound hx n
  rw [mul_comm]
  exact ⟨Comb.abs_mixed_le_mul hpos hzero hmix hdry (by norm_num) hsum (fun k => (hx k).1) n,
    Comb.abs_mixed_le_mul hpos hzero hmix hdry (by norm_num) hsum (fun k => (hx k).2) n⟩

end Delay

section Impulse

/-- The rational numbers, of which only a time is rounded. -/
instance : Elementary ℚ where
  exp := id
  pow := fun x _ => x
  log10 := id
  sqrt := id
  sin := id
  cos := id
  tanh := id
  abs := fun x => |x|
  lround := round

/-- A frame of ones, and silence after it. -/
def impulse (n : Nat) : Frame ℚ := if n = 0 then ⟨1, 1⟩ else ⟨0, 0⟩

/-- Two frames later the half of it comes back, and half of that two frames later. -/
theorem echoes_of_run_impulse :
    (((DelayNode.make (D := ℚ) 1000 (1 / 2) (1 / 2)).prepare 2).run
        (blocksOf impulse 0 [3, 2])).flatten =
      [⟨1 / 2, 1 / 2⟩, ⟨0, 0⟩, ⟨1 / 2, 1 / 2⟩, ⟨0, 0⟩, ⟨1 / 4, 1 / 4⟩] :=
  (echoes_of_run 1000 (1 / 2) (1 / 2) 2 impulse [3, 2]).1.trans (by decide +kernel)

end Impulse

end DawProject.Playback
