import DawProject.Lib.DelayLine
import DawProject.Playback.Builtins

/-!
The lines of the delay and of the drive, with the memory that they stand for. An
echo and a shaper keep all that they were given, and say what they make of it in
places of the past; a node with a line that is written round and round makes the
same frames.
-/

namespace DawProject.Playback

open DelayLine
open Floats (widen narrow ofInt)
open Elementary (tanh)

section Echo

variable {F : Type}

/-- A delay that forgets nothing: all that was written, the newest first. -/
structure Echo (F : Type) extends DelaySettings F where
  line_frames : Nat
  written : List (Frame F) := []

/-- How far back the delay reads. A delay of no samples is one of the whole line. -/
def Echo.distance (echo : Echo F) : Nat :=
  let d := min echo.delay_samples (echo.line_frames - 1)
  if d = 0 then echo.line_frames else d

variable {echo : Echo F}

theorem Echo.distance_pos (hframes : echo.line_frames ≠ 0) : 0 < echo.distance := by
  rw [Echo.distance]
  split
  · exact Nat.pos_of_ne_zero hframes
  · exact Nat.pos_of_ne_zero (by assumption)

theorem Echo.distance_le : echo.distance ≤ echo.line_frames := by
  rw [Echo.distance]
  split
  · exact Nat.le_refl _
  · exact Nat.le_trans (Nat.min_le_right ..) (Nat.sub_le ..)

variable [Zero F]

/-- What comes back. -/
def Echo.returned (echo : Echo F) : Frame F := echo.written.getD (echo.distance - 1) .silent

/-- The line holds the end of what the echo has. -/
structure DelayNode.Recalls (node : DelayNode F) (echo : Echo F) : Prop where
  settings : node.toDelaySettings = echo.toDelaySettings
  frames : node.line_frames = echo.line_frames
  length : node.line.length = node.line_frames
  recalls : node.line_frames ≠ 0 → DelayLine.Recalls .silent node.line node.write echo.written

variable {node : DelayNode F}

/-- The slot that the delay reads. -/
theorem DelayNode.Recalls.getD_rd (h : node.Recalls echo) (hframes : node.line_frames ≠ 0) :
    node.line.getD ((node.write + node.line_frames -
      min node.delay_samples (node.line_frames - 1)) % node.line_frames) .silent =
      echo.returned := by
  have hline := h.recalls hframes
  have hsamples : node.delay_samples = echo.delay_samples :=
    congrArg DelaySettings.delay_samples h.settings
  have hlength := h.length
  have hbound := hline.bound
  rw [hlength] at hbound
  have hreads : ∀ d, 0 < d → d ≤ node.line_frames →
      node.line.getD (back node.line_frames node.write d) .silent =
        echo.written.getD (d - 1) .silent := by
    rw [← hlength]
    exact hline.recalls
  rw [Echo.returned, Echo.distance, ← hsamples, ← h.frames]
  rcases Nat.eq_zero_or_pos (min node.delay_samples (node.line_frames - 1)) with hzero | hpos
  · rw [hzero, if_pos rfl, ← hreads _ (Nat.pos_of_ne_zero hframes) (Nat.le_refl _)]
    rw [← back_round hbound]
    rfl
  · rw [if_neg hpos.ne', ← hreads _ hpos (by omega)]
    rfl

variable [One F] [Add F] [Sub F] [Mul F]

def Echo.processFrame (echo : Echo F) (x : Frame F) : Echo F × Frame F :=
  if echo.line_frames = 0 then (echo, x)
  else
    let y := echo.returned
    let dry := 1 - echo.mix
    ({ echo with
        written := ⟨x.left + y.left * echo.feedback, x.right + y.right * echo.feedback⟩ ::
          echo.written },
      ⟨x.left * dry + y.left * echo.mix, x.right * dry + y.right * echo.mix⟩)

/-- The same frame comes out, and the line still holds the end. -/
theorem DelayNode.Recalls.step (h : node.Recalls echo) (x : Frame F) :
    (node.processFrame x).1.Recalls (echo.processFrame x).1 ∧
      (node.processFrame x).2 = (echo.processFrame x).2 := by
  rw [DelayNode.processFrame, Echo.processFrame, ← h.frames]
  by_cases hframes : node.line_frames = 0
  · rw [if_pos hframes, if_pos hframes]
    exact ⟨h, rfl⟩
  · rw [if_neg hframes, if_neg hframes]
    have hmix : node.mix = echo.mix := congrArg DelaySettings.mix h.settings
    have hfeedback : node.feedback = echo.feedback := congrArg DelaySettings.feedback h.settings
    simp only [h.getD_rd hframes, hmix, hfeedback, and_true]
    exact {
      settings := h.settings
      frames := rfl
      length := (List.length_set ..).trans h.length
      recalls := by
        intro _
        have hpush := (h.recalls hframes).push (x := ⟨x.left + echo.returned.left * echo.feedback,
          x.right + echo.returned.right * echo.feedback⟩)
        rwa [h.length] at hpush }

end Echo

section Prepare

variable {F D : Type} [Zero F] [Floats F D] [Elementary D] [Mul D] [Div D] [OfScientific F]
  [OfScientific D]

/-- The echo of a delay that remembers nothing. -/
def DelayNode.unbounded (node : DelayNode F) : Echo F :=
  { node.toDelaySettings with line_frames := node.line_frames }

/-- A node that was just prepared remembers nothing. -/
theorem recalls_prepare (node : DelayNode F) (sample_rate : Nat) :
    (node.prepare sample_rate).Recalls (node.prepare sample_rate).unbounded where
  settings := rfl
  frames := rfl
  length := List.length_replicate
  recalls := fun _ => recalls_replicate (Nat.succ_pos _)

end Prepare

section Shaper

/-- The histories of a channel, the newest first. -/
structure Histories (D : Type) where
  inputs : List D := []
  shaped : List D := []

/-- A drive that forgets nothing. -/
structure Shaper (F D : Type) extends DriveSettings F D where
  left : Histories D := {}
  right : Histories D := {}

variable {F D : Type} [Floats F D] [Elementary D] [Zero D] [Add D] [Mul D]

/-- The filter over a history, from tap `first` on by steps. -/
def filtered (fir : List D) (first step taps : Nat) (history : List D) : D :=
  (List.range taps).foldl
    (fun acc k => acc + fir.getD (k * step + first) 0 * history.getD k 0) 0

def shapedBy (set : DriveSettings F D) (inputs : List D) (ph : Nat) : D :=
  tanh (set.pre_gain * (filtered set.fir ph kOs kPhaseTaps inputs * ofInt (F := F) kOs))

/-- Four values after the others, of the same inputs. -/
def oversampled (set : DriveSettings F D) (inputs shaped : List D) : List D :=
  (List.range kOs).foldl (fun shaped ph => shapedBy set inputs ph :: shaped) shaped

variable [One F] [Sub F]

def Histories.processSample (set : DriveSettings F D) (st : Histories D) (x : F) :
    Histories D × F :=
  let inputs := widen x :: st.inputs
  let shaped := oversampled set inputs st.shaped
  let wet := filtered set.fir 0 1 kTaps shaped * set.post_gain
  ({ inputs := inputs, shaped := shaped },
    narrow (widen x * widen (1 - set.mix) + wet * widen set.mix))

def Shaper.processFrame (shaper : Shaper F D) (x : Frame F) : Shaper F D × Frame F :=
  let (left, l) := shaper.left.processSample shaper.toDriveSettings x.left
  let (right, r) := shaper.right.processSample shaper.toDriveSettings x.right
  ({ shaper with left := left, right := right }, ⟨l, r⟩)

end Shaper

section Drive

variable {F D : Type} [Zero D]

/-- The two lines of a channel hold the ends of its histories. -/
structure ChannelState.Recalls (st : ChannelState D) (hist : Histories D) : Prop where
  in_size : st.in_hist.length = kTaps / kOs + 1
  os_size : st.os_hist.length = kTaps
  inputs : DelayLine.Recalls 0 st.in_hist st.in_pos hist.inputs
  shaped : DelayLine.Recalls 0 st.os_hist st.os_pos hist.shaped

theorem ChannelState.recalls_reset : (ChannelState.reset : ChannelState D).Recalls {} where
  in_size := List.length_replicate
  os_size := List.length_replicate
  inputs := recalls_replicate (Nat.succ_pos _)
  shaped := recalls_replicate (by decide)

variable [Floats F D] [Elementary D] [Add D] [Mul D]

-- The input is in its slot, and the next slot is not yet another.
variable {set : DriveSettings F D} {st : ChannelState D} {inputs shaped : List D}
  (hin : st.in_hist.length = kTaps / kOs + 1) (hpos : st.in_pos < st.in_hist.length)
  (hinputs : DelayLine.Recalls 0 st.in_hist ((st.in_pos + 1) % st.in_hist.length) inputs)

include hin hpos hinputs in
theorem phase_eq (ph : Nat) : set.phase st ph = shapedBy set inputs ph := by
  rw [DriveSettings.phase, shapedBy, filtered]
  congr 3
  apply List.foldl_ext
  intro acc k hk
  have hlt : k < st.in_hist.length := by
    rw [hin]
    exact Nat.lt_succ_of_lt (List.mem_range.mp hk)
  have hread := hinputs.getD_back hlt
  rw [back_next hpos hlt] at hread
  rw [← hread]
  rfl

include hin hpos hinputs in
/-- The phases go into the history one after the other, and the inputs stay. -/
theorem oversample_spec (phs : List Nat) (hsize : st.os_hist.length = kTaps)
    (hshaped : DelayLine.Recalls 0 st.os_hist st.os_pos shaped) :
    let last := phs.foldl (fun st ph =>
      { st with
        os_hist := st.os_hist.set st.os_pos (set.phase st ph)
        os_pos := (st.os_pos + 1) % kTaps }) st
    last.in_hist = st.in_hist ∧ last.in_pos = st.in_pos ∧ last.os_hist.length = kTaps ∧
      DelayLine.Recalls 0 last.os_hist last.os_pos
        (phs.foldl (fun shaped ph => shapedBy set inputs ph :: shaped) shaped) := by
  induction phs generalizing st shaped with
  | nil => exact ⟨rfl, rfl, hsize, hshaped⟩
  | cons ph phs ih =>
      have hpush := hshaped.push (x := set.phase st ph)
      rw [hsize] at hpush
      have hlength : (st.os_hist.set st.os_pos (set.phase st ph)).length = kTaps :=
        (List.length_set ..).trans hsize
      have hrest := @ih { st with
        os_hist := st.os_hist.set st.os_pos (set.phase st ph)
        os_pos := (st.os_pos + 1) % kTaps } _ hin hpos hinputs hlength hpush
      rw [List.foldl_cons, List.foldl_cons, ← phase_eq hin hpos hinputs ph]
      exact hrest

variable (set st inputs) in
include hin hpos hinputs in
theorem oversample_eq (hsize : st.os_hist.length = kTaps)
    (hshaped : DelayLine.Recalls 0 st.os_hist st.os_pos shaped) :
    let last := set.oversample st
    last.in_hist = st.in_hist ∧ last.in_pos = st.in_pos ∧ last.os_hist.length = kTaps ∧
      DelayLine.Recalls 0 last.os_hist last.os_pos (oversampled set inputs shaped) :=
  oversample_spec hin hpos hinputs (List.range kOs) hsize hshaped

omit [Floats F D] [Elementary D] in
/-- The walk down the history reads it from the newest on. -/
theorem decimate_spec (hsize : st.os_hist.length = kTaps)
    (hshaped : DelayLine.Recalls 0 st.os_hist st.os_pos shaped) {m : Nat} (hm : m ≤ kTaps) :
    let walk := (List.range m).foldl (fun (p : D × Nat) k =>
      (p.1 + set.fir.getD k 0 * st.os_hist.getD p.2 0, (p.2 + kTaps - 1) % kTaps))
      (0, (st.os_pos + kTaps - 1) % kTaps)
    walk.1 = filtered set.fir 0 1 m shaped ∧
      (m < kTaps → walk.2 = back kTaps st.os_pos (m + 1)) := by
  have hbound := hshaped.bound
  rw [hsize] at hbound
  induction m with
  | zero => exact ⟨rfl, fun _ => rfl⟩
  | succ m ih =>
      obtain ⟨hsum, hidx⟩ := ih (Nat.le_of_succ_le hm)
      have hidx := hidx hm
      have hread := hshaped.getD_back (d := m) (by rw [hsize]; exact hm)
      rw [hsize] at hread
      simp only [List.range_succ, List.foldl_append, List.foldl_cons, List.foldl_nil] at hsum hidx ⊢
      constructor
      · rw [hsum, hidx, hread, filtered, filtered, List.range_succ, List.foldl_append]
        simp only [List.foldl_cons, List.foldl_nil, Nat.mul_one, Nat.add_zero]
      · intro hlt
        rw [hidx]
        exact back_succ hbound (Nat.succ_pos m) hlt

omit [Floats F D] [Elementary D] in
theorem decimate_eq (hsize : st.os_hist.length = kTaps)
    (hshaped : DelayLine.Recalls 0 st.os_hist st.os_pos shaped) :
    set.decimate st = filtered set.fir 0 1 kTaps shaped :=
  (decimate_spec hsize hshaped (Nat.le_refl kTaps)).1

variable [One F] [Sub F]

/-- The same sample comes out, and the lines still hold the ends. -/
theorem ChannelState.Recalls.step {st : ChannelState D} {hist : Histories D}
    (h : st.Recalls hist) (set : DriveSettings F D) (x : F) :
    (set.processSample st x).1.Recalls (hist.processSample set x).1 ∧
      (set.processSample st x).2 = (hist.processSample set x).2 := by
  have hpush := h.inputs.push (x := widen x)
  have hlength : (st.in_hist.set st.in_pos (widen x)).length = st.in_hist.length :=
    List.length_set ..
  have hover := oversample_eq set { st with in_hist := st.in_hist.set st.in_pos (widen x) }
    (widen x :: hist.inputs) (hlength.trans h.in_size)
    (hlength.symm ▸ h.inputs.bound) (hlength.symm ▸ hpush) h.os_size h.shaped
  rw [DriveSettings.processSample, Histories.processSample]
  generalize set.oversample { st with in_hist := st.in_hist.set st.in_pos (widen x) } = last at hover
  obtain ⟨hin, hpos, hsize, hshaped⟩ := hover
  constructor
  · exact {
      in_size := by
        show last.in_hist.length = _
        rw [hin]
        exact hlength.trans h.in_size
      os_size := hsize
      inputs := by
        show DelayLine.Recalls 0 last.in_hist ((last.in_pos + 1) % last.in_hist.length) _
        rw [hin, hpos, hlength]
        exact hpush
      shaped := hshaped }
  · have hwet : set.decimate { last with in_pos := (last.in_pos + 1) % last.in_hist.length } =
        filtered set.fir 0 1 kTaps (oversampled set (widen x :: hist.inputs) hist.shaped) :=
      decimate_eq hsize hshaped
    simp only [hwet]

/-- The two sides of a drive. -/
structure DriveNode.Recalls (node : DriveNode F D) (shaper : Shaper F D) : Prop where
  settings : node.toDriveSettings = shaper.toDriveSettings
  left : node.left.Recalls shaper.left
  right : node.right.Recalls shaper.right

theorem DriveNode.Recalls.step {node : DriveNode F D} {shaper : Shaper F D}
    (h : node.Recalls shaper) (x : Frame F) :
    (node.processFrame x).1.Recalls (shaper.processFrame x).1 ∧
      (node.processFrame x).2 = (shaper.processFrame x).2 := by
  obtain ⟨hleft, hl⟩ := h.left.step node.toDriveSettings x.left
  obtain ⟨hright, hr⟩ := h.right.step node.toDriveSettings x.right
  rw [DriveNode.processFrame, Shaper.processFrame]
  rw [h.settings] at hleft hl hright hr ⊢
  exact ⟨{ settings := rfl, left := hleft, right := hright }, congrArg₂ Frame.mk hl hr⟩

end Drive

end DawProject.Playback
