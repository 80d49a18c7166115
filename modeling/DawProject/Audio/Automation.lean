import Mathlib.Data.Rat.Defs
import DawProject.Audio.Partition
import DawProject.Engine.Schema

/-!
Automation of gain and pan. A curve is read once for each block, at its first
sample, `engine/src/graph/automation.h` and `engine/src/graph/audio_graph.cpp`.
The blocks of the live callback start where the seek, the brace and the buffer
of the driver put them; those of an offline render lie on a grid of 256 frames,
`engine/src/render/offline_render.cpp`. A sample gets the same gain from every
block that can contain it if and only if the curve is flat.
-/

namespace DawProject.Audio

open Engine (AutomationPointDef AutomationLaneDef TrackDef)
open Floats

section Curve

variable {F D : Type} [Floats F D] [Sub F] [Mul F] [OfNat F 1] [OfNat F 2]
  [Add D] [Sub D] [Mul D] [Div D]

/-- The value on the segment from `a` to `b`. Points at the same instant take
the value of the second. -/
def segmentValue (a b : AutomationPointDef F) (t : Int) : F :=
  let dt := b.t - a.t
  if dt ≤ 0 then b.v
  else
    let frac := (ofInt F (t - a.t) : D) / ofInt F dt
    narrow (widen a.v + (widen b.v - widen a.v) * frac)

/-- The segment that contains `t`, for points after `a`. -/
def interpolate (t : Int) (a : AutomationPointDef F) : List (AutomationPointDef F) → F
  | [] => a.v
  | b :: rest => if t < b.t then segmentValue a b t else interpolate t b rest

/-- The points that the loop stops between. -/
def segmentAfter (t : Int) (a : AutomationPointDef F) :
    List (AutomationPointDef F) → Option (AutomationPointDef F × AutomationPointDef F)
  | [] => none
  | b :: rest => if t < b.t then some (a, b) else segmentAfter t b rest

/-- The curve at `t`, clamped to its first and last points. -/
def automationValueAt (lane : AutomationLaneDef F) (t : Int) : Option F :=
  if lane.enabled = false then none
  else
    match lane.points with
    | [] => none
    | front :: rest =>
        let back := (front :: rest).getLast (List.cons_ne_nil front rest)
        if t ≤ front.t then some front.v
        else if t ≥ back.t then some back.v
        else some (interpolate t front rest)

/-- The first curve of the track itself, or of the master, on `param`. -/
def laneValueFor (lanes : List (AutomationLaneDef F)) (param : String) (t : Int) : Option F :=
  lanes.findSome? fun lane =>
    if lane.processor_id ≠ "" ∨ lane.param ≠ param then none else automationValueAt lane t

def mapGain (v : F) : F := v * 2

def mapPan (v : F) : F := v * 2 - 1

/-- The gain that `processTrack` applies to a block at `position`. -/
def appliedGain (track : TrackDef F) (position : Int) : F :=
  match laneValueFor track.automation "gain" position with
  | some v => mapGain v
  | none => track.gain

/-- The pan that `processTrack` applies to a block at `position`. -/
def appliedPan (track : TrackDef F) (position : Int) : F :=
  match laneValueFor track.automation "pan" position with
  | some v => mapPan v
  | none => track.pan

/-- The master gain that `process` applies to a block at `position`. -/
def appliedMaster (master_gain : F) (master_automation : List (AutomationLaneDef F))
    (position : Int) : F :=
  match laneValueFor master_automation "gain" position with
  | some v => mapGain v
  | none => master_gain

end Curve

/-- The blocks of an offline render of `[position, stop)`. -/
def offlineBlocks (stop position : Int) : List (Int × Nat) :=
  if position < stop then
    let block_frames := min (stop - position) kRingBlockSize
    (position, block_frames.toNat) :: offlineBlocks stop (position + block_frames)
  else []
termination_by (stop - position).toNat
decreasing_by
  have hring : (kRingBlockSize : Int) = 256 := rfl
  omega

/-- A block that some run of the engine renders with the transport playing. -/
def LiveBlock (position : Int) (frames : Nat) : Prop :=
  ∃ (graph : AudioGraph) (labels : List Label) (last : EngineState) (records : List BlockRecord),
    runTrace { graph := graph } labels = some (last, records) ∧
      ∃ r ∈ records, r.graph.transport_playing = true ∧ r.position = position ∧ r.frames = frames

/-- A block of some offline render. -/
def OfflineBlock (position : Int) (frames : Nat) : Prop :=
  ∃ start stop : Int, 0 ≤ start ∧ (position, frames) ∈ offlineBlocks stop start

/-- Every block that contains a sample, live or offline, gives it one value. -/
def AlignmentFree {α : Type} (applied : Int → α) : Prop :=
  ∀ (p position position' : Int) (frames frames' : Nat),
    (LiveBlock position frames ∨ OfflineBlock position frames) →
    (LiveBlock position' frames' ∨ OfflineBlock position' frames') →
    position ≤ p → p < position + frames → position' ≤ p → p < position' + frames' →
    applied position = applied position'

/-- The value on the segment where the loop stops. -/
theorem interpolate_eq {F D : Type} [Floats F D] [Add D] [Sub D] [Mul D] [Div D] (t : Int)
    (a : AutomationPointDef F) (rest : List (AutomationPointDef F)) :
    interpolate t a rest =
      match segmentAfter t a rest with
      | some (x, y) => segmentValue x y t
      | none => ((a :: rest).getLast (List.cons_ne_nil a rest)).v := by
  induction rest generalizing a with
  | nil => rfl
  | cons b rest ih =>
      simp only [interpolate, segmentAfter]
      split
      · rfl
      · rw [ih b]
        rfl

section Blocks

theorem liveBlock_nonneg {position : Int} {frames : Nat} (hblock : LiveBlock position frames) :
    0 ≤ position := by
  obtain ⟨graph, labels, last, records, hrun, r, hr, hplays, rfl, _⟩ := hblock
  exact position_nonneg_of_runTrace (sound_of_fresh graph) hrun r hr hplays

theorem le_of_mem_offlineBlocks {stop start position : Int} {frames : Nat}
    (hmem : (position, frames) ∈ offlineBlocks stop start) : start ≤ position := by
  induction start using offlineBlocks.induct stop with
  | case1 start hlt block_frames ih =>
      rw [offlineBlocks, if_pos hlt] at hmem
      rcases List.mem_cons.mp hmem with hfirst | hlater
      · cases hfirst
        exact le_refl _
      · have hrest := ih hlater
        have hring : (kRingBlockSize : Int) = 256 := rfl
        omega
  | case2 start hge =>
      rw [offlineBlocks, if_neg hge] at hmem
      cases hmem

/-- The blocks of a render lie on a grid of 256 frames. -/
theorem mem_offlineBlocks_grid (k : Nat) (start : Int) :
    (start + 256 * k, 256) ∈ offlineBlocks (start + 256 * k + 256) start := by
  have hring : (kRingBlockSize : Int) = 256 := rfl
  induction k generalizing start with
  | zero =>
      rw [offlineBlocks, if_pos (by omega)]
      apply List.mem_cons.mpr
      left
      rw [hring, Prod.mk.injEq]
      constructor <;> omega
  | succ k ih =>
      rw [offlineBlocks, if_pos (by omega)]
      apply List.mem_cons_of_mem
      have hnext : start + min (start + 256 * ((k + 1 : Nat) : Int) + 256 - start) kRingBlockSize =
          start + 256 := by
        rw [hring]
        omega
      have hgrid := ih (start + 256)
      have hposition : start + 256 + 256 * (k : Int) = start + 256 * ((k + 1 : Nat) : Int) := by
        push_cast
        omega
      rw [hposition] at hgrid
      simp only [hnext]
      exact hgrid

/-- The engine after one callback that seeks to `t` and plays. -/
def soughtTo (t : Int) (frames : Nat) : Option (EngineState × List BlockRecord) :=
  runTrace { graph := { tracks := [] } } [.enter frames [.seek t, .play], .block []]

/-- A seek brings a block of the callback to any position. -/
theorem liveBlock_of_seek {t : Int} (ht : 0 ≤ t) {frames : Nat} (hpos : 0 < frames)
    (hle : frames ≤ 256) : LiveBlock t frames := by
  have hseek : ({} : TransportState).seek t = { position := t } := by
    rw [TransportState.seek, if_pos (ge_iff_le.mpr ht)]
  have htaken : ¬(frames > MAX_REASONABLE_FRAMES ∨ frames = 0) := by
    have hmax : MAX_REASONABLE_FRAMES = 65536 := rfl
    omega
  have hchunk : min kRingBlockSize frames = frames := by
    have hring : kRingBlockSize = 256 := rfl
    omega
  have hrun : ∃ last r, soughtTo t frames = some (last, [r]) ∧
      r.graph.transport_playing = true ∧ r.position = t ∧ r.frames = frames := by
    simp [soughtTo, runTrace, step, enterCallback, htaken, processCommands, processCommand, hseek,
      TransportState.play, hpos, renderBlock, Callback.atEnd, Callback.bounded, Callback.chunk,
      Callback.start, hchunk]
  obtain ⟨last, r, hrun, hplays, hposition, hframes⟩ := hrun
  exact ⟨_, _, last, [r], hrun, r, List.mem_singleton_self r, hplays, hposition, hframes⟩

theorem offlineBlock_of_grid (k : Nat) : OfflineBlock (256 * (k : Int)) 256 := by
  have hgrid := mem_offlineBlocks_grid k 0
  rw [Int.zero_add] at hgrid
  exact ⟨0, _, le_refl _, hgrid⟩

end Blocks

section Alignment

variable {α : Type} {applied : Int → α}

/-- Every live block that contains a sample gives it the value that every
offline block that contains it does. -/
def LiveEqualsOffline (applied : Int → α) : Prop :=
  ∀ (p position position' : Int) (frames frames' : Nat),
    LiveBlock position frames → OfflineBlock position' frames' →
    position ≤ p → p < position + frames → position' ≤ p → p < position' + frames' →
    applied position = applied position'

theorem AlignmentFree.liveEqualsOffline (hfree : AlignmentFree applied) :
    LiveEqualsOffline applied := by
  intro p position position' frames frames' hlive hoffline
  exact hfree p position position' frames frames' (Or.inl hlive) (Or.inr hoffline)

/-- The grid ties the first sample of a block to every sample of it, and the
last sample of a block to the next block. -/
theorem LiveEqualsOffline.flat (hsame : LiveEqualsOffline applied) {t : Int} (ht : 0 ≤ t) :
    applied t = applied 0 := by
  have hblock : ∀ (k : Nat) {u : Int}, 256 * (k : Int) ≤ u → u < 256 * k + 256 →
      applied u = applied (256 * k) := by
    intro k u hlow hhigh
    have hlive : LiveBlock u 1 := liveBlock_of_seek (by omega) one_pos (by omega)
    exact hsame u u (256 * k) 1 256 hlive (offlineBlock_of_grid k) (le_refl _) (by omega) hlow
      (by omega)
  have hnext : ∀ k : Nat, applied (256 * ((k + 1 : Nat) : Int)) = applied (256 * k) := by
    intro k
    have hlive : LiveBlock (256 * k + 255) 2 := liveBlock_of_seek (by omega) two_pos (by omega)
    have hacross := hsame (256 * ((k + 1 : Nat) : Int)) _ _ 2 256 hlive
      (offlineBlock_of_grid (k + 1)) (by push_cast; omega) (by push_cast; omega) (le_refl _)
      (by omega)
    rw [← hacross]
    exact hblock k (by omega) (by omega)
  have hgrid : ∀ k : Nat, applied (256 * (k : Int)) = applied 0 := by
    intro k
    induction k with
    | zero => rfl
    | succ k ih => rw [hnext k, ih]
  have hhere := hblock (t / 256).toNat (u := t) (by omega) (by omega)
  rw [hhere, hgrid]

theorem alignmentFree_of_flat (hflat : ∀ t ≥ 0, applied t = applied 0) :
    AlignmentFree applied := by
  have hnonneg : ∀ {position : Int} {frames : Nat},
      LiveBlock position frames ∨ OfflineBlock position frames → 0 ≤ position := by
    intro position frames hblock
    rcases hblock with hlive | ⟨start, stop, hstart, hmem⟩
    · exact liveBlock_nonneg hlive
    · exact hstart.trans (le_of_mem_offlineBlocks hmem)
  intro p position position' frames frames' hblock hblock' _ _ _ _
  rw [hflat position (hnonneg hblock), hflat position' (hnonneg hblock')]

theorem alignmentFree_iff_flat : AlignmentFree applied ↔ ∀ t ≥ 0, applied t = applied 0 := by
  constructor
  · intro hfree t ht
    exact hfree.liveEqualsOffline.flat ht
  · exact alignmentFree_of_flat

end Alignment

section Exact

variable {F D : Type} [Floats F D] [Add D] [Sub D] [Mul D] [Div D]

/-- The curve that applies has one value from the start of the timeline on, or
there is none. -/
def FlatCurve (map : F → F) (lanes : List (AutomationLaneDef F)) (param : String) : Prop :=
  ∀ t ≥ 0, (laneValueFor lanes param t).map map = (laneValueFor lanes param 0).map map

/-- Whether a curve exists does not depend on the time. -/
theorem automationValueAt_isSome (lane : AutomationLaneDef F) (t u : Int) :
    (automationValueAt lane t).isSome = (automationValueAt lane u).isSome := by
  unfold automationValueAt
  split
  · rfl
  · split
    · rfl
    · dsimp only
      split_ifs <;> rfl

theorem laneValueFor_isSome (lanes : List (AutomationLaneDef F)) (param : String) (t u : Int) :
    (laneValueFor lanes param t).isSome = (laneValueFor lanes param u).isSome := by
  unfold laneValueFor
  rw [List.isSome_findSome?, List.isSome_findSome?]
  congr 1
  funext lane
  split
  · rfl
  · exact automationValueAt_isSome lane t u

section Applied

variable {lanes : List (AutomationLaneDef F)} {param : String} {map : F → F} (manual : F)

/-- The value of the curve, or the manual one. -/
theorem flatCurve_iff :
    FlatCurve map lanes param ↔
      ∀ t ≥ 0, ((laneValueFor lanes param t).map map).getD manual =
        ((laneValueFor lanes param 0).map map).getD manual := by
  constructor
  · intro hflat t ht
    rw [hflat t ht]
  · intro hsame t ht
    have hvalue := hsame t ht
    have hsome := laneValueFor_isSome lanes param t 0
    cases hhere : laneValueFor lanes param t with
    | none =>
        rw [hhere, Option.isSome_none] at hsome
        rw [Option.not_isSome_iff_eq_none.mp (Bool.eq_false_iff.mp hsome.symm)]
    | some v =>
        rw [hhere, Option.isSome_some] at hsome
        obtain ⟨w, hw⟩ := Option.isSome_iff_exists.mp hsome.symm
        rw [hhere, hw] at hvalue
        rw [hw]
        exact congrArg some hvalue

theorem alignmentFree_iff_flatCurve (applied : Int → F)
    (happlied : ∀ t, applied t = ((laneValueFor lanes param t).map map).getD manual) :
    AlignmentFree applied ↔ FlatCurve map lanes param := by
  rw [alignmentFree_iff_flat, flatCurve_iff manual]
  simp only [happlied]

end Applied

variable [Sub F] [Mul F] [OfNat F 1] [OfNat F 2]

/-- The gains and pans of every track and the master gain do not depend on the
blocks that contain a sample, live or offline, if and only if every curve that
applies to one of them is flat. -/
theorem automation_alignmentFree_iff (tracks : List (TrackDef F)) (master_gain : F)
    (master_automation : List (AutomationLaneDef F)) :
    ((∀ track ∈ tracks, AlignmentFree (appliedGain track) ∧ AlignmentFree (appliedPan track)) ∧
        AlignmentFree (appliedMaster master_gain master_automation)) ↔
      (∀ track ∈ tracks, FlatCurve mapGain track.automation "gain" ∧
          FlatCurve mapPan track.automation "pan") ∧
        FlatCurve mapGain master_automation "gain" := by
  have hgain : ∀ track : TrackDef F,
      AlignmentFree (appliedGain track) ↔ FlatCurve mapGain track.automation "gain" := by
    intro track
    apply alignmentFree_iff_flatCurve track.gain
    intro t
    unfold appliedGain
    cases laneValueFor track.automation "gain" t <;> rfl
  have hpan : ∀ track : TrackDef F,
      AlignmentFree (appliedPan track) ↔ FlatCurve mapPan track.automation "pan" := by
    intro track
    apply alignmentFree_iff_flatCurve track.pan
    intro t
    unfold appliedPan
    cases laneValueFor track.automation "pan" t <;> rfl
  have hmaster : AlignmentFree (appliedMaster master_gain master_automation) ↔
      FlatCurve mapGain master_automation "gain" := by
    apply alignmentFree_iff_flatCurve master_gain
    intro t
    unfold appliedMaster
    cases laneValueFor master_automation "gain" t <;> rfl
  simp only [hgain, hpan, hmaster]

end Exact

section Points

variable {F D : Type} [DivisionRing D] [Floats F D] {c : F}

theorem interpolate_of_constant (t : Int) {a : AutomationPointDef F}
    {points : List (AutomationPointDef F)} (ha : a.v = c) (hpoints : ∀ p ∈ points, p.v = c) :
    interpolate t a points = c := by
  induction points generalizing a with
  | nil => exact ha
  | cons b rest ih =>
      have hb : b.v = c := hpoints b List.mem_cons_self
      have hsegment : segmentValue a b t = c := by
        simp only [segmentValue, ha, hb, sub_self, zero_mul, add_zero, narrow_widen, ite_self]
      rw [interpolate, hsegment, ih hb (fun p hp => hpoints p (List.mem_cons_of_mem b hp)),
        ite_self]

/-- Without rounding, a curve whose points share one value is flat. -/
theorem automationValueAt_of_constant {lane : AutomationLaneDef F}
    (hpoints : ∀ p ∈ lane.points, p.v = c) (t u : Int) :
    automationValueAt lane t = automationValueAt lane u := by
  have hvalue : ∀ w, automationValueAt lane w =
      if lane.enabled = false ∨ lane.points = [] then none else some c := by
    intro w
    unfold automationValueAt
    by_cases hoff : lane.enabled = false
    · rw [if_pos hoff, if_pos (Or.inl hoff)]
    rw [if_neg hoff]
    cases hlist : lane.points with
    | nil => rw [if_pos (Or.inr rfl)]
    | cons front rest =>
        rw [hlist] at hpoints
        have hfront : front.v = c := hpoints front List.mem_cons_self
        have hback := hpoints _ (List.getLast_mem (List.cons_ne_nil front rest))
        have hinside := interpolate_of_constant w hfront
          (fun p hp => hpoints p (List.mem_cons_of_mem front hp))
        rw [if_neg (by simp [hoff])]
        simp only [hfront, hback, hinside, ite_self]
  rw [hvalue t, hvalue u]

theorem flatCurve_of_constant {lanes : List (AutomationLaneDef F)} {param : String} {map : F → F}
    (hlanes : ∀ lane ∈ lanes, ∃ c, ∀ p ∈ lane.points, p.v = c) : FlatCurve map lanes param := by
  intro t _
  have hsame : laneValueFor lanes param t = laneValueFor lanes param 0 := by
    unfold laneValueFor
    induction lanes with
    | nil => rfl
    | cons lane rest ih =>
        obtain ⟨c, hc⟩ := hlanes lane List.mem_cons_self
        have hrest := ih (fun l hl => hlanes l (List.mem_cons_of_mem lane hl))
        rw [List.findSome?_cons, List.findSome?_cons, hrest, automationValueAt_of_constant hc t 0]
  rw [hsame]

end Points

/-- A fade from silence to unity gain over 480 frames. -/
def fadeIn : TrackDef ℚ where
  gain := 1
  pan := 0
  automation := [{ param := "gain", points := [⟨0, 0⟩, ⟨480, 1 / 2⟩] }]

/-- The second sample of a fade has the gain of the first in an offline render
and its own after a seek. -/
theorem not_automation_alignmentFree_fade :
    ¬ ∀ (tracks : List (TrackDef ℚ)) (master_gain : ℚ)
      (master_automation : List (AutomationLaneDef ℚ)),
      (∀ track ∈ tracks, LiveEqualsOffline (appliedGain track) ∧
          LiveEqualsOffline (appliedPan track)) ∧
        LiveEqualsOffline (appliedMaster master_gain master_automation) := by
  intro hall
  have hfade := ((hall [fadeIn] 1 []).1 fadeIn (List.mem_singleton_self fadeIn)).1
  have hlive : LiveBlock 1 1 := liveBlock_of_seek (by decide) (by decide) (by decide)
  have hone := hfade 1 1 0 1 256 hlive (offlineBlock_of_grid 0) (by decide) (by decide) (by decide)
    (by decide)
  revert hone
  have hwide : Binary64.ofInt 480 = 480 := Binary64.ofInt_of_natAbs_lt (by decide)
  have hstep : Binary64.ofInt 1 = 1 := Binary64.ofInt_of_natAbs_lt (by decide)
  norm_num [appliedGain, fadeIn, laneValueFor, automationValueAt, interpolate, segmentValue,
    mapGain, Floats.narrow, Floats.widen, Floats.ofInt, hwide, hstep]

end DawProject.Audio
