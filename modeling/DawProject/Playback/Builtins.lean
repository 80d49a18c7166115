import DawProject.Playback.Clips

/-!
The processors of the engine itself, `engine/src/graph/*_node.cpp`, with the
arithmetic that they do, and `makeBuiltinNode` of
`engine/src/graph/graph_common.cpp`. Nothing is assumed of the numbers. A node
takes the parameters once a block and processes the buffer in place, a frame
after the other, so a block is here the frames that go in and those that come
out. The parameters of a node are those of its document: the engine makes new
nodes when one is changed.
-/

namespace DawProject.Playback

open Engine (ProcessorDef)
open Floats (widen narrow ofInt)

/-- What the standard library computes of the numbers of a width. -/
class Elementary (N : Type) where
  exp : N → N
  pow : N → N → N
  log10 : N → N
  sqrt : N → N
  sin : N → N
  cos : N → N
  tanh : N → N
  abs : N → N
  /-- The nearest integer. -/
  lround : N → Int

open Elementary

section Numbers

variable {F : Type} [LT F] [DecidableLT F]

/-- `std::clamp`. -/
def clamp (v lo hi : F) : F := if v < lo then lo else if hi < v then hi else v

/-- `std::max`. -/
def larger (a b : F) : F := if a < b then b else a

/-- `getParam`: the first entry of the key. -/
def getParam (proc_def : ProcessorDef F) (key : String) (dflt : F) : F :=
  ((proc_def.params.find? fun p => p.1 == key).map Prod.snd).getD dflt

end Numbers

section Clamp

variable {F : Type} [LinearOrder F]

theorem clamp_le {v lo hi : F} (h : lo ≤ hi) : clamp v lo hi ≤ hi := by
  rw [clamp]
  split
  · exact h
  · split
    · exact le_refl hi
    · exact not_lt.mp (by assumption)

theorem le_clamp {v lo hi : F} (h : lo ≤ hi) : lo ≤ clamp v lo hi := by
  rw [clamp]
  split
  · exact le_refl lo
  · split
    · exact h
    · exact not_lt.mp (by assumption)

end Clamp

variable {F D : Type} [Floats F D] [Elementary F] [Elementary D] [Zero F] [One F] [Add F] [Sub F] [Mul F] [Div F] [Neg F] [LE F]
  [DecidableLE F] [LT F] [DecidableLT F] [OfScientific F]
  [Zero D] [One D] [Add D] [Sub D] [Mul D] [Div D] [Neg D] [LT D] [DecidableLT D] [DecidableEq D]
  [OfScientific D]

/-- The coefficient of a one-pole smoother that takes about 5 ms. -/
def smoothing (sample_rate : Nat) : F :=
  let samples_to_target := narrow (ofInt (F := F) sample_rate) * (5.0 : F) / (1000.0 : F)
  1 - exp (-1 / samples_to_target)

section Gain

structure GainNode (F : Type) where
  gain : F
  smoothed_gain : F
  smooth_coeff : F

def GainNode.make (initial_gain : F) : GainNode F where
  gain := clamp initial_gain 0 (2.0 : F)
  smoothed_gain := initial_gain
  smooth_coeff := 0

def GainNode.prepare (node : GainNode F) (sample_rate : Nat) : GainNode F :=
  { node with smooth_coeff := smoothing sample_rate }

def GainNode.processFrame (node : GainNode F) (x : Frame F) : GainNode F × Frame F :=
  let smoothed_gain := node.smoothed_gain +
    node.smooth_coeff * (node.gain - node.smoothed_gain)
  ({ node with smoothed_gain := smoothed_gain }, ⟨x.left * smoothed_gain, x.right * smoothed_gain⟩)

end Gain

section Utility

/-- The matrix goes to its target as a gain does. -/
structure UtilityNode (F : Type) where
  gain : F
  pan : F
  mono : Bool
  phase : Bool
  t_ll : F
  t_lr : F
  t_rl : F
  t_rr : F
  s_ll : F
  s_lr : F
  s_rl : F
  s_rr : F
  smooth_coeff : F

/-- The target: a balance of unity in the middle, over both sides or their mean. -/
def UtilityNode.updateMatrix (node : UtilityNode F) : UtilityNode F :=
  let g := node.gain * (if node.phase then -1 else 1)
  let bl : F := if node.pan ≤ 0 then 1 else 1 - node.pan
  let br : F := if 0 ≤ node.pan then 1 else 1 + node.pan
  if node.mono then
    { node with
      t_ll := (0.5 : F) * g * bl
      t_lr := (0.5 : F) * g * bl
      t_rl := (0.5 : F) * g * br
      t_rr := (0.5 : F) * g * br }
  else { node with t_ll := g * bl, t_lr := 0, t_rl := 0, t_rr := g * br }

/-- The smoother starts at its target. -/
def UtilityNode.make (gain pan : F) (mono phase : Bool) : UtilityNode F :=
  let node := UtilityNode.updateMatrix
    { gain := clamp gain 0 (2.0 : F)
      pan := clamp pan (-1) 1
      mono := mono
      phase := phase
      t_ll := 1
      t_lr := 0
      t_rl := 0
      t_rr := 1
      s_ll := 1
      s_lr := 0
      s_rl := 0
      s_rr := 1
      smooth_coeff := 0 }
  { node with s_ll := node.t_ll, s_lr := node.t_lr, s_rl := node.t_rl, s_rr := node.t_rr }

def UtilityNode.prepare (node : UtilityNode F) (sample_rate : Nat) : UtilityNode F :=
  { node with smooth_coeff := smoothing sample_rate }

def UtilityNode.processFrame (node : UtilityNode F) (x : Frame F) : UtilityNode F × Frame F :=
  let s_ll := node.s_ll + node.smooth_coeff * (node.t_ll - node.s_ll)
  let s_lr := node.s_lr + node.smooth_coeff * (node.t_lr - node.s_lr)
  let s_rl := node.s_rl + node.smooth_coeff * (node.t_rl - node.s_rl)
  let s_rr := node.s_rr + node.smooth_coeff * (node.t_rr - node.s_rr)
  ({ node with s_ll := s_ll, s_lr := s_lr, s_rl := s_rl, s_rr := s_rr },
    ⟨x.left * s_ll + x.right * s_lr, x.left * s_rl + x.right * s_rr⟩)

end Utility

section Equalizer

/-- The coefficients of a filter, over its first. -/
structure Coeffs (D : Type) where
  b0 : D
  b1 : D
  b2 : D
  a1 : D
  a2 : D

def kPi : D := (3.14159265358979323846 : D)

/-- A shelf below a frequency. -/
def lowShelf (sr f gain_db : D) : Coeffs D :=
  let A := pow (10.0 : D) (gain_db / (40.0 : D))
  let w := (2.0 : D) * kPi * f / sr
  let cw := cos w
  let alpha := sin w / (2.0 : D) * sqrt (2.0 : D)
  let sq := (2.0 : D) * sqrt A * alpha
  let a0 := (A + 1) + (A - 1) * cw + sq
  { b0 := (A * ((A + 1) - (A - 1) * cw + sq)) / a0
    b1 := ((2.0 : D) * A * ((A - 1) - (A + 1) * cw)) / a0
    b2 := (A * ((A + 1) - (A - 1) * cw - sq)) / a0
    a1 := (-(2.0 : D) * ((A - 1) + (A + 1) * cw)) / a0
    a2 := ((A + 1) + (A - 1) * cw - sq) / a0 }

/-- A shelf above it. -/
def highShelf (sr f gain_db : D) : Coeffs D :=
  let A := pow (10.0 : D) (gain_db / (40.0 : D))
  let w := (2.0 : D) * kPi * f / sr
  let cw := cos w
  let alpha := sin w / (2.0 : D) * sqrt (2.0 : D)
  let sq := (2.0 : D) * sqrt A * alpha
  let a0 := (A + 1) - (A - 1) * cw + sq
  { b0 := (A * ((A + 1) + (A - 1) * cw + sq)) / a0
    b1 := (-(2.0 : D) * A * ((A - 1) + (A + 1) * cw)) / a0
    b2 := (A * ((A + 1) + (A - 1) * cw - sq)) / a0
    a1 := ((2.0 : D) * ((A - 1) - (A + 1) * cw)) / a0
    a2 := ((A + 1) - (A - 1) * cw - sq) / a0 }

def peaking (sr f gain_db q : D) : Coeffs D :=
  let A := pow (10.0 : D) (gain_db / (40.0 : D))
  let w := (2.0 : D) * kPi * f / sr
  let cw := cos w
  let alpha := sin w / ((2.0 : D) * q)
  let a0 := 1 + alpha / A
  { b0 := (1 + alpha * A) / a0
    b1 := (-(2.0 : D) * cw) / a0
    b2 := (1 - alpha * A) / a0
    a1 := (-(2.0 : D) * cw) / a0
    a2 := (1 - alpha / A) / a0 }

/-- The two values that a filter keeps for a channel. -/
structure FilterState (D : Type) where
  z1 : D
  z2 : D

/-- A filter, in the transposed direct form. -/
def biquad (c : Coeffs D) (s : FilterState D) (x : D) : FilterState D × D :=
  let y := c.b0 * x + s.z1
  ({ z1 := c.b1 * x - c.a1 * y + s.z2, z2 := c.b2 * x - c.a2 * y }, y)

/-- The states of the three filters of a channel. -/
structure Eq3Channel (D : Type) where
  s_low : FilterState D
  s_peak : FilterState D
  s_high : FilterState D

structure Eq3Node (F D : Type) where
  low_gain_db : F
  low_freq : F
  peak_gain_db : F
  peak_freq : F
  peak_q : F
  high_gain_db : F
  high_freq : F
  low : Coeffs D
  peak : Coeffs D
  high : Coeffs D
  left : Eq3Channel D
  right : Eq3Channel D

def Eq3Node.updateCoeffs (node : Eq3Node F D) (sample_rate : Nat) : Eq3Node F D :=
  let sr := ofInt (F := F) sample_rate
  { node with
    low := lowShelf sr (widen node.low_freq) (widen node.low_gain_db)
    peak := peaking sr (widen node.peak_freq) (widen node.peak_gain_db) (widen node.peak_q)
    high := highShelf sr (widen node.high_freq) (widen node.high_gain_db) }

/-- Until `prepare` a node is at 48 kHz. -/
def Eq3Node.make (low_gain_db low_freq peak_gain_db peak_freq peak_q high_gain_db high_freq : F) :
    Eq3Node F D :=
  let through : Coeffs D := { b0 := 1, b1 := 0, b2 := 0, a1 := 0, a2 := 0 }
  let silent : Eq3Channel D := { s_low := ⟨0, 0⟩, s_peak := ⟨0, 0⟩, s_high := ⟨0, 0⟩ }
  Eq3Node.updateCoeffs
    { low_gain_db := clamp low_gain_db (-(15.0 : F)) (15.0 : F)
      low_freq := clamp low_freq (20.0 : F) (500.0 : F)
      peak_gain_db := clamp peak_gain_db (-(15.0 : F)) (15.0 : F)
      peak_freq := clamp peak_freq (100.0 : F) (8000.0 : F)
      peak_q := clamp peak_q (0.3 : F) (4.0 : F)
      high_gain_db := clamp high_gain_db (-(15.0 : F)) (15.0 : F)
      high_freq := clamp high_freq (1000.0 : F) (16000.0 : F)
      low := through
      peak := through
      high := through
      left := silent
      right := silent } 48000

def Eq3Node.prepare (node : Eq3Node F D) (sample_rate : Nat) : Eq3Node F D :=
  node.updateCoeffs sample_rate

/-- A sample of a channel through the three filters. -/
def Eq3Node.processSample (node : Eq3Node F D) (st : Eq3Channel D) (x : F) : Eq3Channel D × F :=
  let (s_low, x) := biquad node.low st.s_low (widen x)
  let (s_peak, x) := biquad node.peak st.s_peak x
  let (s_high, x) := biquad node.high st.s_high x
  ({ s_low := s_low, s_peak := s_peak, s_high := s_high }, narrow x)

def Eq3Node.processFrame (node : Eq3Node F D) (x : Frame F) : Eq3Node F D × Frame F :=
  let (left, l) := node.processSample node.left x.left
  let (right, r) := node.processSample node.right x.right
  ({ node with left := left, right := right }, ⟨l, r⟩)

end Equalizer

section Compressor

structure CompressorNode (F D : Type) where
  threshold_db : F
  ratio : F
  attack_ms : F
  release_ms : F
  makeup_db : F
  attack_coeff : D
  release_coeff : D
  makeup_lin : D
  threshold_lin : D
  slope : D
  envelope : D

def CompressorNode.updateDerived (node : CompressorNode F D) (sample_rate : Nat) :
    CompressorNode F D :=
  let sr := ofInt (F := F) sample_rate
  let coeff (ms : D) : D := 1 - exp (-1 / (sr * ms / (1000.0 : D)))
  { node with
    attack_coeff := coeff (widen node.attack_ms)
    release_coeff := coeff (widen node.release_ms)
    makeup_lin := pow (10.0 : D) (widen node.makeup_db / (20.0 : D))
    threshold_lin := pow (10.0 : D) (widen node.threshold_db / (20.0 : D))
    slope := 1 - 1 / widen node.ratio }

def CompressorNode.make (threshold_db ratio attack_ms release_ms makeup_db : F) :
    CompressorNode F D :=
  CompressorNode.updateDerived
    { threshold_db := clamp threshold_db (-(60.0 : F)) 0
      ratio := clamp ratio 1 (20.0 : F)
      attack_ms := clamp attack_ms (0.1 : F) (100.0 : F)
      release_ms := clamp release_ms (5.0 : F) (1000.0 : F)
      makeup_db := clamp makeup_db 0 (24.0 : F)
      attack_coeff := 0
      release_coeff := 0
      makeup_lin := 1
      threshold_lin := 1
      slope := 0
      envelope := 0 } 48000

def CompressorNode.prepare (node : CompressorNode F D) (sample_rate : Nat) : CompressorNode F D :=
  node.updateDerived sample_rate

/-- The envelope goes up with the attack and down with the release. -/
def CompressorNode.processFrame (node : CompressorNode F D) (x : Frame F) :
    CompressorNode F D × Frame F :=
  let l := widen x.left
  let r := widen x.right
  let peak := larger (abs l) (abs r)
  let c := if node.envelope < peak then node.attack_coeff else node.release_coeff
  let envelope := node.envelope + c * (peak - node.envelope)
  let gain :=
    if node.threshold_lin < envelope then
      let over_db := (20.0 : D) * log10 (envelope / node.threshold_lin)
      pow (10.0 : D) (-(over_db * node.slope) / (20.0 : D))
    else 1
  let g := gain * node.makeup_lin
  ({ node with envelope := envelope }, ⟨narrow (l * g), narrow (r * g)⟩)

end Compressor

section Delay

/-- The content of a line that nothing has been written to. -/
def Frame.silent : Frame F := ⟨0, 0⟩

def kMaxDelayMs : F := (2000.0 : F)

/-- What the document says of a delay, and what comes of it. -/
structure DelaySettings (F : Type) where
  time_ms : F
  feedback : F
  mix : F
  delay_samples : Nat

/-- A node before `prepare` has no line. -/
structure DelayNode (F : Type) extends DelaySettings F where
  line : List (Frame F)
  line_frames : Nat
  write : Nat

/-- The delay of a time, rounded to whole samples. -/
def delaySamples (time_ms : F) (sample_rate : Nat) : Nat :=
  (lround (widen time_ms * ofInt (F := F) sample_rate / (1000.0 : D))).toNat

/-- Until `prepare` a node is at 48 kHz. -/
def DelayNode.make (time_ms feedback mix : F) : DelayNode F where
  time_ms := clamp time_ms 1 kMaxDelayMs
  feedback := clamp feedback 0 (0.95 : F)
  mix := clamp mix 0 1
  delay_samples := delaySamples (clamp time_ms 1 kMaxDelayMs) 48000
  line := []
  line_frames := 0
  write := 0

/-- The frames that the longest delay takes, and one more. -/
def lineFrames (F : Type) {D : Type} [Floats F D] [OfScientific F] [OfScientific D] [Mul D]
    [Div D] (sample_rate : Nat) : Nat :=
  (Floats.toInt F (widen (kMaxDelayMs : F) * ofInt (F := F) sample_rate / (1000.0 : D))).toNat + 1

def DelayNode.prepare (node : DelayNode F) (sample_rate : Nat) : DelayNode F :=
  { node with
    delay_samples := delaySamples node.time_ms sample_rate
    line_frames := lineFrames F sample_rate
    line := List.replicate (lineFrames F sample_rate) .silent
    write := 0 }

/-- The line takes the input and what comes back of the output of the line. -/
def DelayNode.processFrame (node : DelayNode F) (x : Frame F) : DelayNode F × Frame F :=
  if node.line_frames = 0 then (node, x)
  else
    let d := min node.delay_samples (node.line_frames - 1)
    let dry := 1 - node.mix
    let rd := (node.write + node.line_frames - d) % node.line_frames
    let delayed := node.line.getD rd .silent
    let fed : Frame F :=
      ⟨x.left + delayed.left * node.feedback, x.right + delayed.right * node.feedback⟩
    ({ node with
        line := node.line.set node.write fed
        write := (node.write + 1) % node.line_frames },
      ⟨x.left * dry + delayed.left * node.mix, x.right * dry + delayed.right * node.mix⟩)

end Delay

section Drive

def kOs : Nat := 4
def kTaps : Nat := 65
def kPhaseTaps : Nat := kTaps / kOs

/-- What the document says of a drive, and what comes of it. -/
structure DriveSettings (F D : Type) where
  drive_db : F
  level_db : F
  mix : F
  pre_gain : D
  post_gain : D
  fir : List D

structure ChannelState (D : Type) where
  in_hist : List D
  os_hist : List D
  in_pos : Nat
  os_pos : Nat

structure DriveNode (F D : Type) extends DriveSettings F D where
  left : ChannelState D
  right : ChannelState D

def ChannelState.reset : ChannelState D where
  in_hist := List.replicate (kTaps / kOs + 1) 0
  os_hist := List.replicate kTaps 0
  in_pos := 0
  os_pos := 0

/-- A windowed sinc, before it is scaled to unity at zero. -/
def prototype (n : Nat) : D :=
  let fc := (0.475 : D) / ofInt (F := F) kOs
  let center := ofInt (F := F) (kTaps - 1 : Nat) / (2.0 : D)
  let t := ofInt (F := F) n - center
  let sinc := if t = 0 then (2.0 : D) * fc else sin ((2.0 : D) * kPi * fc * t) / (kPi * t)
  let last := ofInt (F := F) (kTaps - 1 : Nat)
  let w := (0.42 : D) - (0.5 : D) * cos ((2.0 : D) * kPi * ofInt (F := F) n / last) +
    (0.08 : D) * cos ((4.0 : D) * kPi * ofInt (F := F) n / last)
  sinc * w

/-- The filter, the same at every rate. -/
def prototypes (F : Type) {D : Type} [Floats F D] [Elementary D] [Zero D] [Add D] [Sub D] [Mul D]
    [Div D] [DecidableEq D] [OfScientific D] : List D :=
  let fir := (List.range kTaps).map (prototype (F := F))
  let sum := fir.foldl (· + ·) 0
  fir.map (· / sum)

def DriveNode.prepare (node : DriveNode F D) : DriveNode F D :=
  { node with fir := prototypes F, left := .reset, right := .reset }

/-- A node prepares itself. -/
def DriveNode.make (drive_db level_db mix : F) : DriveNode F D :=
  DriveNode.prepare
    { drive_db := clamp drive_db 0 (36.0 : F)
      level_db := clamp level_db (-(24.0 : F)) (6.0 : F)
      mix := clamp mix 0 1
      pre_gain := pow (10.0 : D) (widen (clamp drive_db 0 (36.0 : F)) / (20.0 : D))
      post_gain := pow (10.0 : D) (widen (clamp level_db (-(24.0 : F)) (6.0 : F)) / (20.0 : D))
      fir := List.replicate kTaps 0
      left := .reset
      right := .reset }

/-- One of the four phases: the input history through every fourth tap, shaped. -/
def DriveSettings.phase (set : DriveSettings F D) (st : ChannelState D) (ph : Nat) : D :=
  let in_size := st.in_hist.length
  let acc := (List.range kPhaseTaps).foldl (fun acc k =>
    acc + set.fir.getD (k * kOs + ph) 0 * st.in_hist.getD ((st.in_pos + in_size - k) % in_size) 0) 0
  tanh (set.pre_gain * (acc * ofInt (F := F) kOs))

/-- The four phases go into the history at the fourfold rate. -/
def DriveSettings.oversample (set : DriveSettings F D) (st : ChannelState D) : ChannelState D :=
  (List.range kOs).foldl (fun st ph =>
    { st with
      os_hist := st.os_hist.set st.os_pos (set.phase st ph)
      os_pos := (st.os_pos + 1) % kTaps }) st

/-- The taps from the last written one back. -/
def DriveSettings.decimate (set : DriveSettings F D) (st : ChannelState D) : D :=
  ((List.range kTaps).foldl (fun (p : D × Nat) k =>
      (p.1 + set.fir.getD k 0 * st.os_hist.getD p.2 0, (p.2 + kTaps - 1) % kTaps))
    (0, (st.os_pos + kTaps - 1) % kTaps)).1

def DriveSettings.processSample (set : DriveSettings F D) (st : ChannelState D) (x : F) :
    ChannelState D × F :=
  let st := { st with in_hist := st.in_hist.set st.in_pos (widen x) }
  let st := set.oversample st
  let st := { st with in_pos := (st.in_pos + 1) % st.in_hist.length }
  let wet := set.decimate st * set.post_gain
  let dry := 1 - set.mix
  (st, narrow (widen x * widen dry + wet * widen set.mix))

def DriveNode.processFrame (node : DriveNode F D) (x : Frame F) : DriveNode F D × Frame F :=
  let (left, l) := node.processSample node.left x.left
  let (right, r) := node.processSample node.right x.right
  ({ node with left := left, right := right }, ⟨l, r⟩)

/-- Two symmetric filters at the fourfold rate. -/
def DriveNode.getLatencySamples : UInt32 :=
  UInt32.ofNat (2 * ((kTaps - 1) / 2) / kOs)

end Drive

section Node

/-- A block, a frame after the other: each is read before it is written over. -/
def inPlace {N F : Type} (processFrame : N → Frame F → N × Frame F) (node : N) :
    List (Frame F) → N × List (Frame F)
  | [] => (node, [])
  | x :: block =>
      let (node, y) := processFrame node x
      let (node, out) := inPlace processFrame node block
      (node, y :: out)

/-- A node that the engine makes itself. -/
inductive BuiltinNode (F D : Type) where
  | gain (node : GainNode F)
  | utility (node : UtilityNode F)
  | eq3 (node : Eq3Node F D)
  | compressor (node : CompressorNode F D)
  | drive (node : DriveNode F D)
  | delay (node : DelayNode F)

def makeBuiltinNode (proc_def : ProcessorDef F) : Option (BuiltinNode F D) :=
  let get := getParam proc_def
  if proc_def.type = "builtin.gain" then some (.gain (.make (get "gain" 1)))
  else if proc_def.type = "builtin.utility" then
    some (.utility (.make (get "gain" 1) (get "pan" 0) (decide ((0.5 : F) ≤ get "mono" 0))
      (decide ((0.5 : F) ≤ get "phase" 0))))
  else if proc_def.type = "builtin.eq3" then
    some (.eq3 (.make (get "lowGainDb" 0) (get "lowFreq" (120.0 : F)) (get "peakGainDb" 0)
      (get "peakFreq" (1000.0 : F)) (get "peakQ" (0.9 : F)) (get "highGainDb" 0)
      (get "highFreq" (6000.0 : F))))
  else if proc_def.type = "builtin.comp" then
    some (.compressor (.make (get "thresholdDb" (-(24.0 : F))) (get "ratio" (4.0 : F))
      (get "attackMs" (10.0 : F)) (get "releaseMs" (100.0 : F)) (get "makeupDb" 0)))
  else if proc_def.type = "builtin.drive" then
    some (.drive (.make (get "driveDb" (12.0 : F)) (get "levelDb" (-(6.0 : F))) (get "mix" 1)))
  else if proc_def.type = "builtin.delay" then
    some (.delay (.make (get "timeMs" (350.0 : F)) (get "feedback" (0.35 : F))
      (get "mix" (0.35 : F))))
  else none

def BuiltinNode.prepare (sample_rate : Nat) : BuiltinNode F D → BuiltinNode F D
  | .gain node => .gain (node.prepare sample_rate)
  | .utility node => .utility (node.prepare sample_rate)
  | .eq3 node => .eq3 (node.prepare sample_rate)
  | .compressor node => .compressor (node.prepare sample_rate)
  | .drive node => .drive node.prepare
  | .delay node => .delay (node.prepare sample_rate)

def BuiltinNode.processFrame (node : BuiltinNode F D) (x : Frame F) :
    BuiltinNode F D × Frame F :=
  match node with
  | .gain node => (node.processFrame x).map .gain id
  | .utility node => (node.processFrame x).map .utility id
  | .eq3 node => (node.processFrame x).map .eq3 id
  | .compressor node => (node.processFrame x).map .compressor id
  | .drive node => (node.processFrame x).map .drive id
  | .delay node => (node.processFrame x).map .delay id

def BuiltinNode.getLatencySamples : BuiltinNode F D → UInt32
  | .drive _ => DriveNode.getLatencySamples
  | _ => 0

/-- A block, in place. -/
def BuiltinNode.process (node : BuiltinNode F D) (block : List (Frame F)) :
    BuiltinNode F D × List (Frame F) :=
  inPlace (fun node x => node.processFrame x) node block

end Node

end DawProject.Playback
