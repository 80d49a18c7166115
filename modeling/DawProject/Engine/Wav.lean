import DawProject.Audio.Automation
import DawProject.Lib.Bytes
import Mathlib.Tactic.Ring

/-!
The WAV file of an offline render, `engine/src/render/offline_render.cpp`: the
header is written from the length of the range, then the samples block by
block.
-/

namespace DawProject.Engine

open Audio (offlineBlocks kRingBlockSize)
open Bytes (leBytes ofLE)

/-- What the render computes with samples and their magnitudes. -/
structure SampleOps (F D : Type) where
  zero : D
  abs : F → D
  lt : D → D → Bool
  /-- Above 1 or below -1. -/
  outside : F → Bool
  clamp : F → F
  /-- The sample times the full scale, as an integer. -/
  scaled : F → Int → Int
  bits : F → UInt32

structure RenderConfig where
  sample_rate : UInt32 := 48000
  bit_depth : UInt32 := 24
  start_sample : Int := 0
  end_sample : Int := -1

structure RenderResult (D : Type) where
  samples_rendered : Nat := 0
  peak_left : D
  peak_right : D
  clipped : Bool := false

/-- What a render meets: the built graph or why there is none, its blocks, the
file, the listener and the failed bridge, if any, at the end. -/
structure RenderEnv (γ F : Type) where
  built : Except String γ
  process : γ → Nat → Int → Option (γ × (Nat → F))
  opened : Bool
  /-- The file is good at this length. -/
  good : Nat → Bool
  progress : Int → Int → Bool
  failed : γ → Option String

/-- Nothing fails: the graph gives the same buffer for every block. -/
def RenderEnv.smooth {γ F : Type} (graph : γ) (buffer : Nat → F) : RenderEnv γ F where
  built := .ok graph
  process := fun graph _ _ => some (graph, buffer)
  opened := true
  good := fun _ => true
  progress := fun _ _ => true
  failed := fun _ => none

/-- `calculateProjectLength`, on resolved positions. -/
def calculateProjectLength {F : Type} (doc : ProjectDef F) : Int :=
  (doc.tracks.flatMap TrackDef.clips).foldl
    (fun max_end clip => max max_end (clip.start_sample + clip.length_samples)) 0

def ascii (text : String) : List UInt8 := text.toList.map fun c => UInt8.ofNat c.toNat

def channels : UInt32 := 2

/-- `writeWavHeader`. -/
def writeWavHeader (sample_rate bit_depth channels data_size : UInt32) : List UInt8 :=
  let bytes_per_sample := bit_depth / 8
  let byte_rate := sample_rate * channels * bytes_per_sample
  let block_align := channels * bytes_per_sample
  let file_size := 36 + data_size
  let audio_format := if bit_depth = 32 then 3 else 1
  ascii "RIFF" ++ leBytes 4 file_size.toNat ++ ascii "WAVE" ++
    ascii "fmt " ++ leBytes 4 16 ++ leBytes 2 audio_format ++ leBytes 2 channels.toNat ++
    leBytes 4 sample_rate.toNat ++ leBytes 4 byte_rate.toNat ++
    leBytes 2 block_align.toNat ++ leBytes 2 bit_depth.toNat ++
    ascii "data" ++ leBytes 4 data_size.toNat

section Render

variable {γ F D : Type} (ops : SampleOps F D) (io : RenderEnv γ F)

/-- The bytes of one sample, lowest first. -/
def sampleBytes (bit_depth : UInt32) (sample : F) : List UInt8 :=
  if bit_depth = 16 then leBytes 2 (ops.scaled sample 32767 % 65536).toNat
  else if bit_depth = 24 then leBytes 3 (ops.scaled sample 8388607 % 16777216).toNat
  else if bit_depth = 32 then leBytes 4 (ops.bits sample).toNat
  else []

/-- One sample of channel `ch`: the peak of its side, the clipping and its
bytes. -/
def convertSample (bit_depth : UInt32) (ch : Nat) (sample : F)
    (acc : RenderResult D × List UInt8) : RenderResult D × List UInt8 :=
  let (result, output) := acc
  let abs_sample := ops.abs sample
  let result :=
    if ch = 0 ∧ ops.lt result.peak_left abs_sample then { result with peak_left := abs_sample }
    else if ch = 1 ∧ ops.lt result.peak_right abs_sample then
      { result with peak_right := abs_sample }
    else result
  let clipped := ops.outside sample
  let result := if clipped then { result with clipped := true } else result
  let sample := if clipped ∧ bit_depth ≠ 32 then ops.clamp sample else sample
  (result, output ++ sampleBytes ops bit_depth sample)

/-- `convertSamples`: the bytes overwrite the front of the buffer. -/
def convertSamples (input : Nat → F) (int_buffer : List UInt8) (frame_count : Nat)
    (bit_depth : UInt32) (result : RenderResult D) : RenderResult D × List UInt8 :=
  let (result, output) := (List.range frame_count).foldl (fun acc i =>
    [0, 1].foldl (fun acc ch => convertSample ops bit_depth ch (input (i * 2 + ch)) acc) acc)
    (result, [])
  (result, output ++ int_buffer.drop output.length)

/-- The state of the render loop. -/
structure RenderState (γ D : Type) where
  graph : γ
  int_buffer : List UInt8
  result : RenderResult D
  file : List UInt8

/-- The blocks before the range: their output is dropped. -/
def preRoll (graph : γ) (start : Int) : Except String γ :=
  (offlineBlocks start (start - 8192)).foldlM (fun graph block =>
    match io.process graph block.2 block.1 with
    | some (graph, _) => .ok graph
    | none => .error ("Graph pre-roll failed at sample " ++ toString block.1)) graph

/-- One block of the render loop. -/
def writeBlock (bit_depth : UInt32) (start stop : Int) (s : RenderState γ D)
    (block : Int × Nat) : Except String (RenderState γ D) :=
  let (position, block_frames) := block
  match io.process s.graph block_frames position with
  | none => .error ("Graph processing failed at sample " ++ toString position)
  | some (graph, buffer) =>
      let (result, int_buffer) :=
        convertSamples ops buffer s.int_buffer block_frames bit_depth s.result
      let write_size := UInt32.ofNat block_frames * channels * (bit_depth / 8)
      let file := s.file ++ int_buffer.take write_size.toNat
      if io.good file.length then
        let result := { result with samples_rendered := result.samples_rendered + block_frames }
        if io.progress (position + block_frames - start) (stop - start) then
          .ok ⟨graph, int_buffer, result, file⟩
        else .error "Cancelled"
      else .error "Write error"

/-- The end of the range. -/
def RenderConfig.stop (config : RenderConfig) (doc : ProjectDef F) : Int :=
  if config.end_sample < 0 then calculateProjectLength doc else config.end_sample

/-- `render` of a resolved document: the result and the file. -/
def renderFile (config : RenderConfig) (doc : ProjectDef F) (output_path : String) :
    Except String (RenderResult D × List UInt8) := do
  let graph ← io.built
  let start := config.start_sample
  let stop := config.stop doc
  if stop ≤ start then
    throw "Invalid render range"
  let total_samples := stop - start
  let bytes_per_sample := config.bit_depth / 8
  let data_size := UInt32.ofInt total_samples * channels * bytes_per_sample
  if io.opened = false then
    throw ("Failed to open output file: " ++ output_path)
  let header := writeWavHeader config.sample_rate config.bit_depth channels data_size
  if io.good header.length = false then
    throw "Failed to write WAV header"
  let int_buffer :=
    List.replicate (kRingBlockSize * channels.toNat * bytes_per_sample.toNat) (0 : UInt8)
  let graph ← preRoll io graph start
  let s ← (offlineBlocks stop start).foldlM (writeBlock ops io config.bit_depth start stop)
    ⟨graph, int_buffer, ⟨0, ops.zero, ops.zero, false⟩, header⟩
  match io.failed s.graph with
  | some node => throw ("Plugin bridge failed during render (node " ++ node ++ ")")
  | none => return (s.result, s.file)

end Render

/-- The number in the four bytes at an offset of a file. -/
def sizeAt (file : List UInt8) (offset : Nat) : Nat := ofLE ((file.drop offset).take 4)

/-- Each size of the header is the number of bytes after it. -/
def HeaderTruthful (file : List UInt8) : Prop :=
  sizeAt file 4 = file.length - 8 ∧ sizeAt file 40 = file.length - 44

instance (file : List UInt8) : Decidable (HeaderTruthful file) :=
  inferInstanceAs (Decidable (_ ∧ _))

/-- The depths that the renderer writes. -/
def Supported (bit_depth : UInt32) : Prop := bit_depth = 16 ∨ bit_depth = 24 ∨ bit_depth = 32

section Sizes

variable {γ F D : Type} {ops : SampleOps F D} {io : RenderEnv γ F} {bit_depth : UInt32}
  {start stop : Int}

theorem length_writeWavHeader (sample_rate bit_depth channels data_size : UInt32) :
    (writeWavHeader sample_rate bit_depth channels data_size).length = 44 := by
  simp only [writeWavHeader, List.length_append, Bytes.length_leBytes]
  rfl

theorem sizeAt_writeWavHeader (sample_rate bit_depth channels data_size : UInt32)
    (data : List UInt8) :
    sizeAt (writeWavHeader sample_rate bit_depth channels data_size ++ data) 4 =
        (36 + data_size).toNat ∧
      sizeAt (writeWavHeader sample_rate bit_depth channels data_size ++ data) 40 =
        data_size.toNat := by
  have hriff : sizeAt (writeWavHeader sample_rate bit_depth channels data_size ++ data) 4 =
      ofLE (leBytes 4 (36 + data_size).toNat) := rfl
  have hdata : sizeAt (writeWavHeader sample_rate bit_depth channels data_size ++ data) 40 =
      ofLE (leBytes 4 data_size.toNat) := rfl
  rw [hriff, hdata, Bytes.ofLE_leBytes, Bytes.ofLE_leBytes]
  exact ⟨Nat.mod_eq_of_lt (UInt32.toNat_lt _), Nat.mod_eq_of_lt (UInt32.toNat_lt _)⟩

theorem Supported.bytes (hdepth : Supported bit_depth) :
    (bit_depth / 8).toNat = 2 ∨ (bit_depth / 8).toNat = 3 ∨ (bit_depth / 8).toNat = 4 := by
  rcases hdepth with rfl | rfl | rfl <;> decide

theorem length_sampleBytes (hdepth : Supported bit_depth) (sample : F) :
    (sampleBytes ops bit_depth sample).length = (bit_depth / 8).toNat := by
  rcases hdepth with rfl | rfl | rfl
  · exact Bytes.length_leBytes 2 _
  · exact Bytes.length_leBytes 3 _
  · exact Bytes.length_leBytes 4 _

theorem length_convertSample (hdepth : Supported bit_depth) (ch : Nat) (sample : F)
    (acc : RenderResult D × List UInt8) :
    (convertSample ops bit_depth ch sample acc).2.length =
      acc.2.length + (bit_depth / 8).toNat := by
  obtain ⟨result, output⟩ := acc
  simp only [convertSample, List.length_append, length_sampleBytes hdepth]

/-- A block of frames overwrites as much of the buffer as it is long. -/
theorem length_convertSamples (hdepth : Supported bit_depth) (input : Nat → F)
    (int_buffer : List UInt8) (frame_count : Nat) (result : RenderResult D)
    (hroom : frame_count * 2 * (bit_depth / 8).toNat ≤ int_buffer.length) :
    (convertSamples ops input int_buffer frame_count bit_depth result).2.length =
      int_buffer.length := by
  have hframes : ∀ (frames : List Nat) (acc : RenderResult D × List UInt8),
      (frames.foldl (fun acc i => [0, 1].foldl (fun acc ch =>
        convertSample ops bit_depth ch (input (i * 2 + ch)) acc) acc) acc).2.length =
        acc.2.length + frames.length * 2 * (bit_depth / 8).toNat := by
    intro frames
    induction frames with
    | nil => simp
    | cons i frames ih =>
        intro acc
        rw [List.foldl_cons, ih]
        simp only [List.foldl_cons, List.foldl_nil, length_convertSample hdepth, List.length_cons]
        ring
  have hbytes := hframes (List.range frame_count) (result, [])
  rw [List.length_range, List.length_nil, Nat.zero_add] at hbytes
  simp only [convertSamples, List.length_append, List.length_drop, hbytes]
  omega

/-- One block writes its frames and nothing else. -/
theorem writeBlock_file (hdepth : Supported bit_depth) {s next : RenderState γ D}
    {position : Int} {frames : Nat} (hframes : frames ≤ 256)
    (hbuffer : s.int_buffer.length = 256 * 2 * (bit_depth / 8).toNat)
    (hblock : writeBlock ops io bit_depth start stop s (position, frames) = .ok next) :
    next.int_buffer.length = 256 * 2 * (bit_depth / 8).toNat ∧
      ∃ data, next.file = s.file ++ data ∧
        data.length = frames * 2 * (bit_depth / 8).toNat := by
  have hroom : frames * 2 * (bit_depth / 8).toNat ≤ s.int_buffer.length := by
    rw [hbuffer]
    exact Nat.mul_le_mul_right _ (Nat.mul_le_mul_right 2 hframes)
  have hsize : (UInt32.ofNat frames * channels * (bit_depth / 8)).toNat =
      frames * 2 * (bit_depth / 8).toNat := by
    have hchannels : channels.toNat = 2 := rfl
    rw [UInt32.toNat_mul, UInt32.toNat_mul, UInt32.toNat_ofNat', hchannels]
    rcases hdepth.bytes with hbytes | hbytes | hbytes <;> rw [hbytes] <;> omega
  simp only [writeBlock] at hblock
  split at hblock
  · cases hblock
  · split at hblock
    · split at hblock
      · obtain rfl := Except.ok.inj hblock
        refine ⟨?_, _, rfl, ?_⟩
        · rw [length_convertSamples hdepth _ _ _ _ hroom, hbuffer]
        · rw [List.length_take, length_convertSamples hdepth _ _ _ _ hroom, hsize]
          exact min_eq_left hroom
      · cases hblock
    · cases hblock

theorem frames_le_of_mem_offlineBlocks {position : Int} {frames : Nat}
    (hmem : (position, frames) ∈ offlineBlocks stop start) : frames ≤ 256 := by
  induction start using Audio.offlineBlocks.induct stop with
  | case1 start hlt block_frames ih =>
      rw [offlineBlocks, if_pos hlt] at hmem
      rcases List.mem_cons.mp hmem with hfirst | hlater
      · obtain ⟨-, rfl⟩ := Prod.mk.inj hfirst
        have hring : (kRingBlockSize : Int) = 256 := rfl
        omega
      · exact ih hlater
  | case2 start hge =>
      rw [offlineBlocks, if_neg hge] at hmem
      cases hmem

/-- The blocks of a range have its length. -/
theorem sum_offlineBlocks (stop start : Int) :
    ((offlineBlocks stop start).map Prod.snd).sum = (stop - start).toNat := by
  induction start using Audio.offlineBlocks.induct stop with
  | case1 start hlt block_frames ih =>
      rw [offlineBlocks, if_pos hlt, List.map_cons, List.sum_cons, ih]
      have hring : (kRingBlockSize : Int) = 256 := rfl
      omega
  | case2 start hge =>
      rw [offlineBlocks, if_neg hge, List.map_nil, List.sum_nil]
      omega

theorem writeBlocks_file (hdepth : Supported bit_depth) {blocks : List (Int × Nat)}
    (hframes : ∀ block ∈ blocks, block.2 ≤ 256) {s last : RenderState γ D}
    (hbuffer : s.int_buffer.length = 256 * 2 * (bit_depth / 8).toNat)
    (hblocks : blocks.foldlM (writeBlock ops io bit_depth start stop) s = .ok last) :
    ∃ data, last.file = s.file ++ data ∧
      data.length = (blocks.map Prod.snd).sum * 2 * (bit_depth / 8).toNat := by
  induction blocks generalizing s with
  | nil =>
      obtain rfl := Except.ok.inj hblocks
      exact ⟨[], by simp, by simp⟩
  | cons block blocks ih =>
      rw [List.foldlM_cons] at hblocks
      cases hfirst : writeBlock ops io bit_depth start stop s block with
      | error e =>
          rw [hfirst] at hblocks
          cases hblocks
      | ok next =>
          rw [hfirst] at hblocks
          obtain ⟨hnext, first, hfile, hlength⟩ :=
            writeBlock_file hdepth (hframes block List.mem_cons_self) hbuffer hfirst
          obtain ⟨rest, hlast, hrest⟩ :=
            ih (fun b hb => hframes b (List.mem_cons_of_mem block hb)) hnext hblocks
          refine ⟨first ++ rest, ?_, ?_⟩
          · rw [hlast, hfile, List.append_assoc]
          · rw [List.length_append, hlength, hrest, List.map_cons, List.sum_cons]
            ring

/-- The sizes wrap at 32 bits. -/
theorem headerTruthful_append_iff {sample_rate : UInt32} (hrange : start < stop) {data : List UInt8}
    (hlength : data.length = (stop - start).toNat * 2 * (bit_depth / 8).toNat) :
    HeaderTruthful (writeWavHeader sample_rate bit_depth channels
      (UInt32.ofInt (stop - start) * channels * (bit_depth / 8)) ++ data) ↔
      36 + (stop - start).toNat * 2 * (bit_depth / 8).toNat < 2 ^ 32 := by
  obtain ⟨hriff, hdata⟩ := sizeAt_writeWavHeader sample_rate bit_depth channels
    (UInt32.ofInt (stop - start) * channels * (bit_depth / 8)) data
  have hchannels : channels.toNat = 2 := rfl
  have hsize : (UInt32.ofInt (stop - start) * channels * (bit_depth / 8)).toNat =
      data.length % 2 ^ 32 := by
    rw [hlength, UInt32.toNat_mul, UInt32.toNat_mul, hchannels, UInt32.ofInt, UInt32.toNat_ofNat']
    have hcast : (((stop - start) % 2 ^ 32).toNat : Nat) = (stop - start).toNat % 2 ^ 32 := by
      omega
    rw [hcast]
    simp only [Nat.mod_mul_mod, Nat.mod_mod]
  rw [HeaderTruthful, hriff, hdata, UInt32.toNat_add, hsize, List.length_append,
    length_writeWavHeader, ← hlength]
  have hconstant : (36 : UInt32).toNat = 36 := rfl
  rw [hconstant]
  omega

/-- A finished render: the header, with the wrapped size, and the samples. -/
theorem renderFile_file {config : RenderConfig} {doc : ProjectDef F} {output_path : String}
    (hdepth : Supported config.bit_depth) {result : RenderResult D} {file : List UInt8}
    (hrender : renderFile ops io config doc output_path = .ok (result, file)) :
    config.start_sample < config.stop doc ∧ ∃ data, file =
      writeWavHeader config.sample_rate config.bit_depth channels
        (UInt32.ofInt (config.stop doc - config.start_sample) * channels *
          (config.bit_depth / 8)) ++ data ∧
      data.length =
        (config.stop doc - config.start_sample).toNat * 2 * (config.bit_depth / 8).toNat := by
  simp only [renderFile, bind, Except.bind] at hrender
  split at hrender
  · cases hrender
  · split at hrender
    · cases hrender
    · rename_i hrange
      split at hrender
      · cases hrender
      · split at hrender
        · cases hrender
        · split at hrender
          · cases hrender
          · split at hrender
            · cases hrender
            · rename_i last hblocks
              split at hrender
              · cases hrender
              · obtain ⟨-, rfl⟩ := Prod.mk.inj (Except.ok.inj hrender)
                obtain ⟨data, hfile, hlength⟩ := writeBlocks_file hdepth
                  (fun block hblock => frames_le_of_mem_offlineBlocks hblock)
                  List.length_replicate hblocks
                rw [sum_offlineBlocks] at hlength
                exact ⟨not_le.mp hrange, data, hfile, hlength⟩

/-- The header of a finished render is true exactly when the sizes fit. -/
theorem headerTruthful_iff {config : RenderConfig} {doc : ProjectDef F} {output_path : String}
    (hdepth : Supported config.bit_depth) {result : RenderResult D} {file : List UInt8}
    (hrender : renderFile ops io config doc output_path = .ok (result, file)) :
    HeaderTruthful file ↔
      36 + (config.stop doc - config.start_sample).toNat * 2 * (config.bit_depth / 8).toNat <
        2 ^ 32 := by
  obtain ⟨hrange, data, rfl, hlength⟩ := renderFile_file hdepth hrender
  exact headerTruthful_append_iff hrange hlength

/-- A render that meets no failure finishes. -/
theorem renderFile_ok (ops : SampleOps F D) (config : RenderConfig) (doc : ProjectDef F)
    (output_path : String) (graph : γ) (buffer : Nat → F) (hrange : config.start_sample < config.stop doc) :
    ∃ result file, renderFile ops (RenderEnv.smooth graph buffer) config doc output_path =
      .ok (result, file) := by
  have hblocks : ∀ (blocks : List (Int × Nat)) (s : RenderState γ D), ∃ last,
      blocks.foldlM (writeBlock ops (RenderEnv.smooth graph buffer) config.bit_depth
        config.start_sample (config.stop doc)) s = .ok last := by
    intro blocks
    induction blocks with
    | nil => exact fun s => ⟨s, rfl⟩
    | cons block blocks ih =>
        intro s
        obtain ⟨last, hlast⟩ := ih _
        exact ⟨last, hlast⟩
  have hpreRoll : ∃ warm,
      preRoll (RenderEnv.smooth graph buffer) graph config.start_sample = .ok warm := by
    unfold preRoll
    generalize offlineBlocks config.start_sample (config.start_sample - 8192) = blocks
    induction blocks with
    | nil => exact ⟨graph, rfl⟩
    | cons block blocks ih => exact ih
  obtain ⟨warm, hwarm⟩ := hpreRoll
  cases hrender : renderFile ops (RenderEnv.smooth graph buffer) config doc output_path with
  | ok done => exact ⟨done.1, done.2, rfl⟩
  | error message =>
      exfalso
      simp only [renderFile, bind, Except.bind] at hrender
      split at hrender
      · rename_i hbuilt
        cases hbuilt
      · rename_i hbuilt
        obtain rfl := Except.ok.inj hbuilt
        split at hrender
        · exact absurd ‹_ ≤ _› (not_le.mpr hrange)
        · split at hrender
          · rename_i hopened
            cases hopened
          · split at hrender
            · rename_i hgood
              cases hgood
            · split at hrender
              · rename_i hfails
                rw [hwarm] at hfails
                cases hfails
              · split at hrender
                · rename_i hfails
                  obtain ⟨last, hlast⟩ := hblocks _ _
                  exact absurd (hlast.symm.trans hfails) nofun
                · cases hrender

end Sizes

/-- Samples that are all silence. -/
def silence : SampleOps Unit Nat where
  zero := 0
  abs := fun _ => 0
  lt := fun x y => x < y
  outside := fun _ => false
  clamp := id
  scaled := fun _ _ => 0
  bits := fun _ => 0

/-- The first `frames` frames of an empty project, in 32 bits. -/
def floatRange (frames : Int) : RenderConfig where
  bit_depth := 32
  end_sample := frames

theorem headerTruthful_oneFrame : ∃ result file,
    renderFile silence (RenderEnv.smooth () fun _ => ()) (floatRange 1) ⟨1, 48000, (), [], [], 0, []⟩
        "out.wav" = .ok (result, file) ∧ HeaderTruthful file := by
  obtain ⟨result, file, hrender⟩ := renderFile_ok silence (floatRange 1)
    ⟨1, 48000, (), [], [], 0, []⟩ "out.wav" () (fun _ => ()) (by decide)
  exact ⟨result, file, hrender,
    (headerTruthful_iff (Or.inr (Or.inr rfl)) hrender).mpr (by decide)⟩

/-- Three hours and six minutes at 48 kHz: the size of the samples is `2 ^ 32`
bytes and is written as 0. -/
theorem not_headerTruthful_threeHours :
    ¬∀ (config : RenderConfig) (result : RenderResult Nat) (file : List UInt8),
      Supported config.bit_depth →
      renderFile silence (RenderEnv.smooth () fun _ => ()) config ⟨1, 48000, (), [], [], 0, []⟩
        "out.wav" = .ok (result, file) → HeaderTruthful file := by
  intro hall
  obtain ⟨result, file, hrender⟩ := renderFile_ok silence (floatRange 536870912)
    ⟨1, 48000, (), [], [], 0, []⟩ "out.wav" () (fun _ => ()) (by decide)
  have hdepth : Supported (floatRange 536870912).bit_depth := Or.inr (Or.inr rfl)
  have htrue := hall _ result file hdepth hrender
  obtain ⟨hrange, data, rfl, hlength⟩ := renderFile_file hdepth hrender
  exact absurd ((headerTruthful_append_iff hrange hlength).mp htrue) (by decide)

end DawProject.Engine
