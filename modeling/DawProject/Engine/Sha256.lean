import DawProject.Lib.Blocks
import DawProject.Lib.Fips180
import Mathlib.Data.List.GetD

/-!
`engine/src/util/sha256.cpp`: the streaming SHA-256 that names assets and stems.
The loops of `update` and of the padding have fuel, and a run that has too little
of it returns nothing.
-/

namespace DawProject.Engine

def kK : List (BitVec 32) := [
  0x428a2f98, 0x71374491, 0xb5c0fbcf, 0xe9b5dba5, 0x3956c25b, 0x59f111f1,
  0x923f82a4, 0xab1c5ed5, 0xd807aa98, 0x12835b01, 0x243185be, 0x550c7dc3,
  0x72be5d74, 0x80deb1fe, 0x9bdc06a7, 0xc19bf174, 0xe49b69c1, 0xefbe4786,
  0x0fc19dc6, 0x240ca1cc, 0x2de92c6f, 0x4a7484aa, 0x5cb0a9dc, 0x76f988da,
  0x983e5152, 0xa831c66d, 0xb00327c8, 0xbf597fc7, 0xc6e00bf3, 0xd5a79147,
  0x06ca6351, 0x14292967, 0x27b70a85, 0x2e1b2138, 0x4d2c6dfc, 0x53380d13,
  0x650a7354, 0x766a0abb, 0x81c2c92e, 0x92722c85, 0xa2bfe8a1, 0xa81a664b,
  0xc24b8b70, 0xc76c51a3, 0xd192e819, 0xd6990624, 0xf40e3585, 0x106aa070,
  0x19a4c116, 0x1e376c08, 0x2748774c, 0x34b0bcb5, 0x391c0cb3, 0x4ed8aa4a,
  0x5b9cca4f, 0x682e6ff3, 0x748f82ee, 0x78a5636f, 0x84c87814, 0x8cc70208,
  0x90befffa, 0xa4506ceb, 0xbef9a3f7, 0xc67178f2]

def rotr (x : BitVec 32) (n : Nat) : BitVec 32 := (x >>> n) ||| (x <<< (32 - n))

def toWord (b : UInt8) : BitVec 32 := b.toBitVec.setWidth 32

/-- The first 16 words of `w`. -/
def loadWords (block : Vector UInt8 64) : List (BitVec 32) :=
  List.ofFn fun i : Fin 16 =>
    (toWord block[i.val * 4] <<< 24) ||| (toWord block[i.val * 4 + 1] <<< 16) |||
      (toWord block[i.val * 4 + 2] <<< 8) ||| toWord block[i.val * 4 + 3]

/-- The word `w[i]`, from those before it. -/
def extendWords (w : List (BitVec 32)) (i : Nat) : List (BitVec 32) :=
  let s0 := rotr (w.getD (i - 15) 0) 7 ^^^ rotr (w.getD (i - 15) 0) 18 ^^^ (w.getD (i - 15) 0 >>> 3)
  let s1 := rotr (w.getD (i - 2) 0) 17 ^^^ rotr (w.getD (i - 2) 0) 19 ^^^ (w.getD (i - 2) 0 >>> 10)
  w ++ [w.getD (i - 16) 0 + s0 + w.getD (i - 7) 0 + s1]

/-- The eight variables of the loop of `transform`. -/
structure Locals where
  a : BitVec 32
  b : BitVec 32
  c : BitVec 32
  d : BitVec 32
  e : BitVec 32
  f : BitVec 32
  g : BitVec 32
  h : BitVec 32

def transformRound (w : List (BitVec 32)) (v : Locals) (i : Nat) : Locals :=
  let s1 := rotr v.e 6 ^^^ rotr v.e 11 ^^^ rotr v.e 25
  let ch := (v.e &&& v.f) ^^^ (~~~v.e &&& v.g)
  let t1 := v.h + s1 + ch + kK.getD i 0 + w.getD i 0
  let s0 := rotr v.a 2 ^^^ rotr v.a 13 ^^^ rotr v.a 22
  let maj := (v.a &&& v.b) ^^^ (v.a &&& v.c) ^^^ (v.b &&& v.c)
  let t2 := s0 + maj
  { h := v.g, g := v.f, f := v.e, e := v.d + t1, d := v.c, c := v.b, b := v.a, a := t1 + t2 }

/-- The array `w` of `transform`. -/
def messageWords (block : Vector UInt8 64) : List (BitVec 32) :=
  (List.range' 16 48).foldl extendWords (loadWords block)

/-- The loop of `transform`. -/
def transformRounds (w : List (BitVec 32)) (v : Locals) : Locals :=
  (List.range 64).foldl (transformRound w) v

def Locals.ofState (state_ : Vector (BitVec 32) 8) : Locals :=
  ⟨state_[0], state_[1], state_[2], state_[3], state_[4], state_[5], state_[6], state_[7]⟩

def Locals.addTo (v : Locals) (state_ : Vector (BitVec 32) 8) : Vector (BitVec 32) 8 :=
  #v[state_[0] + v.a, state_[1] + v.b, state_[2] + v.c, state_[3] + v.d, state_[4] + v.e,
    state_[5] + v.f, state_[6] + v.g, state_[7] + v.h]

/-- The state after `transform`. -/
def transform (state_ : Vector (BitVec 32) 8) (block : Vector UInt8 64) : Vector (BitVec 32) 8 :=
  (transformRounds (messageWords block) (.ofState state_)).addTo state_

structure Sha256 where
  state_ : Vector (BitVec 32) 8
  bitlen_ : BitVec 64
  buffer_ : Vector UInt8 64
  buffer_len_ : Nat

/-- The state that the constructor sets. -/
def initialState : Vector (BitVec 32) 8 :=
  #v[0x6a09e667, 0xbb67ae85, 0x3c6ef372, 0xa54ff53a, 0x510e527f, 0x9b05688c, 0x1f83d9ab,
    0x5be0cd19]

/-- The constructor, which leaves the buffer as the memory has it. -/
def Sha256.new (memory : Vector UInt8 64) : Sha256 where
  state_ := initialState
  bitlen_ := 0
  buffer_ := memory
  buffer_len_ := 0

/-- Copy the first `take` bytes into the buffer at `dst`. -/
def memcpy (buffer : Vector UInt8 64) (dst : Nat) (bytes : List UInt8) (take : Nat) :
    Vector UInt8 64 :=
  Vector.ofFn fun i : Fin 64 =>
    if dst ≤ i.val ∧ i.val < dst + take then bytes.getD (i.val - dst) 0 else buffer[i.val]

namespace Sha256

/-- One pass of the loop of `update`, and the number of bytes that it takes. -/
def copyStep (s : Sha256) (bytes : List UInt8) : Sha256 × Nat :=
  let take := if bytes.length < 64 - s.buffer_len_ then bytes.length else 64 - s.buffer_len_
  let buffer_ := memcpy s.buffer_ s.buffer_len_ bytes take
  let buffer_len_ := s.buffer_len_ + take
  if buffer_len_ = 64 then
    ({ s with state_ := transform s.state_ buffer_, buffer_ := buffer_, buffer_len_ := 0 }, take)
  else ({ s with buffer_ := buffer_, buffer_len_ := buffer_len_ }, take)

/-- The loop of `update`. -/
def copyLoop : Nat → Sha256 → List UInt8 → Option Sha256
  | _, s, [] => some s
  | 0, _, _ :: _ => none
  | fuel + 1, s, b :: bytes =>
      let (next, take) := s.copyStep (b :: bytes)
      copyLoop fuel next ((b :: bytes).drop take)

def update (fuel : Nat) (s : Sha256) (bytes : List UInt8) : Option Sha256 :=
  copyLoop fuel { s with bitlen_ := s.bitlen_ + BitVec.ofNat 64 bytes.length * 8 } bytes

/-- The loop of the padding. -/
def zeroLoop : Nat → Sha256 → Option Sha256
  | 0, s => if s.buffer_len_ ≠ 56 then none else some s
  | fuel + 1, s =>
      if s.buffer_len_ ≠ 56 then do
        let next ← s.update (fuel + 1) [0x00]
        zeroLoop fuel next
      else some s

end Sha256

/-- The length in eight bytes, the highest first. -/
def lenBE (bitlen : BitVec 64) : List UInt8 :=
  (List.range 8).map fun i => UInt8.ofBitVec ((bitlen >>> (56 - i * 8)).setWidth 8)

/-- `"0123456789abcdef"` at a number below 16. -/
def hexDigit (n : Nat) : Char := "0123456789abcdef".toList.getD n '0'

def stateHex (state_ : Vector (BitVec 32) 8) : List Char :=
  state_.toList.flatMap fun word : BitVec 32 => (List.range 4).flatMap fun b : Nat =>
    let byte := UInt8.ofBitVec ((word >>> (24 - b * 8)).setWidth 8)
    [hexDigit (byte >>> 4).toNat, hexDigit (byte &&& 0xF).toNat]

def Sha256.finishHex (fuel : Nat) (s : Sha256) : Option String := do
  let bitlen := s.bitlen_
  let s ← s.update fuel [0x80]
  let s ← s.zeroLoop fuel
  let s ← s.update fuel (lenBE bitlen)
  some (String.ofList (stateHex s.state_))

/-- The calls of `update`, then `finishHex`. -/
def hexOfUpdates (memory : Vector UInt8 64) (fuel : Nat) (updates : List (List UInt8)) :
    Option String := do
  let s ← updates.foldlM (Sha256.update fuel) (Sha256.new memory)
  s.finishHex fuel

section Transform

open Fips180 (Word W K word ofBytes fractionalBits)

/-- The table is that of the standard. -/
theorem kK_eq : kK = Fips180.primes.map (fractionalBits 3) := by
  rw [Fips180.primes_eq]
  decide +kernel

theorem kK_getD (t : Nat) : kK.getD t 0 = K t := by
  have hzero : fractionalBits 3 0 = 0 := by decide
  rw [kK_eq, K, ← List.getD_map (f := fractionalBits 3), hzero]

theorem initialState_eq : initialState = Fips180.H0 := by
  have hroots : [2, 3, 5, 7, 11, 13, 17, 19].map (fractionalBits 2) =
      [0x6a09e667, 0xbb67ae85, 0x3c6ef372, 0xa54ff53a, 0x510e527f, 0x9b05688c, 0x1f83d9ab,
        0x5be0cd19] := by
    decide +kernel
  simp only [List.map_cons, List.map_nil, List.cons.injEq] at hroots
  rw [Fips180.H0, initialState]
  simp only [hroots]

theorem rotr_eq {x : BitVec 32} {n : Nat} (h : n < 32) : rotr x n = Fips180.ROTR n x := by
  rw [rotr, Fips180.ROTR, BitVec.rotateRight_def, Nat.mod_eq_of_lt h]

def Locals.toWorking (v : Locals) : Fips180.Working := ⟨v.a, v.b, v.c, v.d, v.e, v.f, v.g, v.h⟩

theorem toWord_toNat (b : UInt8) : (toWord b).toNat = b.toNat := by
  rw [toWord, BitVec.toNat_setWidth, UInt8.toNat_toBitVec]
  exact Nat.mod_eq_of_lt (by have := b.toNat_lt; omega)

/-- Four bytes put together by shifts. -/
theorem shifts_eq (b₀ b₁ b₂ b₃ : UInt8) :
    (toWord b₀ <<< 24) ||| (toWord b₁ <<< 16) ||| (toWord b₂ <<< 8) ||| toWord b₃ =
      BitVec.ofNat 32 (b₀.toNat * 2 ^ 24 + b₁.toNat * 2 ^ 16 + b₂.toNat * 2 ^ 8 + b₃.toNat) := by
  have h₀ := b₀.toNat_lt
  have h₁ := b₁.toNat_lt
  have h₂ := b₂.toNat_lt
  have h₃ := b₃.toNat_lt
  apply BitVec.eq_of_toNat_eq
  simp only [BitVec.toNat_or, BitVec.toNat_shiftLeft, toWord_toNat, BitVec.toNat_ofNat,
    Nat.or_assoc]
  have hshift : ∀ (b : UInt8) (n : Nat), n ≤ 24 → b.toNat <<< n % 2 ^ 32 = b.toNat <<< n := by
    intro b n hn
    have hb := b.toNat_lt
    have hpow : 2 ^ n ≤ 2 ^ 24 := Nat.pow_le_pow_right (by decide) hn
    rw [Nat.shiftLeft_eq]
    apply Nat.mod_eq_of_lt
    calc b.toNat * 2 ^ n ≤ b.toNat * 2 ^ 24 := Nat.mul_le_mul_left _ hpow
      _ < 2 ^ 32 := by omega
  have hlow : b₂.toNat <<< 8 ||| b₃.toNat = b₂.toNat * 2 ^ 8 + b₃.toNat := by
    rw [← Nat.shiftLeft_add_eq_or_of_lt (by omega), Nat.shiftLeft_eq]
  have hmid : b₁.toNat <<< 16 ||| (b₂.toNat * 2 ^ 8 + b₃.toNat) =
      b₁.toNat * 2 ^ 16 + (b₂.toNat * 2 ^ 8 + b₃.toNat) := by
    rw [← Nat.shiftLeft_add_eq_or_of_lt (by omega), Nat.shiftLeft_eq]
  rw [hshift b₀ 24 (by decide), hshift b₁ 16 (by decide), hshift b₂ 8 (by decide), hlow, hmid,
    ← Nat.shiftLeft_add_eq_or_of_lt (by omega), Nat.shiftLeft_eq]
  omega

/-- The words that are loaded are those of the block. -/
theorem loadWords_eq (block : Vector UInt8 64) :
    loadWords block = (List.range 16).map (word (ofBytes block.toList)) := by
  apply List.ext_getElem
  · rw [loadWords, List.length_ofFn, List.length_map, List.length_range]
  · intro t ht ht'
    rw [loadWords, List.length_ofFn] at ht
    have hlength : block.toList.length = 64 := by simp
    have hbytes : (block.toList.drop (4 * t)).take 4 =
        [block[t * 4], block[t * 4 + 1], block[t * 4 + 2], block[t * 4 + 3]] := by
      rw [Nat.mul_comm 4 t]
      apply List.ext_getElem
      · simp
        omega
      · intro i hi hi'
        have hlt : i < 4 := hi'
        rw [List.getElem_take, List.getElem_drop, Vector.getElem_toList]
        obtain rfl | rfl | rfl | rfl : i = 0 ∨ i = 1 ∨ i = 2 ∨ i = 3 := by omega
        all_goals rfl
    rw [List.getElem_map, List.getElem_range, Fips180.word_ofBytes (by omega), hbytes,
      Fips180.ofBits_ofBytes]
    simp only [loadWords, List.getElem_ofFn]
    exact shifts_eq _ _ _ _

/-- The array `w` holds the message schedule. -/
theorem extendWords_eq (M : Nat → Word) (n : Nat) :
    (List.range' 16 n).foldl extendWords ((List.range 16).map M) =
      (List.range (16 + n)).map (W M) := by
  induction n with
  | zero =>
      apply List.map_congr_left
      intro t ht
      exact (Fips180.W_of_lt (List.mem_range.mp ht)).symm
  | succ n ih =>
      have hget : ∀ {t : Nat}, t < 16 + n → ((List.range (16 + n)).map (W M)).getD t 0 = W M t := by
        intro t ht
        rw [List.getD_eq_getElem _ _ (by simpa using ht), List.getElem_map, List.getElem_range]
      rw [List.range'_concat, List.foldl_append, ih, ← Nat.add_assoc, List.range_succ,
        List.map_append, Nat.one_mul]
      simp only [List.foldl_cons, List.foldl_nil, extendWords, List.map_cons, List.map_nil]
      rw [hget (by omega), hget (by omega), hget (by omega), hget (by omega),
        Fips180.W_of_ge (t := 16 + n) (by omega), rotr_eq (by decide), rotr_eq (by decide),
        rotr_eq (by decide), rotr_eq (by decide)]
      apply congrArg (fun x => (List.range (16 + n)).map (W M) ++ [x])
      rw [Fips180.sigma0, Fips180.sigma1, Fips180.SHR, Fips180.SHR]
      ac_rfl

/-- A round is the one of the standard. -/
theorem transformRound_eq {w : List (BitVec 32)} {v : Locals} {i : Nat} :
    (transformRound w v i).toWorking = Fips180.round v.toWorking (K i) (w.getD i 0) := by
  simp (disch := decide) only [transformRound, Locals.toWorking, Fips180.round, Fips180.Sigma0,
    Fips180.Sigma1, Fips180.Ch, Fips180.Maj, kK_getD, rotr_eq]

theorem foldl_transformRound {w : List (BitVec 32)} {schedule : Nat → Word} {ts : List Nat}
    (hw : ∀ t ∈ ts, w.getD t 0 = schedule t) (v : Locals) :
    (ts.foldl (transformRound w) v).toWorking =
      ts.foldl (fun v t => Fips180.round v (K t) (schedule t)) v.toWorking := by
  induction ts generalizing v with
  | nil => rfl
  | cons t ts ih =>
      rw [List.foldl_cons, List.foldl_cons, ih (fun t' ht' => hw t' (List.mem_cons_of_mem t ht')),
        transformRound_eq, hw t List.mem_cons_self]

/-- What a block of bytes does to the hash value, by the standard. -/
def compressBytes (H : Vector Word 8) (block : List UInt8) : Vector Word 8 :=
  Fips180.compress H (word (ofBytes block))

theorem messageWords_eq (block : Vector UInt8 64) :
    messageWords block = (List.range 64).map (W (word (ofBytes block.toList))) := by
  rw [messageWords, loadWords_eq, extendWords_eq]

theorem transformRounds_eq {schedule : Nat → Word} (v : Locals) :
    (transformRounds ((List.range 64).map schedule) v).toWorking =
      Fips180.rounds v.toWorking schedule := by
  rw [transformRounds, Fips180.rounds]
  apply foldl_transformRound
  intro t ht
  rw [List.getD_eq_getElem _ _ (by simpa using ht), List.getElem_map, List.getElem_range]

theorem Locals.addTo_eq (v : Locals) (state_ : Vector (BitVec 32) 8) :
    v.addTo state_ = v.toWorking.addTo state_ := by
  simp only [Locals.addTo, Fips180.Working.addTo, Locals.toWorking, BitVec.add_comm]
  rfl

theorem transform_eq (state_ : Vector (BitVec 32) 8) (block : Vector UInt8 64) :
    transform state_ block = compressBytes state_ block.toList := by
  have hstart : (Locals.ofState state_).toWorking = .ofHash state_ := rfl
  rw [transform, Locals.addTo_eq, messageWords_eq, transformRounds_eq, hstart, compressBytes,
    Fips180.compress]

end Transform

section Update

open Blocks (absorb leftOver)

variable {s : Sha256} {fed bytes : List UInt8}

/-- The state and the buffer are those of the bytes fed so far, however they were
fed. -/
structure Sha256.Holds (s : Sha256) (fed : List UInt8) : Prop where
  state : s.state_ = absorb 64 compressBytes Fips180.H0 fed
  len : s.buffer_len_ = fed.length % 64
  buffer : s.buffer_.toList.take s.buffer_len_ = leftOver 64 fed

theorem holds_new (memory : Vector UInt8 64) : (Sha256.new memory).Holds [] := by
  refine ⟨?_, rfl, ?_⟩
  · rw [Blocks.absorb_nil]
    exact initialState_eq
  · rw [Blocks.leftOver_nil]
    rfl

theorem getElem_memcpy {buffer : Vector UInt8 64} {dst take i : Nat} (hi : i < 64) :
    (memcpy buffer dst bytes take)[i] =
      if dst ≤ i ∧ i < dst + take then bytes.getD (i - dst) 0 else buffer[i] :=
  Vector.getElem_ofFn hi

theorem take_memcpy {buffer : Vector UInt8 64} {dst take : Nat} (htake : take ≤ bytes.length)
    (hroom : dst + take ≤ 64) :
    (memcpy buffer dst bytes take).toList.take (dst + take) =
      buffer.toList.take dst ++ bytes.take take := by
  have hdst : (buffer.toList.take dst).length = dst := by
    rw [List.length_take, Vector.length_toList]
    omega
  apply List.ext_getElem
  · rw [List.length_take, Vector.length_toList, List.length_append, hdst,
      List.length_take_of_le htake]
    omega
  · intro i hi hi'
    rw [List.length_take] at hi
    rw [List.getElem_take, Vector.getElem_toList, getElem_memcpy]
    by_cases hold : i < dst
    · rw [if_neg (by omega), List.getElem_append_left (by omega), List.getElem_take,
        Vector.getElem_toList]
    · have hlt : i - dst < bytes.length := by omega
      rw [if_pos (by omega), List.getElem_append_right (by omega), List.getElem_take,
        List.getD_eq_getElem _ _ hlt]
      simp only [hdst]

/-- One pass takes at least a byte, and holds what was fed with the bytes that it
takes. -/
theorem Sha256.Holds.copyStep (h : s.Holds fed) (hne : bytes ≠ []) :
    0 < (s.copyStep bytes).2 ∧ (s.copyStep bytes).2 ≤ bytes.length ∧
      (s.copyStep bytes).1.Holds (fed ++ bytes.take (s.copyStep bytes).2) ∧
      (s.copyStep bytes).1.bitlen_ = s.bitlen_ := by
  have hlen : s.buffer_len_ < 64 := by
    rw [h.len]
    exact Nat.mod_lt _ (by decide)
  have hpos : 0 < bytes.length := List.length_pos_iff.mpr hne
  obtain ⟨take, htake⟩ : ∃ take,
      (if bytes.length < 64 - s.buffer_len_ then bytes.length else 64 - s.buffer_len_) = take :=
    ⟨_, rfl⟩
  have htake_pos : 0 < take := by
    rw [← htake]
    split <;> omega
  have htake_le : take ≤ bytes.length := by
    rw [← htake]
    split <;> omega
  have hroom : s.buffer_len_ + take ≤ 64 := by
    rw [← htake]
    split <;> omega
  have htaken : (bytes.take take).length = take := List.length_take_of_le htake_le
  have hbuffer : (memcpy s.buffer_ s.buffer_len_ bytes take).toList.take (s.buffer_len_ + take) =
      leftOver 64 fed ++ bytes.take take := by
    rw [take_memcpy htake_le hroom, h.buffer]
  have hlength : (fed ++ bytes.take take).length = fed.length + take := by
    rw [List.length_append, htaken]
  simp only [Sha256.copyStep, htake]
  split
  · -- The block is complete: it is compressed, and the buffer is empty.
    rename_i hfull
    have hblock : fed.length % 64 + (bytes.take take).length = 64 := by
      rw [← h.len, htaken, hfull]
    have habsorb : absorb 64 compressBytes Fips180.H0 (fed ++ bytes.take take) =
        compressBytes (absorb 64 compressBytes Fips180.H0 fed)
          (leftOver 64 fed ++ bytes.take take) :=
      Blocks.absorb_append_of_eq hblock (by decide)
    have hover : leftOver 64 (fed ++ bytes.take take) = [] :=
      Blocks.leftOver_append_of_eq hblock (by decide)
    rw [hfull, List.take_of_length_le (by simp)] at hbuffer
    refine ⟨htake_pos, htake_le, ⟨?_, ?_, ?_⟩, rfl⟩
    · rw [habsorb, transform_eq, hbuffer, h.state]
    · rw [hlength]
      have hsum := h.len
      dsimp only
      omega
    · rw [hover]
      rfl
  · rename_i hpartial
    have hblock : fed.length % 64 + (bytes.take take).length < 64 := by
      rw [← h.len, htaken]
      omega
    have habsorb : absorb 64 compressBytes Fips180.H0 (fed ++ bytes.take take) =
        absorb 64 compressBytes Fips180.H0 fed :=
      Blocks.absorb_append_of_lt hblock
    refine ⟨htake_pos, htake_le, ⟨?_, ?_, ?_⟩, rfl⟩
    · rw [habsorb, h.state]
    · rw [hlength]
      have hsum := h.len
      dsimp only
      omega
    · rw [Blocks.leftOver_append_of_lt hblock]
      exact hbuffer

theorem copyLoop_spec {fuel : Nat} (h : s.Holds fed) (hfuel : bytes.length ≤ fuel) :
    ∃ next, s.copyLoop fuel bytes = some next ∧ next.Holds (fed ++ bytes) ∧
      next.bitlen_ = s.bitlen_ := by
  induction fuel generalizing s fed bytes with
  | zero =>
      obtain rfl := List.eq_nil_of_length_eq_zero (Nat.le_zero.mp hfuel)
      rw [List.append_nil]
      exact ⟨s, by rw [Sha256.copyLoop], h, rfl⟩
  | succ fuel ih =>
      cases bytes with
      | nil =>
          rw [List.append_nil]
          exact ⟨s, by rw [Sha256.copyLoop], h, rfl⟩
      | cons b bytes =>
          obtain ⟨hpos, hle, hholds, hbitlen⟩ := h.copyStep (List.cons_ne_nil b bytes)
          have hshorter : ((b :: bytes).drop (s.copyStep (b :: bytes)).2).length ≤ fuel := by
            rw [List.length_drop]
            omega
          obtain ⟨next, hnext, hfed, hkept⟩ := ih hholds hshorter
          rw [List.append_assoc, List.take_append_drop] at hfed
          exact ⟨next, hnext, hfed, hkept.trans hbitlen⟩

theorem update_spec {fuel : Nat} (h : s.Holds fed) (hfuel : bytes.length ≤ fuel) :
    ∃ next, s.update fuel bytes = some next ∧ next.Holds (fed ++ bytes) ∧
      next.bitlen_ = s.bitlen_ + BitVec.ofNat 64 bytes.length * 8 :=
  copyLoop_spec (s := { s with bitlen_ := _ }) ⟨h.state, h.len, h.buffer⟩ hfuel

/-- The padding ends with the first byte at which 8 bytes are left of a block. -/
theorem zeroLoop_spec {fuel n : Nat} (h : s.Holds fed) (hn : n < 64) (hfuel : n ≤ fuel)
    (hend : (fed.length + n) % 64 = 56) :
    ∃ next, s.zeroLoop fuel = some next ∧ next.Holds (fed ++ List.replicate n 0) := by
  induction n generalizing s fed fuel with
  | zero =>
      have hlen : s.buffer_len_ = 56 := h.len.trans hend
      refine ⟨s, ?_, ?_⟩
      · cases fuel <;> simp [Sha256.zeroLoop, hlen]
      · rw [List.replicate_zero, List.append_nil]
        exact h
  | succ n ih =>
      have hlen : s.buffer_len_ ≠ 56 := by
        rw [h.len]
        omega
      cases fuel with
      | zero => omega
      | succ fuel =>
          have hone : ([0x00] : List UInt8).length ≤ fuel + 1 := by simp
          obtain ⟨mid, hmid, hholds, -⟩ := update_spec h hone
          have hrest : ((fed ++ [0x00]).length + n) % 64 = 56 := by
            rw [List.length_append, List.length_singleton]
            omega
          obtain ⟨next, hnext, hpadded⟩ :=
            ih hholds (by omega) (Nat.le_of_succ_le_succ hfuel) hrest
          refine ⟨next, ?_, ?_⟩
          · rw [Sha256.zeroLoop, if_pos hlen, hmid]
            exact hnext
          · rw [List.replicate_succ, List.append_cons]
            exact hpadded

end Update

section Finish

open Fips180 (bits hex ofBytes)

theorem toNat_shiftedByte {w : Nat} (x : BitVec w) (n : Nat) :
    (UInt8.ofBitVec ((x >>> n).setWidth 8)).toNat = x.toNat / 2 ^ n % 2 ^ 8 := by
  rw [UInt8.toNat_ofBitVec, BitVec.toNat_setWidth, BitVec.toNat_ushiftRight,
    Nat.shiftRight_eq_div_pow]

theorem ofBytes_lenBE (bitlen : BitVec 64) : ofBytes (lenBE bitlen) = bits 64 bitlen.toNat := by
  rw [← Fips180.flatMap_bits 8 (w := 8), ofBytes, lenBE, List.flatMap_map]
  apply List.flatMap_congr
  intro i hi
  rw [toNat_shiftedByte, Fips180.bits_mod]
  have hshift : 56 - i * 8 = 8 * (8 - 1 - i) := by omega
  rw [hshift]

/-- What `finishHex` feeds after a message of `n` bytes. -/
def padding (n : Nat) : List UInt8 :=
  [0x80] ++ List.replicate ((119 - n % 64) % 64) 0 ++ lenBE (BitVec.ofNat 64 n * 8)

theorem ofBytes_zeros (k : Nat) : ofBytes (List.replicate k 0) = List.replicate (8 * k) false := by
  induction k with
  | zero => rfl
  | succ k ih =>
      have hzero : ofBytes [0] = List.replicate 8 false := by decide
      rw [List.replicate_succ, ← List.singleton_append, Fips180.ofBytes_append, ih, hzero,
        List.replicate_append_replicate]
      congr 1
      omega

theorem ofBytes_padded (message : List UInt8) :
    ofBytes (message ++ padding message.length) = Fips180.pad (ofBytes message) := by
  have hmark : ofBytes [0x80] = [true] ++ List.replicate 7 false := by decide
  have hzeros : Fips180.zeros (ofBytes message).length =
      7 + 8 * ((119 - message.length % 64) % 64) := by
    apply Fips180.zeros_eq
    · omega
    · rw [Fips180.length_ofBytes]
      omega
  have hlength : (BitVec.ofNat 64 message.length * 8).toNat =
      (ofBytes message).length % 2 ^ 64 := by
    have height : (8 : BitVec 64).toNat = 8 := rfl
    rw [Fips180.length_ofBytes, BitVec.toNat_mul, BitVec.toNat_ofNat, height]
    omega
  rw [padding, Fips180.pad, Fips180.ofBytes_append, Fips180.ofBytes_append,
    Fips180.ofBytes_append, ofBytes_zeros, ofBytes_lenBE, hlength, Fips180.bits_mod, hmark, hzeros,
    ← List.replicate_append_replicate]
  simp only [List.append_assoc]

theorem hexDigit_eq {n : Nat} (h : n < 16) : hexDigit n = Nat.digitChar n := by
  have hall : ∀ n < 16, hexDigit n = Nat.digitChar n := by decide
  exact hall n h

/-- The two digits of a byte. -/
theorem hexDigit_byte (byte : UInt8) :
    [hexDigit (byte >>> 4).toNat, hexDigit (byte &&& 0xF).toNat] =
      [Nat.digitChar (byte.toNat / 16), Nat.digitChar (byte.toNat % 16)] := by
  have hbyte := byte.toNat_lt
  have hhigh : (byte >>> 4).toNat = byte.toNat / 16 := by
    rw [UInt8.toNat_shiftRight, Nat.shiftRight_eq_div_pow]
    rfl
  have hlow : (byte &&& 0xF).toNat = byte.toNat % 16 := by
    rw [UInt8.toNat_and]
    exact Nat.and_two_pow_sub_one_eq_mod _ 4
  rw [hhigh, hlow, hexDigit_eq (by omega), hexDigit_eq (by omega)]

/-- The digits of a word, byte by byte. -/
theorem hex_bits_word (n : Nat) (l : List Bool) : hex (bits 32 n ++ l) =
    ((List.range 4).flatMap fun b => [Nat.digitChar (n / 2 ^ (24 - b * 8) % 2 ^ 8 / 16),
      Nat.digitChar (n / 2 ^ (24 - b * 8) % 2 ^ 8 % 16)]) ++ hex l := by
  have hbytes : bits 32 n = (List.range 4).flatMap fun b => bits 8 (n / 2 ^ (24 - b * 8)) := by
    rw [← Fips180.flatMap_bits 4 (w := 8)]
    apply List.flatMap_congr
    intro b hb
    have hshift : 8 * (4 - 1 - b) = 24 - b * 8 := by omega
    rw [hshift]
  rw [hbytes, Fips180.hex_flatMap_bytes]
  congr 1
  apply List.flatMap_congr
  intro b hb
  have hhigh : ∀ x, x % 2 ^ 8 / 16 = x / 16 % 16 := by
    intro x
    omega
  have hlow : ∀ x, x % 2 ^ 8 % 16 = x % 16 := by
    intro x
    omega
  rw [hhigh, hlow]

theorem stateHex_eq (state_ : Vector (BitVec 32) 8) :
    stateHex state_ = hex (state_.toList.flatMap fun w => bits 32 w.toNat) := by
  rw [stateHex]
  induction state_.toList with
  | nil => rfl
  | cons w ws ih =>
      rw [List.flatMap_cons, List.flatMap_cons, ih, hex_bits_word]
      simp only [hexDigit_byte, toNat_shiftedByte]

/-- The blocks of the standard are those of the bytes. -/
theorem hash_ofBytes {message padded : List UInt8}
    (hpad : ofBytes padded = Fips180.pad (ofBytes message)) :
    Fips180.hash (ofBytes message) = Blocks.absorb 64 compressBytes Fips180.H0 padded := by
  have hcount : (ofBytes padded).length / 512 = padded.length / 64 := by
    rw [Fips180.length_ofBytes]
    omega
  rw [Fips180.hash, ← hpad, hcount, Blocks.absorb]
  apply List.foldl_ext
  intro H i hi
  have hi := List.mem_range.mp hi
  apply Fips180.compress_congr
  intro t ht
  have hblock : (Blocks.block 64 i padded).length = 64 := by
    rw [Blocks.block, List.length_take, List.length_drop]
    omega
  rw [Fips180.word_ofBytes (by omega), Fips180.word_ofBytes (by omega), Blocks.block,
    List.drop_take, List.take_take, List.drop_drop]
  congr 4
  · omega
  · congr 1
    omega

/-- What the calls of `update` have counted and hold. -/
structure Sha256.HoldsMessage (s : Sha256) (message : List UInt8) : Prop where
  holds : s.Holds message
  bitlen : s.bitlen_ = BitVec.ofNat 64 message.length * 8

theorem updates_spec {fuel : Nat} {updates : List (List UInt8)} {s : Sha256}
    {message : List UInt8} (h : s.HoldsMessage message) (hfuel : updates.flatten.length ≤ fuel) :
    ∃ next, updates.foldlM (Sha256.update fuel) s = some next ∧
      next.HoldsMessage (message ++ updates.flatten) := by
  induction updates generalizing s message with
  | nil =>
      rw [List.flatten_nil, List.append_nil]
      exact ⟨s, rfl, h⟩
  | cons bytes updates ih =>
      rw [List.flatten_cons, List.length_append] at hfuel
      obtain ⟨mid, hmid, hholds, hbitlen⟩ := update_spec h.holds (Nat.le_of_add_right_le hfuel)
      have hmessage : mid.HoldsMessage (message ++ bytes) := by
        refine ⟨hholds, ?_⟩
        rw [hbitlen, h.bitlen, List.length_append, BitVec.ofNat_add, BitVec.add_mul]
      obtain ⟨next, hnext, hnext_holds⟩ := ih hmessage (by omega)
      refine ⟨next, ?_, ?_⟩
      · rw [List.foldlM_cons, hmid]
        exact hnext
      · rw [List.flatten_cons, ← List.append_assoc]
        exact hnext_holds

theorem finishHex_spec {fuel : Nat} {s : Sha256} {message : List UInt8}
    (h : s.HoldsMessage message) (hfuel : 64 ≤ fuel) :
    s.finishHex fuel = some (String.ofList (hex (Fips180.digest (ofBytes message)))) := by
  have hone : ([0x80] : List UInt8).length ≤ fuel := by
    rw [List.length_singleton]
    omega
  obtain ⟨marked, hmarked, hmarked_holds, -⟩ := update_spec h.holds hone
  have hend : ((message ++ [0x80]).length + (119 - message.length % 64) % 64) % 64 = 56 := by
    rw [List.length_append, List.length_singleton]
    omega
  have hzeros : (119 - message.length % 64) % 64 < 64 := Nat.mod_lt _ (by decide)
  obtain ⟨zeroed, hzeroed, hzeroed_holds⟩ :=
    zeroLoop_spec hmarked_holds hzeros (Nat.le_of_lt (Nat.lt_of_lt_of_le hzeros hfuel)) hend
  have height : (lenBE s.bitlen_).length ≤ fuel := by
    rw [lenBE, List.length_map, List.length_range]
    omega
  obtain ⟨last, hlast, hlast_holds, -⟩ := update_spec hzeroed_holds height
  have hpadded : last.Holds (message ++ padding message.length) := by
    rw [padding, ← h.bitlen, ← List.append_assoc, ← List.append_assoc]
    exact hlast_holds
  have hdigest : stateHex last.state_ = hex (Fips180.digest (ofBytes message)) := by
    rw [stateHex_eq, hpadded.state, Fips180.digest, hash_ofBytes (ofBytes_padded message)]
  simp only [Sha256.finishHex, Option.bind_eq_bind, hmarked, Option.bind_some, hzeroed, hlast,
    hdigest]

/-- Whatever the buffer held and however a message is divided into calls of
`update`, the loops end, and `finishHex` returns the digest of the message. -/
theorem hexOfUpdates_eq (memory : Vector UInt8 64) (updates : List (List UInt8)) :
    ∃ fuel, ∀ n ≥ fuel, hexOfUpdates memory n updates =
      some (String.ofList (hex (Fips180.digest (ofBytes updates.flatten)))) := by
  refine ⟨updates.flatten.length + 64, ?_⟩
  intro n hn
  have hnew : (Sha256.new memory).HoldsMessage [] := ⟨holds_new memory, rfl⟩
  obtain ⟨s, hs, hmessage⟩ := updates_spec hnew (Nat.le_of_add_right_le hn)
  rw [hexOfUpdates, hs, Option.bind_eq_bind, Option.bind_some]
  exact finishHex_spec hmessage (by omega)

end Finish

end DawProject.Engine
