import Mathlib.Data.List.Basic
import Mathlib.Data.Nat.Find
import Mathlib.Data.Nat.NthRoot.Defs
import Mathlib.Data.Nat.Prime.Basic
import Mathlib.Tactic.Ring

/-!
SHA-256 as FIPS 180-4 defines it: on bits, with its constants from the roots of
the first primes.
-/

namespace Fips180

abbrev Word := BitVec 32

def ROTR (n : ℕ) (x : Word) : Word := x.rotateRight n

def SHR (n : ℕ) (x : Word) : Word := x >>> n

def Ch (x y z : Word) : Word := (x &&& y) ^^^ (~~~x &&& z)

def Maj (x y z : Word) : Word := (x &&& y) ^^^ (x &&& z) ^^^ (y &&& z)

def Sigma0 (x : Word) : Word := ROTR 2 x ^^^ ROTR 13 x ^^^ ROTR 22 x

def Sigma1 (x : Word) : Word := ROTR 6 x ^^^ ROTR 11 x ^^^ ROTR 25 x

def sigma0 (x : Word) : Word := ROTR 7 x ^^^ ROTR 18 x ^^^ SHR 3 x

def sigma1 (x : Word) : Word := ROTR 17 x ^^^ ROTR 19 x ^^^ SHR 10 x

/-- The first 64 primes. -/
def primes : List ℕ := (List.range 312).filter Nat.Prime

/-- The first 32 bits of the fractional part of the `k`-th root of `p`. -/
def fractionalBits (k p : ℕ) : Word := BitVec.ofNat 32 (Nat.nthRoot k (p * 2 ^ (32 * k)))

/-- The round constants, from the cube roots. -/
def K (t : ℕ) : Word := fractionalBits 3 (primes.getD t 0)

/-- The initial hash value, from the square roots of the first eight. -/
def H0 : Vector Word 8 :=
  #v[fractionalBits 2 2, fractionalBits 2 3, fractionalBits 2 5, fractionalBits 2 7,
    fractionalBits 2 11, fractionalBits 2 13, fractionalBits 2 17, fractionalBits 2 19]

/-- The message schedule of a block of words. -/
def W (M : ℕ → Word) (t : ℕ) : Word :=
  if t < 16 then M t
  else sigma1 (W M (t - 2)) + W M (t - 7) + sigma0 (W M (t - 15)) + W M (t - 16)

/-- The working variables. -/
structure Working where
  a : Word
  b : Word
  c : Word
  d : Word
  e : Word
  f : Word
  g : Word
  h : Word
deriving DecidableEq, Repr

/-- A round, with its constant and its word of the schedule. -/
def round (v : Working) (k w : Word) : Working :=
  let T1 := v.h + Sigma1 v.e + Ch v.e v.f v.g + k + w
  let T2 := Sigma0 v.a + Maj v.a v.b v.c
  { a := T1 + T2, b := v.a, c := v.b, d := v.c, e := v.d + T1, f := v.e, g := v.f, h := v.g }

/-- The 64 rounds on a schedule. -/
def rounds (v : Working) (W : ℕ → Word) : Working :=
  (List.range 64).foldl (fun v t => round v (K t) (W t)) v

/-- The working variables from a hash value. -/
def Working.ofHash (H : Vector Word 8) : Working :=
  ⟨H.get 0, H.get 1, H.get 2, H.get 3, H.get 4, H.get 5, H.get 6, H.get 7⟩

/-- Add the working variables to a hash value. -/
def Working.addTo (v : Working) (H : Vector Word 8) : Vector Word 8 :=
  #v[v.a + H.get 0, v.b + H.get 1, v.c + H.get 2, v.d + H.get 3, v.e + H.get 4, v.f + H.get 5,
    v.g + H.get 6, v.h + H.get 7]

/-- The hash value after a block of words. -/
def compress (H : Vector Word 8) (M : ℕ → Word) : Vector Word 8 :=
  (rounds (.ofHash H) (W M)).addTo H

/-- A number in `w` bits, the highest first. -/
def bits (w n : ℕ) : List Bool := (List.range w).map fun i => n.testBit (w - 1 - i)

/-- The number that bits denote, the highest first. -/
def ofBits (l : List Bool) : ℕ := l.foldl (fun n b => 2 * n + b.toNat) 0

theorem exists_zeros (l : ℕ) : ∃ k, (l + 1 + k) % 512 = 448 := by
  refine ⟨(959 - l % 512) % 512, ?_⟩
  omega

/-- The number of zeros in the padding of a message of `l` bits: the least with
which 64 bits are left of a block. -/
def zeros (l : ℕ) : ℕ := Nat.find (exists_zeros l)

theorem zeros_eq {l k : ℕ} (hk : k < 512) (hblock : (l + 1 + k) % 512 = 448) : zeros l = k := by
  have hleast : zeros l ≤ k := Nat.find_min' (exists_zeros l) hblock
  have hzeros : (l + 1 + zeros l) % 512 = 448 := Nat.find_spec (exists_zeros l)
  omega

/-- The padded message. The length is the low 64 bits, which is the length itself
for every message that the standard admits. -/
def pad (m : List Bool) : List Bool :=
  m ++ [true] ++ List.replicate (zeros m.length) false ++ bits 64 m.length

/-- A word of the padded message. -/
def word (m : List Bool) (j : ℕ) : Word := BitVec.ofNat 32 (ofBits ((m.drop (32 * j)).take 32))

/-- The last hash value of a message. -/
def hash (m : List Bool) : Vector Word 8 :=
  (List.range ((pad m).length / 512)).foldl
    (fun H i => compress H fun t => word (pad m) (16 * i + t)) H0

/-- The message digest: the words of the last hash value. -/
def digest (m : List Bool) : List Bool := (hash m).toList.flatMap fun w => bits 32 w.toNat

/-- Bits as hexadecimal digits. -/
def hex : List Bool → List Char
  | b₃ :: b₂ :: b₁ :: b₀ :: l => Nat.digitChar (ofBits [b₃, b₂, b₁, b₀]) :: hex l
  | _ => []

/-- The bytes of a message as bits. -/
def ofBytes (l : List UInt8) : List Bool := l.flatMap fun b => bits 8 b.toNat

section Primes

/-- Below 361, a number that no number from 2 to 18 divides is prime. -/
def noDivisor (p : ℕ) : Bool := 2 ≤ p && (List.range' 2 17).all fun d => p ≤ d || p % d != 0

theorem prime_iff_noDivisor {p : ℕ} (h : p < 361) : p.Prime ↔ noDivisor p = true := by
  have hnone : noDivisor p = true ↔ 2 ≤ p ∧ ∀ d, 2 ≤ d → d < 19 → d < p → p % d ≠ 0 := by
    simp only [noDivisor, Bool.and_eq_true, decide_eq_true_eq, List.all_eq_true, Bool.or_eq_true,
      bne_iff_ne, List.mem_range'_1]
    apply and_congr_right
    intro hp
    constructor
    · intro hall d hd hlt hdp
      exact (hall d ⟨hd, hlt⟩).resolve_left (by omega)
    · intro hall d hd
      rcases Nat.lt_or_ge d p with hlt | hge
      · exact Or.inr (hall d hd.1 hd.2 hlt)
      · exact Or.inl hge
  rw [hnone, Nat.prime_def_le_sqrt]
  apply and_congr_right
  intro hp
  constructor
  · intro hprime d hd hlt hdp hmod
    obtain ⟨c, rfl⟩ := Nat.dvd_of_mod_eq_zero hmod
    have hpos : 2 ≤ c := by
      by_contra hsmall
      have hle : d * c ≤ d * 1 := Nat.mul_le_mul_left d (by omega)
      omega
    rcases Nat.le_total d c with hle | hle
    · exact hprime d hd (Nat.le_sqrt.mpr (Nat.mul_le_mul_left d hle)) (Nat.dvd_mul_right d c)
    · exact hprime c hpos (Nat.le_sqrt.mpr (Nat.mul_le_mul_right c hle)) (Nat.dvd_mul_left c d)
  · intro hall d hd hle hdvd
    have hsq : d * d ≤ p := Nat.le_sqrt.mp hle
    have hlt : d < 19 := by
      by_contra hge
      have hmul : 19 * 19 ≤ d * d := Nat.mul_le_mul (by omega) (by omega)
      omega
    have hdp : d * 2 ≤ d * d := Nat.mul_le_mul_left d hd
    exact hall d hd hlt (by omega) (Nat.mod_eq_zero_of_dvd hdvd)

theorem primes_eq : primes = [
    2, 3, 5, 7, 11, 13, 17, 19, 23, 29, 31, 37, 41, 43, 47, 53, 59, 61, 67, 71, 73, 79, 83, 89,
    97, 101, 103, 107, 109, 113, 127, 131, 137, 139, 149, 151, 157, 163, 167, 173, 179, 181, 191,
    193, 197, 199, 211, 223, 227, 229, 233, 239, 241, 251, 257, 263, 269, 271, 277, 281, 283, 293,
    307, 311] := by
  have hfilter : primes = (List.range 312).filter noDivisor := by
    apply List.filter_congr
    intro p hp
    have hlt := List.mem_range.mp hp
    rw [Bool.eq_iff_iff, decide_eq_true_eq]
    exact prime_iff_noDivisor (by omega)
  rw [hfilter]
  decide +kernel

end Primes

section Bits

variable {w n : ℕ} {l : List Bool}

@[simp] theorem length_bits : (bits w n).length = w := by
  rw [bits, List.length_map, List.length_range]

theorem bits_add {w' : ℕ} : bits (w + w') n = bits w (n / 2 ^ w') ++ bits w' n := by
  rw [bits, List.range_add, List.map_append, List.map_map]
  apply congrArg₂
  · apply List.map_congr_left
    intro i hi
    have hlt := List.mem_range.mp hi
    rw [Nat.testBit_div_two_pow]
    congr 1
    omega
  · apply List.map_congr_left
    intro i hi
    have hlt := List.mem_range.mp hi
    dsimp only [Function.comp_apply]
    congr 1
    omega

theorem ofBits_append_bits : ofBits (l ++ bits w n) = ofBits l * 2 ^ w + n % 2 ^ w := by
  induction w generalizing n with
  | zero => simp [bits, Nat.mod_one]
  | succ w ih =>
      have hlast : bits 1 n = [n.testBit 0] := rfl
      have hbit : (n.testBit 0).toNat = n % 2 := by
        rw [Nat.testBit_zero]
        rcases Nat.mod_two_eq_zero_or_one n with h | h <;> simp [h]
      have hstep : ofBits (l ++ bits (w + 1) n) = 2 * ofBits (l ++ bits w (n / 2)) + n % 2 := by
        rw [bits_add, ← List.append_assoc, hlast, ofBits, List.foldl_append, ← hbit]
        rfl
      rw [hstep, ih, pow_succ', Nat.mod_mul]
      ring

theorem ofBits_bits : ofBits (bits w n) = n % 2 ^ w := by
  have h := ofBits_append_bits (w := w) (n := n) (l := [])
  rw [List.nil_append] at h
  rw [h]
  simp [ofBits]

theorem bits_mod : bits w (n % 2 ^ w) = bits w n := by
  apply List.map_congr_left
  intro i hi
  have hlt := List.mem_range.mp hi
  rw [Nat.testBit_mod_two_pow, decide_eq_true (by omega), Bool.true_and]

/-- A number in `k` digits of `w` bits. -/
theorem flatMap_bits (k : ℕ) :
    ((List.range k).flatMap fun i => bits w (n / 2 ^ (w * (k - 1 - i)))) = bits (k * w) n := by
  induction k generalizing n with
  | zero => simp [bits]
  | succ k ih =>
      have hinit : ((List.range k).flatMap fun i => bits w (n / 2 ^ (w * (k + 1 - 1 - i)))) =
          (List.range k).flatMap fun i => bits w (n / 2 ^ w / 2 ^ (w * (k - 1 - i))) := by
        apply List.flatMap_congr
        intro i hi
        have hlt := List.mem_range.mp hi
        rw [Nat.div_div_eq_div_mul, ← pow_add]
        congr 3
        have hsub : k + 1 - 1 - i = k - 1 - i + 1 := by omega
        rw [hsub, Nat.mul_succ, Nat.add_comm]
      rw [List.range_succ, List.flatMap_append, hinit, ih, Nat.succ_mul, bits_add]
      simp

theorem hex_bits_append : hex (bits 4 n ++ l) = Nat.digitChar (n % 16) :: hex l := by
  have hfour : bits 4 n = [n.testBit 3, n.testBit 2, n.testBit 1, n.testBit 0] := rfl
  have hvalue := ofBits_bits (w := 4) (n := n)
  rw [hfour] at hvalue ⊢
  rw [List.cons_append, List.cons_append, List.cons_append, List.cons_append, List.nil_append, hex,
    hvalue]
  rfl

theorem hex_bits_byte : hex (bits 8 n ++ l) =
    Nat.digitChar (n / 16 % 16) :: Nat.digitChar (n % 16) :: hex l := by
  have hnibbles : bits 8 n = bits 4 (n / 2 ^ 4) ++ bits 4 n := @bits_add 4 n 4
  rw [hnibbles, List.append_assoc, hex_bits_append, hex_bits_append]
  rfl

theorem hex_flatMap_bytes {ι : Type*} (is : List ι) (f : ι → ℕ) :
    hex ((is.flatMap fun i => bits 8 (f i)) ++ l) =
      (is.flatMap fun i => [Nat.digitChar (f i / 16 % 16), Nat.digitChar (f i % 16)]) ++ hex l := by
  induction is with
  | nil => rfl
  | cons i is ih =>
      rw [List.flatMap_cons, List.append_assoc, hex_bits_byte, ih, List.flatMap_cons]
      rfl

end Bits

section Schedule

variable {M M' : ℕ → Word} {t : ℕ}

theorem W_of_lt (h : t < 16) : W M t = M t := by
  rw [W, if_pos h]

theorem W_of_ge (h : ¬t < 16) :
    W M t = sigma1 (W M (t - 2)) + W M (t - 7) + sigma0 (W M (t - 15)) + W M (t - 16) := by
  rw [W, if_neg h]

/-- The message schedule reads 16 words. -/
theorem W_congr (h : ∀ t < 16, M t = M' t) (t : ℕ) : W M t = W M' t := by
  induction t using Nat.strong_induction_on with
  | _ t ih =>
      by_cases hlt : t < 16
      · rw [W_of_lt hlt, W_of_lt hlt, h t hlt]
      · rw [W_of_ge hlt, W_of_ge hlt, ih (t - 2) (by omega), ih (t - 7) (by omega),
          ih (t - 15) (by omega), ih (t - 16) (by omega)]

theorem compress_congr {H : Vector Word 8} (h : ∀ t < 16, M t = M' t) :
    compress H M = compress H M' := by
  have hW : W M = W M' := funext (W_congr h)
  rw [compress, compress, hW]

end Schedule

section Bytes

variable {l l' : List UInt8}

@[simp] theorem ofBytes_append : ofBytes (l ++ l') = ofBytes l ++ ofBytes l' := List.flatMap_append

@[simp] theorem length_ofBytes : (ofBytes l).length = 8 * l.length := by
  induction l with
  | nil => rfl
  | cons b l ih =>
      have hcons : ofBytes (b :: l) = bits 8 b.toNat ++ ofBytes l := rfl
      rw [hcons, List.length_append, ih, length_bits, List.length_cons]
      omega

theorem drop_ofBytes {k : ℕ} (hk : k ≤ l.length) :
    (ofBytes l).drop (8 * k) = ofBytes (l.drop k) := by
  have hlength : (ofBytes (l.take k)).length = 8 * k := by
    rw [length_ofBytes, List.length_take_of_le hk]
  calc (ofBytes l).drop (8 * k) = (ofBytes (l.take k) ++ ofBytes (l.drop k)).drop (8 * k) := by
        rw [← ofBytes_append, List.take_append_drop]
    _ = ofBytes (l.drop k) := List.drop_left' hlength

theorem take_ofBytes {k : ℕ} (hk : k ≤ l.length) :
    (ofBytes l).take (8 * k) = ofBytes (l.take k) := by
  have hlength : (ofBytes (l.take k)).length = 8 * k := by
    rw [length_ofBytes, List.length_take_of_le hk]
  calc (ofBytes l).take (8 * k) = (ofBytes (l.take k) ++ ofBytes (l.drop k)).take (8 * k) := by
        rw [← ofBytes_append, List.take_append_drop]
    _ = ofBytes (l.take k) := List.take_left' hlength

theorem word_ofBytes {j : ℕ} (hj : 4 * j + 4 ≤ l.length) :
    word (ofBytes l) j = BitVec.ofNat 32 (ofBits (ofBytes ((l.drop (4 * j)).take 4))) := by
  have hdrop : (ofBytes l).drop (32 * j) = ofBytes (l.drop (4 * j)) := by
    rw [← drop_ofBytes (by omega), ← Nat.mul_assoc]
  have hlength : 4 ≤ (l.drop (4 * j)).length := by
    rw [List.length_drop]
    omega
  rw [word, hdrop, ← take_ofBytes hlength]

theorem ofBits_ofBytes (b₀ b₁ b₂ b₃ : UInt8) : ofBits (ofBytes [b₀, b₁, b₂, b₃]) =
    b₀.toNat * 2 ^ 24 + b₁.toNat * 2 ^ 16 + b₂.toNat * 2 ^ 8 + b₃.toNat := by
  have hbits : ofBytes [b₀, b₁, b₂, b₃] =
      bits 8 b₀.toNat ++ bits 8 b₁.toNat ++ bits 8 b₂.toNat ++ bits 8 b₃.toNat := by
    simp [ofBytes]
  have hbyte : ∀ b : UInt8, b.toNat % 2 ^ 8 = b.toNat := fun b => Nat.mod_eq_of_lt b.toNat_lt
  rw [hbits, ofBits_append_bits, ofBits_append_bits, ofBits_append_bits, ofBits_bits, hbyte,
    hbyte, hbyte, hbyte]
  ring

end Bytes

end Fips180
