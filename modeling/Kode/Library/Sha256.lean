/-
# SHA-256

The hash function of FIPS 180-4, over bit strings: padding, parsing into blocks of 512
bits, the recursive message schedule and 64 rounds on each block. The constants are given
by what the standard says they are, the first bits of roots of the first primes.
-/

import Kode.Library.Utf8
import Mathlib.Data.Nat.Bitwise
import Mathlib.Data.Nat.Find
import Mathlib.Data.Nat.NthRoot.Defs
import Mathlib.Tactic.Ring

namespace Kode.Library

/-! ## Bit strings -/

/-- The low bits of a number, the most significant one first. -/
def bits : ℕ → ℕ → List Bool
  | 0, _ => []
  | width + 1, number => number.testBit width :: bits width number

/-- The number that a bit string stands for. -/
def ofBits (string : List Bool) : ℕ :=
  string.foldl (fun value bit => 2 * value + bit.toNat) 0

/-- The bit string of a byte string. -/
def bitsOf (bytes : Bytes) : List Bool := bytes.flatMap fun byte => bits 8 byte.toNat

@[simp]
theorem length_bits (width number : ℕ) : (bits width number).length = width := by
  induction width with
  | zero => rfl
  | succ width ih => rw [bits, List.length_cons, ih]

@[simp]
theorem length_bitsOf (bytes : Bytes) : (bitsOf bytes).length = 8 * bytes.length := by
  induction bytes with
  | nil => rfl
  | cons byte bytes ih =>
      rw [bitsOf, List.flatMap_cons, List.length_append, length_bits, ← bitsOf, ih,
        List.length_cons]
      omega

theorem bitsOf_append (front back : Bytes) : bitsOf (front ++ back) = bitsOf front ++ bitsOf back :=
  List.flatMap_append

theorem bits_add (high low number : ℕ) :
    bits (high + low) number = bits high (number >>> low) ++ bits low number := by
  induction high with
  | zero => rw [Nat.zero_add, bits, List.nil_append]
  | succ high ih =>
      rw [Nat.succ_add, bits, bits, ih, Nat.testBit_shiftRight, List.cons_append, Nat.add_comm]

theorem bits_mod {width limit : ℕ} (within : width ≤ limit) (number : ℕ) :
    bits width (number % 2 ^ limit) = bits width number := by
  induction width with
  | zero => rfl
  | succ width ih =>
      rw [bits, bits, ih (Nat.le_of_succ_le within), Nat.testBit_mod_two_pow,
        decide_eq_true (Nat.lt_of_succ_le within), Bool.true_and]

theorem foldl_ofBits (string : List Bool) (start : ℕ) :
    string.foldl (fun value bit => 2 * value + bit.toNat) start =
      start * 2 ^ string.length + ofBits string := by
  unfold ofBits
  induction string generalizing start with
  | nil => simp
  | cons bit string ih =>
      rw [List.foldl_cons, List.foldl_cons, ih (2 * start + bit.toNat), ih (2 * 0 + bit.toNat),
        List.length_cons, Nat.pow_succ]
      ring

theorem ofBits_append (front back : List Bool) :
    ofBits (front ++ back) = ofBits front * 2 ^ back.length + ofBits back := by
  rw [ofBits, List.foldl_append, foldl_ofBits, ← ofBits]

theorem ofBits_bits (width number : ℕ) : ofBits (bits width number) = number % 2 ^ width := by
  induction width with
  | zero => simp [bits, ofBits, Nat.mod_one]
  | succ width ih =>
      rw [bits, ← List.singleton_append, ofBits_append, ih, length_bits, Nat.mod_pow_succ,
        ← Nat.toNat_testBit]
      simp only [ofBits, List.foldl_cons, List.foldl_nil]
      ring

/-! ## Bytes -/

theorem drop_bitsOf (bytes : Bytes) (count : ℕ) :
    (bitsOf bytes).drop (8 * count) = bitsOf (bytes.drop count) := by
  induction bytes generalizing count with
  | nil => simp [bitsOf]
  | cons byte bytes ih =>
      cases count with
      | zero => rfl
      | succ count =>
          have eight : 8 * (count + 1) = (bits 8 byte.toNat).length + 8 * count := by
            rw [length_bits]
            omega
          rw [bitsOf, List.flatMap_cons, eight, List.drop_length_add_append, List.drop_succ_cons]
          exact ih count

theorem take_bitsOf (bytes : Bytes) (count : ℕ) :
    (bitsOf bytes).take (8 * count) = bitsOf (bytes.take count) := by
  induction bytes generalizing count with
  | nil => simp [bitsOf]
  | cons byte bytes ih =>
      cases count with
      | zero => rfl
      | succ count =>
          have eight : 8 * (count + 1) = (bits 8 byte.toNat).length + 8 * count := by
            rw [length_bits]
            omega
          rw [bitsOf, List.flatMap_cons, eight, List.take_length_add_append, List.take_succ_cons]
          exact congrArg (bits 8 byte.toNat ++ ·) (ih count)

/-- The bytes of a number, the highest first. -/
def bigEndian : ℕ → ℕ → Bytes
  | 0, _ => []
  | count + 1, number => UInt8.ofNat (number >>> (8 * count)) :: bigEndian count number

theorem bitsOf_bigEndian (count number : ℕ) :
    bitsOf (bigEndian count number) = bits (8 * count) number := by
  induction count with
  | zero => rfl
  | succ count ih =>
      have byte : bits 8 (UInt8.ofNat (number >>> (8 * count))).toNat =
          bits 8 (number >>> (8 * count)) := bits_mod (Nat.le_refl 8) _
      rw [bigEndian, bitsOf, List.flatMap_cons, ← bitsOf, ih, byte, Nat.mul_succ, Nat.add_comm,
        bits_add]

/-- Four bytes make one number. -/
theorem ofBits_four (b0 b1 b2 b3 : UInt8) :
    ofBits (bitsOf [b0, b1, b2, b3]) =
      ((b0.toNat * 256 + b1.toNat) * 256 + b2.toNat) * 256 + b3.toNat := by
  have byte : ∀ b : UInt8, ofBits (bits 8 b.toNat) = b.toNat := fun b => by
    rw [ofBits_bits]
    exact Nat.mod_eq_of_lt b.toNat_lt
  simp only [bitsOf, List.flatMap_cons, List.flatMap_nil, List.append_nil, ofBits_append, byte,
    List.length_append, length_bits]
  ring

/-- The hexadecimal digits of a bit string, one for each four bits. -/
def hex (string : List Bool) : List Char :=
  (List.range (string.length / 4)).map fun i =>
    (ofBits ((string.drop (4 * i)).take 4)).digitChar

theorem hex_append {four : List Bool} (length : four.length = 4) (string : List Bool) :
    hex (four ++ string) = (ofBits four).digitChar :: hex string := by
  have groups : (four ++ string).length / 4 = string.length / 4 + 1 := by
    rw [List.length_append, length]
    omega
  unfold hex
  rw [groups, List.range_succ_eq_map, List.map_cons, List.map_map]
  refine congrArg₂ List.cons ?_ (List.map_congr_left fun i _ => ?_)
  · rw [Nat.mul_zero, List.drop_zero, ← length, List.take_left]
  · have later : 4 * (i + 1) = four.length + 4 * i := by omega
    rw [Function.comp_apply, Nat.succ_eq_add_one, later, List.drop_length_add_append]

/-- A byte has two digits. -/
theorem hex_byte (number : ℕ) (string : List Bool) :
    hex (bits 8 number ++ string) =
      (number / 16 % 16).digitChar :: (number % 16).digitChar :: hex string := by
  rw [show (8 : ℕ) = 4 + 4 from rfl, bits_add, List.append_assoc, hex_append (length_bits ..),
    hex_append (length_bits ..), ofBits_bits, ofBits_bits, Nat.shiftRight_eq_div_pow]
  rfl

namespace Sha256

abbrev Word := BitVec 32

/-! ## Functions and constants -/

def rotr (count : ℕ) (x : Word) : Word := x.rotateRight count

def ch (x y z : Word) : Word := (x &&& y) ^^^ (~~~x &&& z)

def maj (x y z : Word) : Word := (x &&& y) ^^^ (x &&& z) ^^^ (y &&& z)

/-- The function that the standard writes with a capital sigma and index 0. -/
def bigSigma0 (x : Word) : Word := rotr 2 x ^^^ rotr 13 x ^^^ rotr 22 x

def bigSigma1 (x : Word) : Word := rotr 6 x ^^^ rotr 11 x ^^^ rotr 25 x

/-- The function that the standard writes with a small sigma and index 0. -/
def smallSigma0 (x : Word) : Word := rotr 7 x ^^^ rotr 18 x ^^^ (x >>> 3)

def smallSigma1 (x : Word) : Word := rotr 17 x ^^^ rotr 19 x ^^^ (x >>> 10)

/-- The first 64 primes: up to 311 it is enough to divide by the primes below 18. -/
def primes : List ℕ :=
  (List.range 312).filter fun number =>
    2 ≤ number && [2, 3, 5, 7, 11, 13, 17].all fun divisor =>
      number ≤ divisor || number % divisor ≠ 0

theorem primes_eq :
    primes = [2, 3, 5, 7, 11, 13, 17, 19, 23, 29, 31, 37, 41, 43, 47, 53, 59, 61, 67, 71, 73,
      79, 83, 89, 97, 101, 103, 107, 109, 113, 127, 131, 137, 139, 149, 151, 157, 163,
      167, 173, 179, 181, 191, 193, 197, 199, 211, 223, 227, 229, 233, 239, 241, 251,
      257, 263, 269, 271, 277, 281, 283, 293, 307, 311] := by
  decide

/-- The first 32 bits of the fractional part of a root of a prime. -/
def fractionOfRoot (degree index : ℕ) : Word :=
  BitVec.ofNat 32 (Nat.nthRoot degree (primes[index]! * 2 ^ (32 * degree)))

/-- The constant of a round, from a cube root. -/
def roundConstant (t : ℕ) : Word := fractionOfRoot 3 t

/-! ## Preprocessing -/

theorem exists_zeros (length : ℕ) : ∃ k, (length + 1 + k) % 512 = 448 :=
  ⟨(448 + 512 - (length + 1) % 512) % 512, by omega⟩

/-- The number of zero bits of the padding. -/
def zeros (length : ℕ) : ℕ := Nat.find (exists_zeros length)

/-- The message with a one bit, zero bits and its length in 64 bits. -/
def pad (message : List Bool) : List Bool :=
  message ++ true :: List.replicate (zeros message.length) false ++ bits 64 message.length

/-- A block of 512 bits. -/
def block (padded : List Bool) (i : ℕ) : List Bool := (padded.drop (512 * i)).take 512

/-- A word of a block. -/
def word (block : List Bool) (t : ℕ) : Word :=
  BitVec.ofNat 32 (ofBits ((block.drop (32 * t)).take 32))

/-! ## Hash computation -/

/-- The message schedule. -/
def schedule (block : List Bool) (t : ℕ) : Word :=
  if t < 16 then word block t
  else
    smallSigma1 (schedule block (t - 2)) + schedule block (t - 7) +
      smallSigma0 (schedule block (t - 15)) + schedule block (t - 16)
  termination_by t

theorem schedule_of_lt {block : List Bool} {t : ℕ} (first : t < 16) :
    schedule block t = word block t := by
  rw [schedule, if_pos first]

theorem schedule_of_le {block : List Bool} {t : ℕ} (later : 16 ≤ t) :
    schedule block t =
      smallSigma1 (schedule block (t - 2)) + schedule block (t - 7) +
        smallSigma0 (schedule block (t - 15)) + schedule block (t - 16) := by
  rw [schedule, if_neg (Nat.not_lt.mpr later)]

/-- The working variables, and the hash value between two blocks. -/
structure State where
  a : Word
  b : Word
  c : Word
  d : Word
  e : Word
  f : Word
  g : Word
  h : Word
  deriving DecidableEq, Repr

/-- The initial hash value, from square roots. -/
def initial : State where
  a := fractionOfRoot 2 0
  b := fractionOfRoot 2 1
  c := fractionOfRoot 2 2
  d := fractionOfRoot 2 3
  e := fractionOfRoot 2 4
  f := fractionOfRoot 2 5
  g := fractionOfRoot 2 6
  h := fractionOfRoot 2 7

/-- One round. -/
def round (words : ℕ → Word) (state : State) (t : ℕ) : State :=
  let t1 := state.h + bigSigma1 state.e + ch state.e state.f state.g + roundConstant t + words t
  let t2 := bigSigma0 state.a + maj state.a state.b state.c
  { a := t1 + t2, b := state.a, c := state.b, d := state.c
    e := state.d + t1, f := state.e, g := state.f, h := state.g }

/-- The hash value after one more block. -/
def compress (hash : State) (block : List Bool) : State :=
  let last := (List.range 64).foldl (round (schedule block)) hash
  { a := last.a + hash.a, b := last.b + hash.b, c := last.c + hash.c, d := last.d + hash.d
    e := last.e + hash.e, f := last.f + hash.f, g := last.g + hash.g, h := last.h + hash.h }

/-- The words of a hash value. -/
def State.words (state : State) : List Word :=
  [state.a, state.b, state.c, state.d, state.e, state.f, state.g, state.h]

/-- The digest of a message, 256 bits. -/
def digest (message : List Bool) : List Bool :=
  let padded := pad message
  let hash := (List.range (padded.length / 512)).foldl
    (fun hash i => compress hash (block padded i)) initial
  hash.words.flatMap fun word => bits 32 word.toNat

end Sha256

end Kode.Library
