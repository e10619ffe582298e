/-
# The hash is SHA-256

The code agrees with the standard step by step. The padded buffer is the padded message,
byte for byte; the array of words is the message schedule; a round of the code is a round
of the standard; and the two digits of each byte are the digits of its bits.
-/

import Kode.Crypto.Hash
import Kode.Filesystem.RoundTrip

namespace Kode.Crypto

open Kode.Library
open Kode.Library.Sha256 (Word)
open Kode.Filesystem (V8 Value kMaxLength)

/-! ## Constants -/

theorem rotateRight_eq (value : Word) {count : ℕ} (within : count < 32) :
    rotateRight value count = Sha256.rotr count value := by
  rw [Sha256.rotr, BitVec.rotateRight, Nat.mod_eq_of_lt within]
  rfl

/-- The tables hold what the standard says. -/
theorem constants_eq :
    (List.range 64).map (fun i => kSha256Constants[i]!) =
      (List.range 64).map Sha256.roundConstant := by
  unfold Sha256.roundConstant Sha256.fractionOfRoot
  rw [Sha256.primes_eq]
  decide +kernel

theorem kSha256Constants_eq {i : ℕ} (round : i < 64) :
    kSha256Constants[i]! = Sha256.roundConstant i :=
  List.map_inj_left.mp constants_eq i (List.mem_range.mpr round)

/-! ## Padding -/

theorem padZeros_eq (bytes : Bytes) :
    padZeros bytes = bytes ++ List.replicate ((120 - bytes.length % 64) % 64) 0 := by
  induction bytes using padZeros.induct with
  | case1 bytes short ih =>
      have one : (120 - bytes.length % 64) % 64 =
          (120 - (bytes ++ [0]).length % 64) % 64 + 1 := by
        rw [List.length_append, List.length_singleton]
        omega
      rw [padZeros, if_pos short, ih, one, List.replicate_succ, List.append_assoc,
        List.singleton_append]
  | case2 bytes full =>
      have none : (120 - bytes.length % 64) % 64 = 0 := by omega
      rw [padZeros, if_neg full, none, List.replicate_zero, List.append_nil]

/-- The zero bits are seven behind the one bit and eight in each zero byte. -/
theorem zeros_eq (length : ℕ) :
    Sha256.zeros (8 * length) = 7 + 8 * ((120 - (length + 1) % 64) % 64) := by
  rw [Sha256.zeros, Nat.find_eq_iff]
  constructor
  · omega
  · intro fewer
    omega

/-- A byte cut out by shifting and masking. -/
theorem ofNat_masked {width : ℕ} (eight : 8 ≤ width) (value : BitVec width) (shift : ℕ) :
    UInt8.ofNat ((value >>> shift) &&& 0xff).toNat = UInt8.ofNat (value.toNat >>> shift) := by
  have fits : 255 < 2 ^ width :=
    Nat.lt_of_lt_of_le (by decide) (Nat.pow_le_pow_right (by decide) eight)
  have mask : ((value >>> shift) &&& 0xff).toNat = (value.toNat >>> shift) % 2 ^ 8 := by
    have ones : (0xff : BitVec width).toNat = 2 ^ 8 - 1 := Nat.mod_eq_of_lt fits
    rw [BitVec.toNat_and, BitVec.toNat_ushiftRight, ones, Nat.and_two_pow_sub_one_eq_mod]
  rw [mask]
  exact UInt8.ofNat_mod_size

theorem appendLength_eq (bytes : Bytes) (bitLength : BitVec 64) :
    appendLength bytes bitLength = bytes ++ bigEndian 8 bitLength.toNat := by
  simp only [appendLength, List.foldl_cons, List.foldl_nil, List.append_assoc, bigEndian,
    ofNat_masked (show 8 ≤ 64 by decide)]
  rfl

theorem storeWord_eq (word : Word) : storeWord word = bigEndian 4 word.toNat := by
  simp only [storeWord, List.map_cons, List.map_nil, bigEndian,
    ofNat_masked (show 8 ≤ 32 by decide)]

theorem bitsOf_replicate_zero (count : ℕ) :
    bitsOf (List.replicate count 0) = List.replicate (8 * count) false := by
  induction count with
  | zero => rfl
  | succ count ih =>
      rw [List.replicate_succ, bitsOf, List.flatMap_cons, ← bitsOf, ih, Nat.mul_succ, Nat.add_comm,
        ← List.replicate_append_replicate]
      rfl

theorem bitLength_toNat {length : ℕ} (short : length < 2 ^ 61) :
    (BitVec.ofNat 64 length * 8).toNat = 8 * length := by
  rw [BitVec.toNat_mul, BitVec.toNat_ofNat, show (8 : BitVec 64).toNat = 8 from rfl]
  omega

/-- The buffer that is hashed is the padded message. -/
theorem bitsOf_padded {input : Bytes} (short : input.length < 2 ^ 61) :
    bitsOf (padded input) = Sha256.pad (bitsOf input) := by
  have one : bitsOf [0x80] = true :: List.replicate 7 false := by decide
  rw [padded, appendLength_eq, padZeros_eq, bitsOf_append, bitsOf_append, bitsOf_append,
    bitsOf_bigEndian, bitLength_toNat short, one, bitsOf_replicate_zero, Sha256.pad, length_bitsOf,
    zeros_eq, ← List.replicate_append_replicate]
  simp only [List.append_assoc, List.cons_append, List.length_append, List.length_singleton]

theorem length_padded (input : Bytes) : (padded input).length % 64 = 0 := by
  have eight : (bigEndian 8 (BitVec.ofNat 64 input.length * 8).toNat).length = 8 := rfl
  rw [padded, appendLength_eq, padZeros_eq, List.length_append, List.length_append, eight,
    List.length_replicate]
  omega

/-! ## The message schedule -/

/-- Appending eight low bits to a number that is shifted to the left. -/
theorem shiftLeft_or (high low shift : ℕ) (byte : low < 256) :
    high <<< (shift + 8) ||| low <<< shift = (high * 256 + low) <<< shift := by
  have eight : high <<< 8 ||| low = high * 256 + low := by
    rw [← Nat.shiftLeft_add_eq_or_of_lt byte, Nat.shiftLeft_eq]
  rw [Nat.add_comm shift 8, Nat.shiftLeft_add, ← Nat.shiftLeft_or_distrib, eight]

theorem toNat_shifted (byte : UInt8) {shift : ℕ} (within : shift ≤ 24) :
    (BitVec.ofNat 32 byte.toNat <<< shift).toNat = byte.toNat <<< shift := by
  have small := byte.toNat_lt
  have value : (BitVec.ofNat 32 byte.toNat).toNat = byte.toNat := Nat.mod_eq_of_lt (by omega)
  rw [BitVec.toNat_shiftLeft, value]
  refine Nat.mod_eq_of_lt ?_
  rw [Nat.shiftLeft_eq]
  calc byte.toNat * 2 ^ shift
      ≤ byte.toNat * 2 ^ 24 := Nat.mul_le_mul_left _ (Nat.pow_le_pow_right (by decide) within)
    _ < 2 ^ 32 := by omega

/-- Four bytes put together with shifts. -/
theorem loadWord_eq (bytes : Bytes) (offset : ℕ) :
    loadWord bytes offset = BitVec.ofNat 32 (ofBits
      (bitsOf [bytes[offset]!, bytes[offset + 1]!, bytes[offset + 2]!, bytes[offset + 3]!])) := by
  unfold loadWord
  generalize bytes[offset]! = b0, bytes[offset + 1]! = b1, bytes[offset + 2]! = b2,
    bytes[offset + 3]! = b3
  have h0 := b0.toNat_lt
  have h1 := b1.toNat_lt
  have h2 := b2.toNat_lt
  have h3 := b3.toNat_lt
  have last : (BitVec.ofNat 32 b3.toNat).toNat = b3.toNat <<< 0 := Nat.mod_eq_of_lt (by omega)
  refine BitVec.eq_of_toNat_eq ?_
  rw [BitVec.toNat_or, BitVec.toNat_or, BitVec.toNat_or, toNat_shifted b0 (by decide),
    toNat_shifted b1 (by decide), toNat_shifted b2 (by decide), last,
    shiftLeft_or _ _ 16 h1, shiftLeft_or _ _ 8 h2, shiftLeft_or _ _ 0 h3, ofBits_four,
    BitVec.toNat_ofNat, Nat.mod_eq_of_lt (by omega)]
  rfl

theorem take_four {bytes : Bytes} {offset : ℕ} (inside : offset + 4 ≤ bytes.length) :
    (bytes.drop offset).take 4 =
      [bytes[offset]!, bytes[offset + 1]!, bytes[offset + 2]!, bytes[offset + 3]!] := by
  rw [List.drop_eq_getElem_cons (show offset < bytes.length by omega),
    List.drop_eq_getElem_cons (show offset + 1 < bytes.length by omega),
    List.drop_eq_getElem_cons (show offset + 2 < bytes.length by omega),
    List.drop_eq_getElem_cons (show offset + 3 < bytes.length by omega),
    getElem!_pos bytes offset, getElem!_pos bytes (offset + 1), getElem!_pos bytes (offset + 2),
    getElem!_pos bytes (offset + 3)]
  rfl

/-- The words of a chunk are those of its bits. -/
theorem word_eq {bytes : Bytes} {i t : ℕ} (first : t < 16)
    (inside : 64 * (i + 1) ≤ bytes.length) :
    Sha256.word (Sha256.block (bitsOf bytes) i) t = loadWord bytes (64 * i + t * 4) := by
  have fourth : 64 * i + t * 4 + 4 ≤ bytes.length := by omega
  have place : 512 * i + 32 * t = 8 * (64 * i + t * 4) := by omega
  have within : min 32 (512 - 32 * t) = 8 * 4 := by omega
  rw [loadWord_eq, ← take_four fourth, ← take_bitsOf, ← drop_bitsOf, Sha256.word, Sha256.block,
    List.drop_take, List.take_take, List.drop_drop, place, within]

theorem get_set (words : Vector Word 64) (i : ℕ) (value : Word) {t : ℕ} (inside : t < 64) :
    (words.set! i value)[t]! = if i = t then value else words[t]! := by
  rw [getElem!_pos (words.set! i value) t inside, getElem!_pos words t inside,
    Vector.getElem_set! inside]

theorem loadWords_get (bytes : Bytes) (chunk : ℕ) {t : ℕ} (first : t < 16) :
    (loadWords bytes chunk)[t]! = loadWord bytes (chunk + t * 4) := by
  have loop : ∀ n ≤ 16, ∀ t < n,
      ((List.range n).foldl (fun words i => words.set! i (loadWord bytes (chunk + i * 4)))
        (Vector.replicate 64 0))[t]! = loadWord bytes (chunk + t * 4) := by
    intro n
    induction n with
    | zero => exact fun _ t none => absurd none (Nat.not_lt_zero t)
    | succ n ih =>
        intro bound t before
        rw [List.range_succ, List.foldl_append, List.foldl_cons, List.foldl_nil,
          get_set _ _ _ (by omega)]
        by_cases here : n = t
        · rw [if_pos here, here]
        · rw [if_neg here, ih (by omega) t (by omega)]
  exact loop 16 (Nat.le_refl 16) t first

/-- One iteration puts the next word of the schedule behind those that are there. -/
theorem extendStep_get {words : Vector Word 64} {block : List Bool} {i : ℕ} (later : 16 ≤ i)
    (before : ∀ t < i, words[t]! = Sha256.schedule block t) {t : ℕ} (inside : t < 64)
    (reached : t < i + 1) :
    (extendStep words i)[t]! = Sha256.schedule block t := by
  rw [extendStep, get_set _ _ _ inside]
  by_cases here : i = t
  · subst here
    rw [if_pos rfl, before (i - 15) (by omega), before (i - 2) (by omega),
      before (i - 16) (by omega), before (i - 7) (by omega), Sha256.schedule_of_le later]
    simp only [rotateRight_eq _ (show 7 < 32 by decide), rotateRight_eq _ (show 18 < 32 by decide),
      rotateRight_eq _ (show 17 < 32 by decide), rotateRight_eq _ (show 19 < 32 by decide)]
    rw [← Sha256.smallSigma0, ← Sha256.smallSigma1]
    ac_rfl
  · rw [if_neg here, before t (by omega)]

/-- The array holds the message schedule of the chunk. -/
theorem extendWords_get {bytes : Bytes} {i t : ℕ} (inside : 64 * (i + 1) ≤ bytes.length)
    (round : t < 64) :
    (extendWords (loadWords bytes (64 * i)))[t]! =
      Sha256.schedule (Sha256.block (bitsOf bytes) i) t := by
  have loop : ∀ n ≤ 48, ∀ t < 16 + n,
      ((List.range' 16 n).foldl extendStep (loadWords bytes (64 * i)))[t]! =
        Sha256.schedule (Sha256.block (bitsOf bytes) i) t := by
    intro n
    induction n with
    | zero =>
        intro _ t first
        rw [List.range'_zero, List.foldl_nil, loadWords_get _ _ first,
          Sha256.schedule_of_lt first, word_eq first inside]
    | succ n ih =>
        intro bound t before
        rw [List.range'_1_concat, List.foldl_append, List.foldl_cons, List.foldl_nil]
        exact extendStep_get (Nat.le_add_right 16 n) (ih (by omega)) (by omega) before
  exact loop 48 (Nat.le_refl 48) t round

/-! ## Rounds and chunks -/

/-- The variables of the code as those of the standard. -/
def Registers.state (r : Registers) : Sha256.State := ⟨r.a, r.b, r.c, r.d, r.e, r.f, r.g, r.h⟩

theorem roundStep_state {words : Vector Word 64} {schedule : ℕ → Word} {t : ℕ} (round : t < 64)
    (same : words[t]! = schedule t) (r : Registers) :
    (roundStep words r t).state = Sha256.round schedule r.state t := by
  unfold roundStep Sha256.round Registers.state
  simp only [rotateRight_eq _ (show 6 < 32 by decide), rotateRight_eq _ (show 11 < 32 by decide),
    rotateRight_eq _ (show 25 < 32 by decide), rotateRight_eq _ (show 2 < 32 by decide),
    rotateRight_eq _ (show 13 < 32 by decide), rotateRight_eq _ (show 22 < 32 by decide),
    kSha256Constants_eq round, same]
  rfl

theorem rounds_state {words : Vector Word 64} {schedule : ℕ → Word}
    (same : ∀ t < 64, words[t]! = schedule t) (r : Registers) :
    ((List.range 64).foldl (roundStep words) r).state =
      (List.range 64).foldl (Sha256.round schedule) r.state := by
  have loop : ∀ n ≤ 64, ((List.range n).foldl (roundStep words) r).state =
      (List.range n).foldl (Sha256.round schedule) r.state := by
    intro n
    induction n with
    | zero => exact fun _ => rfl
    | succ n ih =>
        intro bound
        rw [List.range_succ, List.foldl_append, List.foldl_append, List.foldl_cons, List.foldl_cons,
          List.foldl_nil, List.foldl_nil, roundStep_state bound (same n bound),
          ih (Nat.le_of_succ_le bound)]
  exact loop 64 (Nat.le_refl 64)

theorem addHash_state (hash : Vector Word 8) (r : Registers) :
    (loadHash (addHash hash r)).state =
      let hash := loadHash hash
      { a := r.a + hash.a, b := r.b + hash.b, c := r.c + hash.c, d := r.d + hash.d
        e := r.e + hash.e, f := r.f + hash.f, g := r.g + hash.g, h := r.h + hash.h } := by
  simp only [BitVec.add_comm r.a, BitVec.add_comm r.b, BitVec.add_comm r.c, BitVec.add_comm r.d,
    BitVec.add_comm r.e, BitVec.add_comm r.f, BitVec.add_comm r.g, BitVec.add_comm r.h]
  rfl

theorem processChunk_state {bytes : Bytes} {i : ℕ} (inside : 64 * (i + 1) ≤ bytes.length)
    (hash : Vector Word 8) :
    (loadHash (processChunk bytes hash (64 * i))).state =
      Sha256.compress (loadHash hash).state (Sha256.block (bitsOf bytes) i) := by
  have rounds := rounds_state (fun t => extendWords_get (t := t) inside) (loadHash hash)
  unfold Sha256.compress processChunk
  rw [addHash_state, ← rounds]
  rfl

theorem initialHash_state : (loadHash initialHash).state = Sha256.initial := by
  unfold Sha256.initial Sha256.fractionOfRoot
  rw [Sha256.primes_eq]
  decide

/-- The loop over the chunks is the loop over the blocks. -/
theorem chunks_state {bytes : Bytes} (whole : bytes.length % 64 = 0) :
    (loadHash ((List.range' 0 ((bytes.length + 63) / 64) 64).foldl (processChunk bytes)
        initialHash)).state =
      (List.range ((bitsOf bytes).length / 512)).foldl
        (fun hash i => Sha256.compress hash (Sha256.block (bitsOf bytes) i)) Sha256.initial := by
  have loop : ∀ n, 64 * n ≤ bytes.length →
      (loadHash ((List.range' 0 n 64).foldl (processChunk bytes) initialHash)).state =
        (List.range n).foldl
          (fun hash i => Sha256.compress hash (Sha256.block (bitsOf bytes) i))
          Sha256.initial := by
    intro n
    induction n with
    | zero => exact fun _ => initialHash_state
    | succ n ih =>
        intro bound
        rw [List.range'_concat, List.range_succ, List.foldl_append, List.foldl_append,
          List.foldl_cons, List.foldl_cons, List.foldl_nil, List.foldl_nil, Nat.zero_add,
          processChunk_state bound, ih (by omega)]
  have count : (bytes.length + 63) / 64 = (bitsOf bytes).length / 512 := by
    rw [length_bitsOf]
    omega
  rw [count]
  refine loop _ ?_
  rw [length_bitsOf]
  omega

/-! ## Output -/

theorem bitsOf_storeWord (word : Word) : bitsOf (storeWord word) = bits 32 word.toNat := by
  rw [storeWord_eq, bitsOf_bigEndian]

theorem toList_eq_words : ∀ hash : Vector Word 8, hash.toList = (loadHash hash).state.words
  | ⟨⟨[_, _, _, _, _, _, _, _]⟩, _⟩ => rfl

/-- Two digits for each byte. -/
theorem leftpad_toDigits {number : ℕ} (byte : number < 256) :
    (Nat.toDigits 16 number).leftpad 2 '0' =
      [(number / 16 % 16).digitChar, (number % 16).digitChar] := by
  revert number
  decide +kernel

theorem hex_bitsOf (bytes : Bytes) : hex (bitsOf bytes) = toHex bytes := by
  induction bytes with
  | nil => rfl
  | cons byte bytes ih =>
      rw [bitsOf, List.flatMap_cons, hex_byte, ← bitsOf, ih, toHex, toHex, List.flatMap_cons,
        leftpad_toDigits byte.toNat_lt]
      rfl

theorem bitsOf_sha256 {data : Bytes} (short : data.length < 2 ^ 61) :
    bitsOf (sha256 data) = Sha256.digest (bitsOf data) := by
  have chunks := chunks_state (length_padded data)
  rw [bitsOf_padded short] at chunks
  rw [Sha256.digest, ← chunks, ← toList_eq_words, sha256, bitsOf, List.flatMap_assoc]
  exact congrArg (List.flatMap · _) (funext fun word => bitsOf_storeWord word)

theorem hex_digest {data : Bytes} (short : data.length < 2 ^ 61) :
    hex (Sha256.digest (bitsOf data)) = toHex (sha256 data) := by
  rw [← bitsOf_sha256 short, hex_bitsOf]

theorem length_hex_digest (message : List Bool) : (hex (Sha256.digest message)).length = 64 := by
  have bits : (Sha256.digest message).length = 256 := by
    simp [Sha256.digest, Sha256.State.words]
  rw [hex, List.length_map, List.length_range, bits]

/-- The hash of every message is the digest of the standard, in 64 hexadecimal digits. -/
theorem toHex_sha256 (data : Bytes) (short : data.length < 2 ^ 61) :
    toHex (sha256 data) = hex (Sha256.digest (bitsOf data)) ∧
      (toHex (sha256 data)).length = 64 := by
  rw [← hex_digest short]
  exact ⟨rfl, length_hex_digest _⟩

theorem toHex_sha256_hello :
    (bytesOf "hello").length < 2 ^ 61 ∧
      toHex (sha256 (bytesOf "hello")) = hex (Sha256.digest (bitsOf (bytesOf "hello"))) ∧
        (toHex (sha256 (bytesOf "hello"))).length = 64 := by
  have short : (bytesOf "hello").length < 2 ^ 61 := by decide
  exact ⟨short, toHex_sha256 (bytesOf "hello") short⟩

example : toHex (sha256 (bytesOf "hello")) =
    ("2cf24dba5fb0a30e26e83b2ac5b9e29e" ++ "1b161e5c1fa7425e73043362938b9824").toList := by
  decide +kernel

/-! ## The binding -/

theorem digit_of_mem_toHex {bytes : Bytes} {char : Char} (member : char ∈ toHex bytes) :
    char ≠ '\x00' ∧ char.toNat < 128 := by
  have digit : ∀ number < 16,
      Nat.digitChar number ≠ '\x00' ∧ (Nat.digitChar number).toNat < 128 := by
    decide
  obtain ⟨byte, -, member⟩ := List.mem_flatMap.mp member
  rw [leftpad_toDigits byte.toNat_lt] at member
  simp only [List.mem_cons, List.not_mem_nil, or_false] at member
  rcases member with rfl | rfl
  · exact digit _ (Nat.mod_lt _ (by decide))
  · exact digit _ (Nat.mod_lt _ (by decide))

/-- `hash("sha256", text)` gives the digest of the text's UTF-8 encoding. -/
theorem hashCallback_sha256 (v8 : V8) (text : List Char) (others : List Value)
    (short : (utf8 text).length < 2 ^ 61) :
    hashCallback v8 (.string "sha256".toList :: .string text :: others) =
      .ok (some (.object [("algorithm", .string "sha256".toList),
        ("hex", .string (hex (Sha256.digest (bitsOf (utf8 text)))))])) := by
  have name : v8.v8String (bytesOf "sha256") = some "sha256".toList :=
    (V8.v8String_utf8_eq_self_iff (by decide)).mpr (by decide)
  have digits : v8.v8String (utf8 (toHex (sha256 (utf8 text)))) =
      some (toHex (sha256 (utf8 text))) := by
    refine (V8.v8String_utf8_eq_self_iff ?_).mpr fun null => (digit_of_mem_toHex null).1 rfl
    refine (utf16Length_bounds _).1.trans ?_
    rw [utf8_ascii fun char member => (digit_of_mem_toHex member).2, List.length_map,
      ← hex_digest short, length_hex_digest]
    decide
  rw [hex_digest short]
  show Except.ok ((v8.v8String (bytesOf "sha256")).bind fun name =>
    (v8.v8String (utf8 (toHex (sha256 (utf8 text))))).bind fun digits =>
      some (Value.object [("algorithm", .string name), ("hex", .string digits)])) = _
  rw [name, digits]
  rfl

end Kode.Crypto
