/-
# Text encoding

`kode:encoding`, `Kode.text` and the classes `TextEncoder` and `TextDecoder` share two
functions. Encoding gives the bytes of a string in a new buffer. Decoding copies the
bytes of a view into a vector and hands a pointer to `NewFromUtf8` together with the size
of the vector, cast to `int`.

The cast keeps the size modulo 2^32 with a sign. A negative length makes V8 look for a
zero byte, first in the vector and then in whatever the memory holds behind it, and decode
the bytes before it, or end the process if the string would be too long. So a view of 2^31
bytes or more may be decoded up to some earlier byte, as if the rest of it were not there;
which views are is worked out here.
-/

import Kode.Filesystem.RoundTrip
import Mathlib.Algebra.Order.Ring.Int

namespace Kode.Encoding

open Kode.Library
open Kode.Filesystem (V8 Value kMaxLength)

/-- A window of an `ArrayBuffer`. -/
structure BufferView where
  buffer : Bytes
  byteOffset : ℕ
  byteLength : ℕ
  within : byteOffset + byteLength ≤ buffer.length

/-- The bytes at the positions of the window. -/
def BufferView.bytes (view : BufferView) : Bytes :=
  (view.buffer.drop view.byteOffset).take view.byteLength

/-- An argument, as far as `ReadByteInput` looks at it. -/
inductive Argument
  | uint8Array (view : BufferView)
  | dataView (view : BufferView)
  | arrayBuffer (buffer : Bytes)
  | other (value : Value)

/-- The bytes that an argument stands for. -/
def Argument.bytes? : Argument → Option Bytes
  | .uint8Array view | .dataView view => some view.bytes
  | .arrayBuffer buffer => some buffer
  | .other _ => none

/-- The exception for an argument of the wrong kind. -/
def invalid (v8 : V8) (message operation : String) : Option Value :=
  v8.createKodeError (bytesOf "EINVAL") (bytesOf message) (bytesOf operation) []

/-- `ReadByteInput`. -/
def readByteInput (v8 : V8) (operation : String) : Argument → Except (Option Value) Bytes
  | .uint8Array view | .dataView view =>
      .ok ((view.buffer.drop view.byteOffset).take view.byteLength)
  | .arrayBuffer buffer => .ok buffer
  | .other _ => .error (invalid v8 "Expected Uint8Array, ArrayBuffer, or DataView" operation)

/-- `static_cast<int>` on a `size_t`. -/
def toInt (size : ℕ) : ℤ :=
  let low : ℕ := size % 2 ^ 32
  if low < 2 ^ 31 then (low : ℤ) else (low : ℤ) - 2 ^ 32

/-- What `NewFromUtf8` ends with. -/
inductive NewString
  | string (text : List Char)
  /-- An empty value, for a length beyond `kMaxLength`. -/
  | empty
  /-- No string can be as long as the result would be. -/
  | endsProcess

/-- `NewFromUtf8` on the memory behind a pointer. A negative length stands for that of the C
string there. -/
def newFromUtf8 (v8 : V8) (memory : Bytes) (length : ℤ) : NewString :=
  if length < 0 then (v8.newFromCString memory).elim .endsProcess .string
  else if kMaxLength < length.toNat then .empty
  else .string (v8.decode (memory.take length.toNat))

/-- The part of `DecodeWithOperation` behind `ReadByteInput`. `beyond` is what the memory
holds behind the vector. -/
def decodeVector (v8 : V8) (beyond : Bytes) (operation : String) (bytes : Bytes) :
    V8.Immediate :=
  let memory := if bytes = [] then [0] else bytes ++ beyond
  match newFromUtf8 v8 memory (toInt bytes.length) with
  | .empty => .error (invalid v8 "Invalid UTF-8 input" operation)
  | .string decoded => .ok (some (.string decoded))
  | .endsProcess => .ok none

/-- `DecodeWithOperation`. -/
def decodeWithOperation (v8 : V8) (beyond : Bytes) (args : List Argument)
    (operation : String) : V8.Immediate :=
  match args with
  | [] => .error (invalid v8 "Missing byte input" operation)
  | argument :: _ => do
      let bytes ← readByteInput v8 operation argument
      decodeVector v8 beyond operation bytes

/-- `EncodeUtf8`: an array over all of a new buffer. -/
def encodeUtf8 (text : Bytes) : BufferView where
  buffer := text
  byteOffset := 0
  byteLength := text.length
  within := (Nat.zero_add _).le

/-- `EncodeWithOperation`. -/
def encodeWithOperation (v8 : V8) (args : List Value) (operation : String) :
    Except (Option Value) BufferView := do
  let text ← v8.readStringArg args 0 operation
  return encodeUtf8 (utf8 text)

/-- The functions that encode. -/
inductive Encoder
  | encodeUtf8
  | kodeTextEncode
  | textEncoderEncode
  deriving DecidableEq, Repr

/-- The name of a function in its exceptions. -/
def Encoder.operation : Encoder → String
  | .encodeUtf8 => "kode:encoding.encodeUtf8"
  | .kodeTextEncode => "Kode.text.encode"
  | .textEncoderEncode => "TextEncoder.encode"

/-- `EncodeUtf8Callback`, `KodeTextEncodeCallback` and `TextEncoderEncodeCallback`. -/
def Encoder.callback (encoder : Encoder) (v8 : V8) (args : List Value) :
    Except (Option Value) BufferView :=
  encodeWithOperation v8 args encoder.operation

/-- The functions that decode. -/
inductive Decoder
  | decodeUtf8
  | kodeTextDecode
  | textDecoderDecode
  deriving DecidableEq, Repr

/-- The name of a function in its exceptions. -/
def Decoder.operation : Decoder → String
  | .decodeUtf8 => "kode:encoding.decodeUtf8"
  | .kodeTextDecode => "Kode.text.decode"
  | .textDecoderDecode => "TextDecoder.decode"

/-- `DecodeUtf8Callback`, `KodeTextDecodeCallback` and `TextDecoderDecodeCallback`. -/
def Decoder.callback (decoder : Decoder) (v8 : V8) (beyond : Bytes) (args : List Argument) :
    V8.Immediate :=
  decodeWithOperation v8 beyond args decoder.operation

/-! ## What is decoded -/

theorem kMaxLength_lt : kMaxLength < 2 ^ 29 := by decide

theorem toInt_of_lt {size : ℕ} (small : size % 2 ^ 32 < 2 ^ 31) :
    toInt size = ((size % 2 ^ 32 : ℕ) : ℤ) := if_pos small

theorem toInt_neg {size : ℕ} (large : 2 ^ 31 ≤ size % 2 ^ 32) : toInt size < 0 := by
  have negative : toInt size = ((size % 2 ^ 32 : ℕ) : ℤ) - 2 ^ 32 := if_neg (Nat.not_lt.mpr large)
  have bound := Nat.mod_lt size (show 0 < 2 ^ 32 by decide)
  rw [negative]
  omega

/-- The callback as a whole. -/
theorem callback_of_bytes {argument : Argument} {bytes : Bytes}
    (source : argument.bytes? = some bytes) (decoder : Decoder) (v8 : V8) (beyond : Bytes)
    (others : List Argument) :
    decoder.callback v8 beyond (argument :: others) =
      decodeVector v8 beyond decoder.operation bytes := by
  have read : readByteInput v8 decoder.operation argument = .ok bytes := by
    cases argument with
    | uint8Array view | dataView view => exact congrArg Except.ok (Option.some.inj source)
    | arrayBuffer buffer => exact congrArg Except.ok (Option.some.inj source)
    | other value => cases source
  simp only [Decoder.callback, decodeWithOperation, read, bind, Except.bind]

section

variable {v8 : V8} {beyond bytes : Bytes} {operation : String}

/-- A size that stays positive is the number of bytes decoded, unless V8 refuses it. -/
theorem decodeVector_of_lt (small : bytes.length % 2 ^ 32 < 2 ^ 31) :
    decodeVector v8 beyond operation bytes =
      if kMaxLength < bytes.length % 2 ^ 32 then
        .error (invalid v8 "Invalid UTF-8 input" operation)
      else .ok (some (.string (v8.decode (bytes.take (bytes.length % 2 ^ 32))))) := by
  have positive : ¬ ((bytes.length % 2 ^ 32 : ℕ) : ℤ) < 0 := Int.not_lt.mpr (Int.natCast_nonneg _)
  have kept : (if bytes = [] then [0] else bytes ++ beyond).take (bytes.length % 2 ^ 32) =
      bytes.take (bytes.length % 2 ^ 32) := by
    split_ifs with empty
    · rw [empty]
      rfl
    · exact List.take_append_of_le_length (Nat.mod_le _ _)
  simp only [decodeVector, newFromUtf8, toInt_of_lt small, if_neg positive, Int.toNat_natCast,
    kept]
  split_ifs <;> rfl

/-- A size that becomes negative gives no more than the longest string. -/
theorem decodeVector_of_neg (large : 2 ^ 31 ≤ bytes.length % 2 ^ 32) :
    decodeVector v8 beyond operation bytes = .ok none ∨
      ∃ text, utf16Length text ≤ kMaxLength ∧
        decodeVector v8 beyond operation bytes = .ok (some (.string text)) := by
  have inside : bytes ≠ [] := by
    rintro rfl
    exact absurd large (by decide)
  simp only [decodeVector, newFromUtf8, if_pos (toInt_neg large), if_neg inside,
    V8.newFromCString]
  split_ifs with held
  · exact Or.inr ⟨_, held, rfl⟩
  · exact Or.inl rfl

end

/-! ## The views that are decoded whole -/

/-- What is known of V8's decoder: each code unit of its result stands for one to three
bytes, also where it replaces invalid ones. -/
structure Paced (v8 : V8) : Prop where
  length_le : ∀ bytes, utf16Length (v8.decode bytes) ≤ bytes.length
  le_length : ∀ bytes, bytes.length ≤ 3 * utf16Length (v8.decode bytes)

/-- A short view, or one whose size modulo 2^32 is a length that V8 refuses. -/
def Whole (bytes : Bytes) : Prop :=
  bytes.length < 2 ^ 31 ∨
    (kMaxLength < bytes.length % 2 ^ 32 ∧ bytes.length % 2 ^ 32 < 2 ^ 31)

/-- Of so many bytes, no string holds the decoding. -/
theorem Paced.decode_ne {v8 : V8} (paced : Paced v8) {bytes : Bytes}
    (long : 2 ^ 31 ≤ bytes.length) {text : List Char} (held : utf16Length text ≤ kMaxLength) :
    text ≠ v8.decode bytes := by
  rintro rfl
  have many := paced.le_length bytes
  have bound := kMaxLength_lt
  omega

/-- Decoding covers exactly the bytes of the view, or throws, exactly for these views. -/
theorem decoding_covers_view_iff (v8 : V8) (paced : Paced v8) (decoder : Decoder)
    (beyond : Bytes) (argument : Argument) (others : List Argument) (bytes : Bytes)
    (source : argument.bytes? = some bytes) :
    ((∃ error, decoder.callback v8 beyond (argument :: others) = .error error) ∨
      decoder.callback v8 beyond (argument :: others) = .ok (some (.string (v8.decode bytes)))) ↔
      Whole bytes := by
  rw [callback_of_bytes source]
  have bound := kMaxLength_lt
  have low := Nat.mod_le bytes.length (2 ^ 32)
  by_cases small : bytes.length % 2 ^ 32 < 2 ^ 31
  · rw [decodeVector_of_lt small]
    by_cases refused : kMaxLength < bytes.length % 2 ^ 32
    · rw [if_pos refused]
      exact iff_of_true (Or.inl ⟨_, rfl⟩) (Or.inr ⟨refused, small⟩)
    · rw [if_neg refused]
      simp only [reduceCtorEq, exists_false, false_or, Except.ok.injEq, Option.some.injEq,
        Value.string.injEq, Whole, refused, false_and, or_false]
      constructor
      · intro same
        by_contra long
        have few := paced.length_le (bytes.take (bytes.length % 2 ^ 32))
        have cut := List.length_take_le (bytes.length % 2 ^ 32) bytes
        exact paced.decode_ne (Nat.le_of_not_lt long) (by omega) same
      · intro short
        rw [Nat.mod_eq_of_lt (by omega), List.take_length]
  · have large : 2 ^ 31 ≤ bytes.length % 2 ^ 32 := Nat.le_of_not_lt small
    have ends : decodeVector v8 beyond decoder.operation bytes = .ok none ∨
        ∃ text, utf16Length text ≤ kMaxLength ∧
          decodeVector v8 beyond decoder.operation bytes = .ok (some (.string text)) :=
      decodeVector_of_neg large
    refine iff_of_false ?_ ?_
    · rcases ends with ended | ⟨text, held, decoded⟩
      · rw [ended]
        rintro (⟨error, threw⟩ | whole)
        · cases threw
        · cases whole
      · rw [decoded]
        rintro (⟨error, threw⟩ | whole)
        · cases threw
        · refine paced.decode_ne (large.trans low) held ?_
          exact Value.string.inj (Option.some.inj (Except.ok.inj whole))
    · rintro (short | ⟨-, short⟩) <;> omega

/-- Whatever an encoder returns for a text is decoded as that text, if V8 can hold it. -/
theorem callback_of_encoded (v8 : V8) (encoder : Encoder) (decoder : Decoder) (beyond : Bytes)
    {text : List Char} {others : List Value} (fits : (utf8 text).length ≤ kMaxLength) :
    ∃ encoded, encoder.callback v8 (.string text :: others) = .ok encoded ∧
      decoder.callback v8 beyond [.uint8Array encoded] = .ok (some (.string text)) := by
  have source : (Argument.uint8Array (encodeUtf8 (utf8 text))).bytes? = some (utf8 text) :=
    congrArg some List.take_length
  have bound := kMaxLength_lt
  have count : (utf8 text).length % 2 ^ 32 = (utf8 text).length := Nat.mod_eq_of_lt (by omega)
  refine ⟨encodeUtf8 (utf8 text), rfl, ?_⟩
  rw [callback_of_bytes source, decodeVector_of_lt (by omega), count,
    if_neg (Nat.not_lt.mpr fits), List.take_length, v8.decode_utf8]

/-! ## A decoder -/

/-- A decoder of valid UTF-8. Each byte of anything else becomes a replacement
character. -/
def replacing : V8 where
  decode bytes := bytes.toByteArray.utf8Decode?.elim (bytes.map fun _ => '\uFFFD') Array.toList
  decode_utf8 text := by
    have decoded : (utf8 text).toByteArray.utf8Decode? = some text.toArray :=
      List.utf8Decode?_utf8Encode
    rw [decoded]
    rfl

theorem replacing_decode (bytes : Bytes) :
    (∃ text, bytes = utf8 text ∧ replacing.decode bytes = text) ∨
      replacing.decode bytes = bytes.map fun _ => '\uFFFD' := by
  by_cases valid : bytes.toByteArray.utf8Decode?.isSome
  · obtain ⟨text, encoded⟩ := ByteArray.isSome_utf8Decode?_iff.mp valid
    have same : bytes = utf8 text := List.toByteArray_inj.mp encoded
    exact Or.inl ⟨text, same, same ▸ replacing.decode_utf8 text⟩
  · right
    rw [Option.not_isSome_iff_eq_none] at valid
    simp only [replacing, valid, Option.elim_none]

theorem utf16Length_replaced (bytes : Bytes) :
    utf16Length (bytes.map fun _ => '\uFFFD') = bytes.length := by
  induction bytes with
  | nil => rfl
  | cons byte bytes ih =>
      have single : ('\uFFFD').toNat < 0x10000 := by decide
      rw [List.map_cons, utf16Length, ih, if_pos single, List.length_cons, Nat.add_comm]

theorem replacing_paced : Paced replacing where
  length_le bytes := by
    rcases replacing_decode bytes with ⟨text, rfl, decoded⟩ | replaced
    · rw [decoded]
      exact (utf16Length_bounds text).1
    · rw [replaced, utf16Length_replaced]
  le_length bytes := by
    rcases replacing_decode bytes with ⟨text, rfl, decoded⟩ | replaced
    · rw [decoded]
      exact (utf16Length_bounds text).2
    · rw [replaced, utf16Length_replaced]
      omega

/-- The letters `ode` in the middle of a buffer. -/
def inner : BufferView where
  buffer := [107, 111, 100, 101, 0]
  byteOffset := 1
  byteLength := 3
  within := by decide

theorem decoding_covers_view_iff_inner :
    (∃ error, Decoder.decodeUtf8.callback replacing [0] [.uint8Array inner] = .error error) ∨
      Decoder.decodeUtf8.callback replacing [0] [.uint8Array inner] =
        .ok (some (.string (replacing.decode inner.bytes))) :=
  (decoding_covers_view_iff replacing replacing_paced .decodeUtf8 [0] (.uint8Array inner) []
    inner.bytes rfl).mpr (Or.inl (by decide))

/-- Of a buffer of 2^32 bytes, none is decoded. -/
theorem large_buffer_not_covered :
    ¬ ∀ (v8 : V8) (decoder : Decoder) (beyond : Bytes) (argument : Argument) (bytes : Bytes),
      Paced v8 → argument.bytes? = some bytes → bytes.length ≤ 2 ^ 53 - 1 →
        (∃ error, decoder.callback v8 beyond [argument] = .error error) ∨
          decoder.callback v8 beyond [argument] = .ok (some (.string (v8.decode bytes))) := by
  intro covers
  have size : (List.replicate (2 ^ 32) (97 : UInt8)).length = 2 ^ 32 := List.length_replicate
  have admitted : (List.replicate (2 ^ 32) (97 : UInt8)).length ≤ 2 ^ 53 - 1 := by
    rw [size]
    decide
  have source : (Argument.arrayBuffer (List.replicate (2 ^ 32) 97)).bytes? =
      some (List.replicate (2 ^ 32) 97) := rfl
  have low : (List.replicate (2 ^ 32) (97 : UInt8)).length % 2 ^ 32 = 0 := by
    rw [size, Nat.mod_self]
  have decoded := covers replacing .decodeUtf8 [] _ _ replacing_paced source admitted
  rw [callback_of_bytes source, decodeVector_of_lt (by rw [low]; decide), low,
    if_neg (Nat.not_lt_zero _)] at decoded
  rcases decoded with ⟨error, thrown⟩ | whole
  · cases thrown
  · have long : 2 ^ 31 ≤ (List.replicate (2 ^ 32) (97 : UInt8)).length := by
      rw [size]
      decide
    refine replacing_paced.decode_ne long ?_
      (Value.string.inj (Option.some.inj (Except.ok.inj whole)))
    exact (replacing_paced.length_le _).trans (Nat.zero_le _)

end Kode.Encoding
