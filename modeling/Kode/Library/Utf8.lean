/-
# Byte strings and UTF-8

A byte string carries its length; a C string ends at its first zero byte. The two
agree on every text without the character U+0000, because no other character has a
zero byte in its UTF-8 encoding, and they part at the first U+0000.
-/

import Mathlib.Data.List.TakeWhile

namespace Kode.Library

/-- A byte string of any content. -/
abbrev Bytes := List UInt8

/-- The UTF-8 encoding of a text. -/
def utf8 (text : List Char) : Bytes := text.flatMap String.utf8EncodeChar

/-- What a function sees that is given only a pointer to the bytes and a zero byte
behind them. -/
def cString (bytes : Bytes) : Bytes := bytes.takeWhile (· ≠ 0)

/-- The number of UTF-16 code units of a text, which is its length where a string is made of
these. -/
def utf16Length : List Char → ℕ
  | [] => 0
  | char :: text => (if char.toNat < 0x10000 then 1 else 2) + utf16Length text

/-- The bytes of a literal. -/
def bytesOf (literal : String) : Bytes := utf8 literal.toList

@[simp]
theorem utf8_nil : utf8 [] = [] := rfl

@[simp]
theorem utf8_cons (char : Char) (text : List Char) :
    utf8 (char :: text) = String.utf8EncodeChar char ++ utf8 text := rfl

theorem utf8_ascii {text : List Char} (ascii : ∀ char ∈ text, char.toNat < 128) :
    utf8 text = text.map fun char => UInt8.ofNat char.toNat := by
  induction text with
  | nil => rfl
  | cons char text ih =>
      have single : String.utf8EncodeChar char = [UInt8.ofNat char.toNat] := by
        have small : char.val.toNat ≤ 127 := Nat.le_of_lt_succ (ascii char (by simp))
        simp only [String.utf8EncodeChar, if_pos small]
        rfl
      rw [utf8_cons, single, ih fun other member => ascii other (by simp [member])]
      rfl

private theorem ofNat_ne_zero {value : ℕ} (positive : 0 < value) (byte : value < 256) :
    UInt8.ofNat value ≠ 0 := by
  intro zero
  have same := congrArg UInt8.toNat zero
  rw [UInt8.toNat_ofNat_of_lt' byte] at same
  exact Nat.ne_of_gt positive same

/-- Only U+0000 has a zero byte in its encoding. -/
theorem ne_zero_of_mem_utf8EncodeChar {char : Char} (notNull : char ≠ '\x00') {byte : UInt8}
    (member : byte ∈ String.utf8EncodeChar char) : byte ≠ 0 := by
  have positive : 0 < char.val.toNat := by
    refine Nat.pos_of_ne_zero fun zero => notNull (Char.ext ?_)
    exact UInt32.toNat_inj.mp zero
  unfold String.utf8EncodeChar at member
  dsimp only at member
  split_ifs at member <;> simp only [List.mem_cons, List.not_mem_nil, or_false] at member
  · subst member
    exact ofNat_ne_zero positive (by omega)
  · rcases member with rfl | rfl <;> exact ofNat_ne_zero (by omega) (by omega)
  · rcases member with rfl | rfl | rfl <;> exact ofNat_ne_zero (by omega) (by omega)
  · rcases member with rfl | rfl | rfl | rfl <;> exact ofNat_ne_zero (by omega) (by omega)

/-- A code unit takes one to three bytes in UTF-8. -/
theorem utf16Length_bounds (text : List Char) :
    utf16Length text ≤ (utf8 text).length ∧ (utf8 text).length ≤ 3 * utf16Length text := by
  induction text with
  | nil => exact ⟨Nat.le_refl 0, Nat.le_refl 0⟩
  | cons char text ih =>
      have size : (if char.toNat < 0x10000 then 1 else 2) ≤ char.utf8Size ∧
          char.utf8Size ≤ 3 * (if char.toNat < 0x10000 then 1 else 2) := by
        have value : char.toNat = char.val.toNat := rfl
        simp only [Char.utf8Size, UInt32.le_iff_toNat_le, value]
        split_ifs <;> simp_all <;> omega
      rw [utf8_cons, List.length_append, String.length_utf8EncodeChar, utf16Length]
      omega

theorem utf8_append (front back : List Char) : utf8 (front ++ back) = utf8 front ++ utf8 back :=
  List.flatMap_append

/-- A text can be recovered from its encoding. -/
theorem utf8_injective : Function.Injective utf8 := by
  intro first second same
  have decoded : ∀ text, (utf8 text).toByteArray.utf8Decode? = some text.toArray :=
    fun _ => List.utf8Decode?_utf8Encode
  have arrays : some first.toArray = some second.toArray := by
    rw [← decoded first, ← decoded second, same]
  exact congrArg Array.toList (Option.some.inj arrays)

/-- An ASCII byte occurs only in the encoding of its own character. -/
theorem toNat_of_mem_utf8EncodeChar {char : Char} {byte : UInt8}
    (member : byte ∈ String.utf8EncodeChar char) (ascii : byte.toNat < 128) :
    char.toNat = byte.toNat := by
  have continuation : ∀ {value : ℕ}, 128 ≤ value → value < 256 → UInt8.ofNat value ≠ byte := by
    rintro value high within rfl
    rw [UInt8.toNat_ofNat_of_lt' within] at ascii
    omega
  unfold String.utf8EncodeChar at member
  dsimp only at member
  split_ifs at member with one two three <;>
    simp only [List.mem_cons, List.not_mem_nil, or_false] at member
  · subst member
    exact (UInt8.toNat_ofNat_of_lt' (Nat.lt_of_le_of_lt one (by decide))).symm
  · rcases member with rfl | rfl <;> exact absurd rfl (continuation (by omega) (by omega))
  · rcases member with rfl | rfl | rfl <;> exact absurd rfl (continuation (by omega) (by omega))
  · rcases member with rfl | rfl | rfl | rfl <;>
      exact absurd rfl (continuation (by omega) (by omega))

/-- Cutting the encoding at its first zero byte is cutting the text at its first
U+0000. -/
theorem cString_utf8 (text : List Char) :
    cString (utf8 text) = utf8 (text.takeWhile (· ≠ '\x00')) := by
  induction text with
  | nil => rfl
  | cons char text ih =>
      by_cases null : char = '\x00'
      · subst null
        simp [cString, String.utf8EncodeChar]
      · have whole : ∀ byte ∈ String.utf8EncodeChar char, decide (byte ≠ 0) = true :=
          fun byte member => decide_eq_true (ne_zero_of_mem_utf8EncodeChar null member)
        have rest : cString (utf8 (char :: text)) =
            String.utf8EncodeChar char ++ cString (utf8 text) := by
          rw [utf8_cons, cString, List.takeWhile_append_of_pos whole, cString]
        rw [rest, ih, List.takeWhile_cons_of_pos (by simpa using null), utf8_cons]

theorem takeWhile_eq_self_iff_null {text : List Char} :
    text.takeWhile (· ≠ '\x00') = text ↔ '\x00' ∉ text := by
  rw [List.takeWhile_eq_self_iff]
  simp only [decide_eq_true_eq]
  constructor
  · intro clean member
    exact clean _ member rfl
  · rintro clean char member rfl
    exact clean member

end Kode.Library
