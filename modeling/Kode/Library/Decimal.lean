/-
# Decimal integers

An integer in decimal notation and how a program reads it: whitespace and a sign are
passed over, then the digits are read up to the first other character. A reader with a
limited number of bits has no result for an integer that does not fit.
-/

import Mathlib.Algebra.Order.Ring.Int
import Mathlib.Data.List.TakeWhile

namespace Kode.Library

/-- An integer in decimal notation: digits, with a minus sign before them if it is
negative. -/
structure Numeral where
  negative : Bool
  digits : List Char
  isDigit : ∀ c ∈ digits, c.isDigit = true
  some_digit : digits ≠ []

namespace Numeral

/-- The characters. -/
def text (numeral : Numeral) : List Char :=
  if numeral.negative then '-' :: numeral.digits else numeral.digits

/-- What the digits stand for. -/
def magnitude (numeral : Numeral) : ℕ := Nat.ofDigitChars 10 numeral.digits 0

/-- What the numeral stands for. -/
def value (numeral : Numeral) : ℤ :=
  if numeral.negative then -numeral.magnitude else numeral.magnitude

/-- The notation without leading zeros. -/
def ofInt (number : ℤ) : Numeral where
  negative := number < 0
  digits := Nat.toDigits 10 number.natAbs
  isDigit _ member := Nat.isDigit_of_mem_toDigits (by decide) (by decide) member
  some_digit := Nat.toDigits_ne_nil

theorem value_ofInt (number : ℤ) : (ofInt number).value = number := by
  simp only [value, magnitude, ofInt, Nat.ofDigitChars_ten_toDigits, decide_eq_true_eq]
  split_ifs with negative
  · omega
  · omega

theorem text_ne_nil (numeral : Numeral) : numeral.text ≠ [] := by
  rw [text]
  split_ifs
  · exact List.cons_ne_nil _ _
  · exact numeral.some_digit

theorem mem_text {numeral : Numeral} {c : Char} (member : c ∈ numeral.text) :
    c = '-' ∨ c.isDigit = true := by
  rw [text] at member
  split_ifs at member
  · rcases List.mem_cons.mp member with minus | digit
    · exact Or.inl minus
    · exact Or.inr (numeral.isDigit c digit)
  · exact Or.inr (numeral.isDigit c member)

end Numeral

/-- The characters that a reader passes over: those of `isspace`. -/
def isSpace (c : Char) : Bool :=
  c = ' ' ∨ c = '\t' ∨ c = '\n' ∨ c = '\x0b' ∨ c = '\x0c' ∨ c = '\r'

/-- The digits at the beginning of a text. -/
def readDigits (text : List Char) : Option ℕ :=
  let digits := text.takeWhile Char.isDigit
  if digits = [] then none else some (Nat.ofDigitChars 10 digits 0)

/-- The integer at the beginning of a text. -/
def readInteger (text : List Char) : Option ℤ :=
  match text.dropWhile isSpace with
  | '-' :: rest => (readDigits rest).map fun magnitude : ℕ => -(magnitude : ℤ)
  | '+' :: rest => (readDigits rest).map fun magnitude : ℕ => (magnitude : ℤ)
  | rest => (readDigits rest).map fun magnitude : ℕ => (magnitude : ℤ)

/-- The integer at the beginning of a text, if it is one of so many bits. -/
def readSigned (bits : ℕ) (text : List Char) : Option ℤ :=
  (readInteger text).filter fun number => -2 ^ (bits - 1) ≤ number ∧ number < 2 ^ (bits - 1)

theorem not_isSpace_of_isDigit {c : Char} (digit : c.isDigit = true) : isSpace c = false := by
  by_contra space
  simp only [isSpace, Bool.not_eq_false, decide_eq_true_eq] at space
  rcases space with rfl | rfl | rfl | rfl | rfl | rfl <;> exact absurd digit (by decide)

theorem readDigits_digits (numeral : Numeral) :
    readDigits numeral.digits = some numeral.magnitude := by
  have all : numeral.digits.takeWhile Char.isDigit = numeral.digits :=
    List.takeWhile_eq_self_iff.mpr numeral.isDigit
  rw [readDigits, all, if_neg numeral.some_digit, Numeral.magnitude]

/-- Reading undoes writing. -/
theorem readInteger_text (numeral : Numeral) : readInteger numeral.text = some numeral.value := by
  have read := readDigits_digits numeral
  rw [readInteger, Numeral.text, Numeral.value]
  cases numeral.negative with
  | true =>
      have minus : ¬ isSpace '-' = true := by decide
      simp only [if_true, List.dropWhile_cons_of_neg minus, read, Option.map_some]
  | false =>
      simp only [Bool.false_eq_true, if_false]
      cases digits : numeral.digits with
      | nil => exact absurd digits numeral.some_digit
      | cons c rest =>
          have digit : c.isDigit = true := numeral.isDigit c (by simp [digits])
          have space : ¬ isSpace c = true := by simp [not_isSpace_of_isDigit digit]
          rw [List.dropWhile_cons_of_neg space, ← digits]
          split
          · rename_i sign
            rw [digits] at sign
            obtain ⟨rfl, -⟩ := List.cons.inj sign
            exact absurd digit (by decide)
          · rename_i sign
            rw [digits] at sign
            obtain ⟨rfl, -⟩ := List.cons.inj sign
            exact absurd digit (by decide)
          · rw [read, Option.map_some]

theorem readSigned_text (bits : ℕ) (numeral : Numeral) :
    readSigned bits numeral.text =
      if -2 ^ (bits - 1) ≤ numeral.value ∧ numeral.value < 2 ^ (bits - 1) then some numeral.value
      else none := by
  rw [readSigned, readInteger_text, Option.filter_some]
  simp only [decide_eq_true_eq]

end Kode.Library
