/-
# JSON

A reader for JSON texts: objects, arrays, strings with their escapes, numbers, and the
three names, with white space between the tokens. Objects are kept as the list of their
members in the order of the text. A number is the rational number that it denotes. An
escaped surrogate without its partner reads as U+FFFD.

The last results say when a text that a program has put between two quotes reads back as
itself. Enough characters break it, and no luck in what follows repairs it: the reader
would have to produce, from a later part of the text, characters that it has not seen.
-/

import Mathlib.Algebra.Field.Rat
import Mathlib.Algebra.GroupWithZero.Nat
import Mathlib.Data.List.TakeWhile

namespace Kode.Library

/-- A JSON value. -/
inductive Json
  | null
  | bool (value : Bool)
  | number (value : ℚ)
  | string (text : List Char)
  | array (elements : List Json)
  | object (members : List (List Char × Json))

namespace Json

/-! ## Strings -/

/-- The value of a hexadecimal digit. -/
def hexDigit? (char : Char) : Option ℕ :=
  if '0' ≤ char ∧ char ≤ '9' then some (char.toNat - 48)
  else if 'a' ≤ char ∧ char ≤ 'f' then some (char.toNat - 87)
  else if 'A' ≤ char ∧ char ≤ 'F' then some (char.toNat - 55)
  else none

/-- Four hexadecimal digits. -/
def readHex : List Char → Option (ℕ × List Char)
  | a :: b :: c :: d :: rest => do
      let a ← hexDigit? a
      let b ← hexDigit? b
      let c ← hexDigit? c
      let d ← hexDigit? d
      some (((a * 16 + b) * 16 + c) * 16 + d, rest)
  | _ => none

/-- The second half of a surrogate pair. -/
def readLow (high : ℕ) (rest : List Char) : Option (Char × List Char) :=
  match rest with
  | '\\' :: 'u' :: digits =>
      match readHex digits with
      | some (low, after) =>
          if 0xDC00 ≤ low ∧ low < 0xE000 then
            some (Char.ofNat (0x10000 + (high - 0xD800) * 0x400 + (low - 0xDC00)), after)
          else some ('\uFFFD', rest)
      | none => some ('\uFFFD', rest)
  | _ => some ('\uFFFD', rest)

/-- What stands behind a backslash. -/
def readEscape : List Char → Option (Char × List Char)
  | '"' :: rest => some ('"', rest)
  | '\\' :: rest => some ('\\', rest)
  | '/' :: rest => some ('/', rest)
  | 'b' :: rest => some ('\x08', rest)
  | 'f' :: rest => some ('\x0c', rest)
  | 'n' :: rest => some ('\n', rest)
  | 'r' :: rest => some ('\r', rest)
  | 't' :: rest => some ('\t', rest)
  | 'u' :: digits =>
      match readHex digits with
      | some (unit, rest) =>
          if 0xD800 ≤ unit ∧ unit < 0xDC00 then readLow unit rest
          else if 0xDC00 ≤ unit ∧ unit < 0xE000 then some ('\uFFFD', rest)
          else some (Char.ofNat unit, rest)
      | none => none
  | _ => none

theorem hexDigit?_quote : hexDigit? '"' = none := by decide

theorem readHex_eq_some {text rest : List Char} {unit : ℕ}
    (read : readHex text = some (unit, rest)) :
    ∃ digits, text = digits ++ rest ∧ '"' ∉ digits := by
  match text with
  | a :: b :: c :: d :: tail =>
      simp only [readHex, Option.bind_eq_bind, Option.bind_eq_some_iff, Option.some.injEq,
        Prod.mk.injEq] at read
      obtain ⟨_, isA, _, isB, _, isC, _, isD, -, rfl⟩ := read
      refine ⟨[a, b, c, d], rfl, ?_⟩
      have quote := hexDigit?_quote
      simp only [List.mem_cons, List.not_mem_nil, or_false]
      rintro (rfl | rfl | rfl | rfl) <;> simp_all
  | [] | [_] | [_, _] | [_, _, _] => cases read

theorem readLow_eq_some {high : ℕ} {text rest : List Char} {char : Char}
    (read : readLow high text = some (char, rest)) :
    ∃ digits, text = digits ++ rest ∧ '"' ∉ digits := by
  have stay : ∀ {other : List Char}, some ('\uFFFD', text) = some (char, other) →
      ∃ digits, text = digits ++ other ∧ '"' ∉ digits := by
    intro other same
    obtain ⟨-, rfl⟩ := Prod.mk.inj (Option.some.inj same)
    exact ⟨[], rfl, List.not_mem_nil⟩
  unfold readLow at read
  split at read
  · rename_i digits
    split at read
    · rename_i low after hex
      split_ifs at read
      · obtain ⟨-, rfl⟩ := Prod.mk.inj (Option.some.inj read)
        obtain ⟨four, rfl, clean⟩ := readHex_eq_some hex
        exact ⟨'\\' :: 'u' :: four, rfl, by simpa using clean⟩
      · exact stay read
    · exact stay read
  · exact stay read

/-- An escape is the escape of a quote, or there is no quote in it. -/
theorem readEscape_eq_some {text rest : List Char} {char : Char}
    (read : readEscape text = some (char, rest)) :
    ∃ escape, text = escape ++ rest ∧ escape ≠ [] ∧
      ('"' ∉ escape ∨ char = '"' ∧ escape = ['"']) := by
  have single : ∀ {first decoded : Char} {tail : List Char},
      some (decoded, tail) = some (char, rest) → first ≠ '"' →
        ∃ escape, first :: tail = escape ++ rest ∧ escape ≠ [] ∧
          ('"' ∉ escape ∨ char = '"' ∧ escape = ['"']) := by
    intro first decoded tail same plain
    obtain ⟨-, rfl⟩ := Prod.mk.inj (Option.some.inj same)
    exact ⟨[first], rfl, List.cons_ne_nil _ _, Or.inl (by simpa using plain.symm)⟩
  unfold readEscape at read
  split at read
  case h_1 tail =>
      obtain ⟨rfl, rfl⟩ := Prod.mk.inj (Option.some.inj read)
      exact ⟨['"'], rfl, List.cons_ne_nil _ _, Or.inr ⟨rfl, rfl⟩⟩
  case h_9 digits =>
      split at read
      · rename_i unit after hex
        obtain ⟨four, rfl, clean⟩ := readHex_eq_some hex
        split_ifs at read
        · obtain ⟨more, rfl, free⟩ := readLow_eq_some read
          refine ⟨'u' :: four ++ more, by simp, List.cons_ne_nil _ _, Or.inl ?_⟩
          simp [clean, free]
        · obtain ⟨-, rfl⟩ := Prod.mk.inj (Option.some.inj read)
          exact ⟨'u' :: four, rfl, List.cons_ne_nil _ _, Or.inl (by simpa using clean)⟩
        · obtain ⟨-, rfl⟩ := Prod.mk.inj (Option.some.inj read)
          exact ⟨'u' :: four, rfl, List.cons_ne_nil _ _, Or.inl (by simpa using clean)⟩
      · cases read
  case h_10 => cases read
  all_goals exact single read (by decide)

theorem length_of_readEscape {text rest : List Char} {char : Char}
    (read : readEscape text = some (char, rest)) : rest.length < text.length := by
  obtain ⟨escape, rfl, some_char, -⟩ := readEscape_eq_some read
  have positive := List.length_pos_iff.mpr some_char
  rw [List.length_append]
  omega

/-- A string, behind its opening quote. -/
def readString : List Char → Option (List Char × List Char)
  | [] => none
  | char :: rest =>
      if char = '"' then some ([], rest)
      else if char = '\\' then
        match _read : readEscape rest with
        | none => none
        | some (decoded, after) =>
            (readString after).map fun (text, tail) => (decoded :: text, tail)
      else if char.toNat < 0x20 then none
      else (readString rest).map fun (text, tail) => (char :: text, tail)
  termination_by text => text.length
  decreasing_by
  · have shorter := length_of_readEscape _read
    rw [List.length_cons]
    omega
  · exact Nat.lt_succ_self _

theorem readString_quote (rest : List Char) : readString ('"' :: rest) = some ([], rest) := by
  rw [readString, if_pos rfl]

theorem readString_plain {char : Char} (quote : char ≠ '"') (backslash : char ≠ '\\')
    (printable : 0x20 ≤ char.toNat) (rest : List Char) :
    readString (char :: rest) =
      (readString rest).map fun (text, tail) => (char :: text, tail) := by
  rw [readString, if_neg quote, if_neg backslash, if_neg (Nat.not_lt.mpr printable)]

/-- The first character of a string that is read. -/
theorem readString_cons_eq_some {char : Char} {rest text tail : List Char}
    (read : readString (char :: rest) = some (text, tail)) (quote : char ≠ '"') :
    ∃ decoded after shorter, text = decoded :: shorter ∧ readString after = some (shorter, tail) ∧
      (char ≠ '\\' ∧ 0x20 ≤ char.toNat ∧ decoded = char ∧ after = rest ∨
        char = '\\' ∧ readEscape rest = some (decoded, after)) := by
  rw [readString, if_neg quote] at read
  split_ifs at read with backslash control
  · split at read
    · cases read
    · rename_i decoded after escape
      obtain ⟨⟨shorter, last⟩, later, same⟩ := Option.map_eq_some_iff.mp read
      obtain ⟨rfl, rfl⟩ := Prod.mk.inj same
      exact ⟨decoded, after, shorter, rfl, later, Or.inr ⟨backslash, escape⟩⟩
  · obtain ⟨⟨shorter, last⟩, later, same⟩ := Option.map_eq_some_iff.mp read
    obtain ⟨rfl, rfl⟩ := Prod.mk.inj same
    exact ⟨char, rest, shorter, rfl, later,
      Or.inl ⟨backslash, Nat.le_of_not_lt control, rfl, rfl⟩⟩

/-- The texts that stand for themselves between quotes. -/
def Clean (text : List Char) : Prop :=
  ∀ char ∈ text, char ≠ '"' ∧ char ≠ '\\' ∧ 0x20 ≤ char.toNat

instance (text : List Char) : Decidable (Clean text) :=
  List.decidableBAll _ text

theorem readString_clean {text : List Char} (clean : Clean text) (rest : List Char) :
    readString (text ++ '"' :: rest) = some (text, rest) := by
  induction text with
  | nil => exact readString_quote rest
  | cons char text ih =>
      obtain ⟨quote, backslash, printable⟩ := clean char List.mem_cons_self
      rw [List.cons_append, readString_plain quote backslash printable,
        ih fun other member => clean other (List.mem_cons_of_mem _ member)]
      rfl

/-- An escape at the end of a text takes a part of the text, or the quote behind it. -/
theorem readEscape_append {text rest after : List Char} {decoded : Char}
    (read : readEscape (text ++ '"' :: rest) = some (decoded, after)) :
    decoded = '"' ∨ ∃ escape remaining, text = escape ++ remaining ∧ escape ≠ [] ∧
      '"' ∉ escape ∧ after = remaining ++ '"' :: rest := by
  obtain ⟨escape, split, some_char, clean | ⟨quote, -⟩⟩ := readEscape_eq_some read
  · right
    rcases List.append_eq_append_iff.mp split with ⟨more, rfl, beyond⟩ | ⟨remaining, rfl, same⟩
    · cases more with
      | nil => exact ⟨text, [], by simp, by simpa using some_char, by simpa using clean,
          by simpa using beyond.symm⟩
      | cons first more =>
          obtain ⟨rfl, -⟩ := List.cons.inj beyond
          exact absurd (by simp) clean
    · exact ⟨escape, remaining, rfl, some_char, clean, same⟩
  · exact Or.inl quote

/-- Once the reader lags behind, it cannot catch up: it never produces the characters
`ahead` that it has skipped together with those it still has to read. -/
theorem readString_ne_ahead {ahead text rest tail : List Char} (some_char : ahead ≠ [])
    (clean : '"' ∉ ahead) :
    readString (text ++ '"' :: rest) ≠ some (ahead ++ text, tail) := by
  -- Each character read moves from the text to the end of `ahead`.
  induction length : text.length using Nat.strong_induction_on generalizing ahead text with
  | _ size ih =>
      intro read
      obtain ⟨first, ahead, rfl⟩ := List.exists_cons_of_ne_nil some_char
      cases text with
      | nil =>
          rw [List.nil_append, readString_quote] at read
          cases read
      | cons char text =>
          by_cases quote : char = '"'
          · subst quote
            rw [List.cons_append, readString_quote] at read
            cases read
          · obtain ⟨decoded, after, shorter, same, later, plain | escaped⟩ :=
              readString_cons_eq_some read quote
            · obtain ⟨-, -, rfl, rfl⟩ := plain
              obtain ⟨rfl, rfl⟩ := List.cons.inj same
              have moved : '"' ∉ ahead ++ [first] := by simp_all
              have never : readString (text ++ '"' :: rest) ≠
                  some (ahead ++ [first] ++ text, tail) :=
                ih text.length (by simp [← length]) (by simp) moved rfl
              exact never (by simpa using later)
            · obtain ⟨rfl, escape⟩ := escaped
              obtain ⟨rfl, rfl⟩ := List.cons.inj same
              rcases readEscape_append escape with rfl | ⟨part, remaining, rfl, -, free, rfl⟩
              · simp at clean
              · have moved : '"' ∉ ahead ++ '\\' :: part := by simp_all
                have less : remaining.length < size := by
                  rw [← length, List.length_cons, List.length_append]
                  omega
                have never : readString (remaining ++ '"' :: rest) ≠
                    some (ahead ++ '\\' :: part ++ remaining, tail) :=
                  ih remaining.length less (by simp) moved rfl
                exact never (by simpa using later)

/-- A text between quotes reads back as itself if and only if it is clean. -/
theorem readString_eq_self_iff {text rest tail : List Char} :
    readString (text ++ '"' :: rest) = some (text, tail) ↔ Clean text ∧ tail = rest := by
  constructor
  · intro read
    induction text with
    | nil =>
        rw [List.nil_append, readString_quote] at read
        obtain ⟨-, rfl⟩ := Prod.mk.inj (Option.some.inj read)
        exact ⟨fun _ member => absurd member List.not_mem_nil, rfl⟩
    | cons char text ih =>
        by_cases quote : char = '"'
        · subst quote
          rw [List.cons_append, readString_quote] at read
          cases read
        · obtain ⟨decoded, after, shorter, same, later, plain | escaped⟩ :=
            readString_cons_eq_some read quote
          · obtain ⟨backslash, printable, rfl, rfl⟩ := plain
            obtain ⟨-, rfl⟩ := List.cons.inj same
            obtain ⟨clean, rfl⟩ := ih later
            refine ⟨fun other member => ?_, rfl⟩
            rcases List.mem_cons.mp member with rfl | member
            · exact ⟨quote, backslash, printable⟩
            · exact clean other member
          · -- The escape of a backslash leaves the reader behind.
            obtain ⟨rfl, escape⟩ := escaped
            obtain ⟨rfl, rfl⟩ := List.cons.inj same
            rcases readEscape_append escape with
              wrong | ⟨part, remaining, rfl, some_char, free, rfl⟩
            · exact absurd wrong (by decide)
            · exact absurd later (readString_ne_ahead some_char free)
  · rintro ⟨clean, rfl⟩
    exact readString_clean clean tail

/-! ## Numbers -/

/-- The digits behind a decimal point, if there is one. -/
def readFraction : List Char → Option (List Char × List Char)
  | '.' :: rest =>
      if rest.takeWhile Char.isDigit = [] then none
      else some (rest.takeWhile Char.isDigit, rest.dropWhile Char.isDigit)
  | text => some ([], text)

/-- The sign of an exponent. -/
def readSign : List Char → Bool × List Char
  | '-' :: rest => (true, rest)
  | '+' :: rest => (false, rest)
  | text => (false, text)

/-- The power of ten behind an `e`, if there is one. -/
def readExponent : List Char → Option (ℚ × List Char)
  | [] => some (1, [])
  | char :: rest =>
      if char = 'e' ∨ char = 'E' then
        let (negative, digits) := readSign rest
        if digits.takeWhile Char.isDigit = [] then none
        else
          let power : ℚ := 10 ^ Nat.ofDigitChars 10 (digits.takeWhile Char.isDigit) 0
          some (if negative then 1 / power else power, digits.dropWhile Char.isDigit)
      else some (1, char :: rest)

/-- A number without its sign. No digit follows a leading zero. -/
def readUnsigned (text : List Char) : Option (ℚ × List Char) :=
  let whole := text.takeWhile Char.isDigit
  if whole = [] ∨ (whole.head? = some '0' ∧ whole ≠ ['0']) then none
  else do
    let (fraction, rest) ← readFraction (text.dropWhile Char.isDigit)
    let (power, rest) ← readExponent rest
    some ((Nat.ofDigitChars 10 whole 0 +
      Nat.ofDigitChars 10 fraction 0 / 10 ^ fraction.length) * power, rest)

/-- A number. -/
def readNumber : List Char → Option (ℚ × List Char)
  | '-' :: rest => (readUnsigned rest).map fun (value, rest) => (-value, rest)
  | text => readUnsigned text

/-- A number cannot go on with this text. -/
def NumberEnd (rest : List Char) : Prop :=
  ∀ char ∈ rest.head?, char.isDigit = false ∧ char ≠ '.' ∧ char ≠ 'e' ∧ char ≠ 'E'

theorem numberEnd_cons {char : Char} (digit : char.isDigit = false)
    (others : char ≠ '.' ∧ char ≠ 'e' ∧ char ≠ 'E') (rest : List Char) :
    NumberEnd (char :: rest) := by
  rintro _ ⟨⟩
  exact ⟨digit, others⟩

theorem head?_toDigits {number : ℕ} (zero : (Nat.toDigits 10 number).head? = some '0') :
    number = 0 := by
  induction number using Nat.strong_induction_on with
  | _ number ih =>
      by_cases small : number < 10
      · rw [Nat.toDigits_of_lt_base small] at zero
        exact Nat.digitChar_eq_zero.mp (Option.some.inj zero)
      · rw [Nat.toDigits_of_base_le (by decide) (Nat.le_of_not_lt small)] at zero
        have front : (Nat.toDigits 10 (number / 10)).head? = some '0' := by
          cases digits : Nat.toDigits 10 (number / 10) with
          | nil => exact absurd digits Nat.toDigits_ne_nil
          | cons char more =>
              rw [digits] at zero
              exact zero
        have less := ih (number / 10) (Nat.div_lt_self (by omega) (by decide)) front
        omega

theorem isDigit_toDigits {number : ℕ} {char : Char} (member : char ∈ Nat.toDigits 10 number) :
    char.isDigit = true :=
  Nat.isDigit_of_mem_toDigits (by decide) (by decide) member

theorem takeWhile_toDigits (number : ℕ) {rest : List Char} (ends : NumberEnd rest) :
    (Nat.toDigits 10 number ++ rest).takeWhile Char.isDigit = Nat.toDigits 10 number ∧
      (Nat.toDigits 10 number ++ rest).dropWhile Char.isDigit = rest := by
  have digits : ∀ char ∈ Nat.toDigits 10 number, char.isDigit = true :=
    fun _ => isDigit_toDigits
  rw [List.takeWhile_append_of_pos digits, List.dropWhile_append_of_pos digits]
  cases rest with
  | nil => simp
  | cons char rest =>
      have stop : ¬ char.isDigit = true := by simp [(ends char rfl).1]
      rw [List.takeWhile_cons_of_neg stop, List.dropWhile_cons_of_neg stop, List.append_nil]
      exact ⟨rfl, rfl⟩

theorem readFraction_of_end {rest : List Char} (ends : NumberEnd rest) :
    readFraction rest = some ([], rest) := by
  unfold readFraction
  split
  · exact absurd rfl (ends '.' rfl).2.1
  · rfl

theorem readExponent_of_end {rest : List Char} (ends : NumberEnd rest) :
    readExponent rest = some (1, rest) := by
  cases rest with
  | nil => rfl
  | cons char rest =>
      obtain ⟨-, -, small, capital⟩ := ends char rfl
      rw [readExponent, if_neg (by simp [small, capital])]

theorem readUnsigned_toDigits (number : ℕ) {rest : List Char} (ends : NumberEnd rest) :
    readUnsigned (Nat.toDigits 10 number ++ rest) = some ((number : ℚ), rest) := by
  obtain ⟨whole, remaining⟩ := takeWhile_toDigits number ends
  have leading : ¬ (Nat.toDigits 10 number = [] ∨
      ((Nat.toDigits 10 number).head? = some '0' ∧ Nat.toDigits 10 number ≠ ['0'])) := by
    rintro (empty | ⟨zero, more⟩)
    · exact Nat.toDigits_ne_nil empty
    · rw [head?_toDigits zero] at more
      exact more (Nat.toDigits_zero 10)
  simp only [readUnsigned, whole, remaining, if_neg leading, readFraction_of_end ends,
    readExponent_of_end ends, Option.bind_eq_bind, Option.bind_some, Nat.ofDigitChars_ten_toDigits,
    Nat.ofDigitChars_nil]
  simp

theorem toList_toString_ofNat (number : ℕ) :
    (toString (Int.ofNat number)).toList = Nat.toDigits 10 number :=
  Nat.toList_repr

theorem toList_toString_negSucc (number : ℕ) :
    (toString (Int.negSucc number)).toList = '-' :: Nat.toDigits 10 (number + 1) := by
  show ("-" ++ Nat.repr (number + 1)).toList = _
  rw [String.toList_append, Nat.toList_repr]
  rfl

theorem toDigits_eq_cons (number : ℕ) :
    ∃ char more, Nat.toDigits 10 number = char :: more ∧ char.isDigit = true := by
  cases digits : Nat.toDigits 10 number with
  | nil => exact absurd digits Nat.toDigits_ne_nil
  | cons char more =>
      have member : char ∈ Nat.toDigits 10 number := by
        rw [digits]
        exact List.mem_cons_self
      exact ⟨char, more, rfl, isDigit_toDigits member⟩

/-- An integer starts with its sign or a digit. -/
theorem toString_int_cons (number : ℤ) :
    ∃ char more, (toString number).toList = char :: more ∧
      (char = '-' ∨ char.isDigit = true) := by
  cases number with
  | ofNat number =>
      obtain ⟨char, more, digits, digit⟩ := toDigits_eq_cons number
      exact ⟨char, more, (toList_toString_ofNat number).trans digits, Or.inr digit⟩
  | negSucc number => exact ⟨'-', _, toList_toString_negSucc number, Or.inl rfl⟩

/-- An integer reads back. -/
theorem readNumber_toString (number : ℤ) {rest : List Char} (ends : NumberEnd rest) :
    readNumber ((toString number).toList ++ rest) = some ((number : ℚ), rest) := by
  cases number with
  | ofNat number =>
      have unsigned := readUnsigned_toDigits number ends
      rw [toList_toString_ofNat]
      unfold readNumber
      split
      · rename_i tail same
        obtain ⟨char, more, digits, digit⟩ := toDigits_eq_cons number
        rw [digits] at same
        rw [(List.cons.inj same).1] at digit
        cases digit
      · exact unsigned
  | negSucc number =>
      rw [toList_toString_negSucc, List.cons_append, readNumber, readUnsigned_toDigits _ ends]
      simp [Int.negSucc_eq]

/-! ## Values -/

/-- White space between tokens. -/
def isSpace (char : Char) : Bool := char = ' ' ∨ char = '\t' ∨ char = '\n' ∨ char = '\r'

def skip (text : List Char) : List Char := text.dropWhile isSpace

/-- What follows an item of an object or an array: a comma and more items, or the end. -/
def separated {α : Type} (close : Char) (more : List Char → Option (List α × List Char))
    (item : α) (rest : List Char) : Option (List α × List Char) :=
  match skip rest with
  | [] => none
  | char :: rest =>
      if char = ',' then (more rest).map fun (items, rest) => (item :: items, rest)
      else if char = close then some ([item], rest)
      else none

mutual

/-- A value. The number bounds the depth and the number of items. -/
def readValue : ℕ → List Char → Option (Json × List Char)
  | 0, _ => none
  | fuel + 1, text =>
      match skip text with
      | '"' :: rest => (readString rest).map fun (text, rest) => (.string text, rest)
      | '\x7b' :: rest =>
          match skip rest with
          | '\x7d' :: rest => some (.object [], rest)
          | rest => (readMembers fuel rest).map fun (members, rest) => (.object members, rest)
      | '[' :: rest =>
          match skip rest with
          | ']' :: rest => some (.array [], rest)
          | rest => (readElements fuel rest).map fun (elements, rest) => (.array elements, rest)
      | 't' :: 'r' :: 'u' :: 'e' :: rest => some (.bool true, rest)
      | 'f' :: 'a' :: 'l' :: 's' :: 'e' :: rest => some (.bool false, rest)
      | 'n' :: 'u' :: 'l' :: 'l' :: rest => some (.null, rest)
      | rest => (readNumber rest).map fun (value, rest) => (.number value, rest)

/-- The members of an object, up to its closing brace. -/
def readMembers : ℕ → List Char → Option (List (List Char × Json) × List Char)
  | 0, _ => none
  | fuel + 1, text =>
      match skip text with
      | '"' :: rest => do
          let (name, rest) ← readString rest
          match skip rest with
          | ':' :: rest => do
              let (value, rest) ← readValue fuel rest
              separated '\x7d' (readMembers fuel) (name, value) rest
          | _ => none
      | _ => none

/-- The elements of an array, up to its closing bracket. -/
def readElements : ℕ → List Char → Option (List Json × List Char)
  | 0, _ => none
  | fuel + 1, text => do
      let (value, rest) ← readValue fuel text
      separated ']' (readElements fuel) value rest

end

/-- The value of a JSON text. -/
def parse (text : List Char) : Option Json :=
  match readValue (text.length + 1) text with
  | some (value, rest) => if skip rest = [] then some value else none
  | none => none

theorem readValue_of_parse {text : List Char} {value : Json} (parsed : parse text = some value) :
    ∃ rest, readValue (text.length + 1) text = some (value, rest) := by
  unfold parse at parsed
  split at parsed
  · rename_i read rest found
    split_ifs at parsed
    obtain rfl := Option.some.inj parsed
    exact ⟨rest, found⟩
  · cases parsed

theorem skip_cons {char : Char} (visible : isSpace char = false) (rest : List Char) :
    skip (char :: rest) = char :: rest :=
  List.dropWhile_cons_of_neg (by simp [visible])

theorem separated_comma {α : Type} (close : Char) (more : List Char → Option (List α × List Char))
    (item : α) (rest : List Char) :
    separated close more item (',' :: rest) =
      (more rest).map fun read => (item :: read.1, read.2) := by
  rw [separated, skip_cons rfl]
  exact if_pos rfl

/-- The item itself comes first. -/
theorem head?_of_separated {α : Type} {close : Char}
    {more : List Char → Option (List α × List Char)} {item : α} {rest tail : List Char}
    {items : List α} (read : separated close more item rest = some (items, tail)) :
    items.head? = some item := by
  unfold separated at read
  split at read
  · cases read
  · split_ifs at read
    · obtain ⟨_, -, same⟩ := Option.map_eq_some_iff.mp read
      obtain ⟨rfl, -⟩ := Prod.mk.inj same
      rfl
    · obtain ⟨rfl, -⟩ := Prod.mk.inj (Option.some.inj read)
      rfl

theorem separated_close {α : Type} (more : List Char → Option (List α × List Char)) (item : α)
    (rest : List Char) : separated '\x7d' more item ('\x7d' :: rest) = some ([item], rest) := by
  rw [separated, skip_cons rfl]
  rfl

theorem readValue_string (fuel : ℕ) (text : List Char) :
    readValue (fuel + 1) ('"' :: text) =
      (readString text).map fun read => (.string read.1, read.2) := by
  rw [readValue, skip_cons rfl]
  rfl

theorem readValue_bool (fuel : ℕ) (value : Bool) (rest : List Char) :
    readValue (fuel + 1) ((if value then "true" else "false").toList ++ rest) =
      some (.bool value, rest) := by
  cases value <;> rw [readValue] <;> rfl

theorem readValue_number (fuel : ℕ) {char : Char} (starts : char = '-' ∨ char.isDigit = true)
    (rest : List Char) :
    readValue (fuel + 1) (char :: rest) =
      (readNumber (char :: rest)).map fun read => (.number read.1, read.2) := by
  have other : ∀ token : Char, token.isDigit = false → token ≠ '-' → char ≠ token := by
    rintro token digit minus rfl
    rcases starts with rfl | isDigit
    · exact minus rfl
    · exact absurd (digit.symm.trans isDigit) Bool.false_ne_true
  have visible : isSpace char = false := by
    simp [isSpace, other]
  rw [readValue, skip_cons visible]
  split
  case h_7 => rfl
  all_goals
    rename_i same
    exact absurd (List.cons.inj same).1 (other _ (by decide) (by decide))

theorem readValue_int (fuel : ℕ) (number : ℤ) {rest : List Char} (ends : NumberEnd rest) :
    readValue (fuel + 1) ((toString number).toList ++ rest) =
      some (.number number, rest) := by
  obtain ⟨char, more, split, starts⟩ := toString_int_cons number
  rw [split, List.cons_append, readValue_number fuel starts, ← List.cons_append, ← split,
    readNumber_toString number ends]
  rfl

theorem readValue_object (fuel : ℕ) (text : List Char) :
    readValue (fuel + 1) ('\x7b' :: '"' :: text) =
      (readMembers fuel ('"' :: text)).map fun read => (.object read.1, read.2) := by
  rw [readValue, skip_cons rfl]
  rfl

theorem readMembers_member (fuel : ℕ) {name : List Char} (clean : Clean name)
    (text : List Char) :
    readMembers (fuel + 1) ('"' :: (name ++ '"' :: ':' :: text)) =
      (readValue fuel text).bind fun read =>
        separated '\x7d' (readMembers fuel) (name, read.1) read.2 := by
  rw [readMembers, skip_cons rfl]
  change Option.bind (readString (name ++ '"' :: ':' :: text)) _ = _
  rw [readString_clean clean]
  rfl

end Json

end Kode.Library
