/-
# HTTP/1.1 responses

A reference reader for a response, after the grammar of the protocol: a status line,
field lines up to the first empty line, and a body whose length is the value of the only
`Content-Length` field. Whatever follows the body is left over.

A reader that has accepted a message accepts the same message from any longer input, and
leaves more over. Every field that it accepts has a token for a name and no blanks at
the ends of its value, and it reads back what is rendered from such fields.
-/

import Kode.Library.Utf8
import Mathlib.Data.List.DropRight

namespace Kode.Library

/-- A property of all bytes of a list is decided along the list, and not for each of the
256 bytes. -/
local instance (priority := 1500) decidableForallMem (property : UInt8 → Prop)
    [DecidablePred property] (bytes : Bytes) : Decidable (∀ byte ∈ bytes, property byte) :=
  List.decidableBAll property bytes

/-! ## Decimal numbers -/

/-- A decimal digit. -/
def IsDigit (byte : UInt8) : Prop := 48 ≤ byte.toNat ∧ byte.toNat ≤ 57

instance : DecidablePred IsDigit := fun _ => inferInstanceAs (Decidable (_ ∧ _))

/-- The value of one or more decimal digits. -/
def decimal (digits : Bytes) : Option ℕ :=
  if digits ≠ [] ∧ ∀ digit ∈ digits, IsDigit digit then
    some (digits.foldl (fun value digit => 10 * value + (digit.toNat - 48)) 0)
  else none

theorem toNat_of_isDigit {char : Char} (digit : char.isDigit = true) :
    48 ≤ char.toNat ∧ char.toNat ≤ 57 := by
  simp only [Char.isDigit, Bool.and_eq_true, decide_eq_true_eq] at digit
  exact ⟨digit.1, digit.2⟩

theorem mem_toDigits {number : ℕ} {char : Char} (member : char ∈ Nat.toDigits 10 number) :
    48 ≤ char.toNat ∧ char.toNat ≤ 57 :=
  toNat_of_isDigit (Nat.isDigit_of_mem_toDigits (by decide) (by decide) member)

/-- The bytes of a number. -/
theorem bytesOf_toString (number : ℕ) :
    bytesOf (toString number) =
      (Nat.toDigits 10 number).map fun char => UInt8.ofNat char.toNat := by
  show utf8 (Nat.repr number).toList = _
  rw [Nat.toList_repr]
  exact utf8_ascii fun char member => by
    have range := mem_toDigits member
    omega

theorem isDigit_of_mem_toString {number : ℕ} {byte : UInt8}
    (member : byte ∈ bytesOf (toString number)) : IsDigit byte := by
  rw [bytesOf_toString, List.mem_map] at member
  obtain ⟨char, member, rfl⟩ := member
  have range := mem_toDigits member
  show 48 ≤ (UInt8.ofNat char.toNat).toNat ∧ (UInt8.ofNat char.toNat).toNat ≤ 57
  rw [UInt8.toNat_ofNat_of_lt' (Nat.lt_of_le_of_lt range.2 (by decide))]
  exact range

theorem foldl_digits (chars : List Char) (digits : ∀ char ∈ chars, char.toNat ≤ 57)
    (value : ℕ) :
    (chars.map fun char => UInt8.ofNat char.toNat).foldl
        (fun value digit => 10 * value + (digit.toNat - 48)) value =
      Nat.ofDigitChars 10 chars value := by
  induction chars generalizing value with
  | nil => rfl
  | cons char chars ih =>
      have byte : (UInt8.ofNat char.toNat).toNat = char.toNat :=
        UInt8.toNat_ofNat_of_lt' (Nat.lt_of_le_of_lt (digits char (by simp)) (by decide))
      rw [List.map_cons, List.foldl_cons, byte, Nat.ofDigitChars_cons]
      exact ih (fun other member => digits other (by simp [member])) _

/-- A number reads back. -/
theorem decimal_toString (number : ℕ) : decimal (bytesOf (toString number)) = some number := by
  have digits : ∀ digit ∈ bytesOf (toString number), IsDigit digit :=
    fun _ => isDigit_of_mem_toString
  have some_digit : bytesOf (toString number) ≠ [] := by
    rw [bytesOf_toString]
    simp [Nat.toDigits_ne_nil]
  unfold decimal
  rw [if_pos ⟨some_digit, digits⟩, bytesOf_toString,
    foldl_digits _ (fun char member => (mem_toDigits member).2), Nat.ofDigitChars_ten_toDigits]

/-- Three digits. -/
theorem length_toString_eq_three {number : ℕ} :
    (bytesOf (toString number)).length = 3 ↔ 100 ≤ number ∧ number ≤ 999 := by
  have two := Nat.length_toDigits_le_iff (b := 10) (n := number) (k := 2) (by decide) (by decide)
  have three := Nat.length_toDigits_le_iff (b := 10) (n := number) (k := 3) (by decide) (by decide)
  rw [bytesOf_toString, List.length_map]
  rw [show (10 : ℕ) ^ 2 = 100 from rfl] at two
  rw [show (10 : ℕ) ^ 3 = 1000 from rfl] at three
  omega

namespace HttpMessage

/-! ## Lines -/

/-- The end of a line. -/
def crlf : Bytes := [13, 10]

/-- The bytes up to the first CRLF, and those behind it. -/
def splitLine : Bytes → Option (Bytes × Bytes)
  | [] => none
  | byte :: rest =>
      if byte = 13 ∧ rest.head? = some 10 then some ([], rest.tail)
      else (splitLine rest).map fun split => (byte :: split.1, split.2)

section

variable {bytes line rest : Bytes}

theorem splitLine_append (clean : (13 : UInt8) ∉ line) :
    splitLine (line ++ crlf ++ rest) = some (line, rest) := by
  induction line with
  | nil => rfl
  | cons byte line ih =>
      have other : ¬ byte = 13 := fun same => clean (by simp [same])
      have tail := ih fun member => clean (List.mem_cons_of_mem _ member)
      rw [List.cons_append, List.cons_append, splitLine, if_neg fun both => other both.1, tail]
      rfl

/-- More input behind the line does not change it. -/
theorem splitLine_extend (split : splitLine bytes = some (line, rest)) (more : Bytes) :
    splitLine (bytes ++ more) = some (line, rest ++ more) := by
  induction bytes generalizing line rest with
  | nil => cases split
  | cons byte bytes ih =>
      cases bytes with
      | nil =>
          by_cases ends : byte = 13 ∧ ([] : Bytes).head? = some 10
          · cases ends.2
          · rw [splitLine, if_neg ends] at split
            cases split
      | cons next bytes =>
          rw [splitLine] at split
          rw [List.cons_append, splitLine]
          by_cases ends : byte = 13 ∧ (next :: bytes).head? = some 10
          · rw [if_pos ends] at split
            cases split
            exact if_pos ends
          · rw [if_neg ends] at split
            obtain ⟨tail, found, same⟩ := Option.map_eq_some_iff.mp split
            cases same
            rw [if_neg (show ¬ (byte = 13 ∧ (next :: bytes ++ more).head? = some 10) from ends),
              ih found]
            rfl

end

/-! ## Fields -/

/-- A character of a token: a letter, a digit or one of some signs. -/
def IsTokenByte (byte : UInt8) : Prop :=
  IsDigit byte ∨ (65 ≤ byte ∧ byte ≤ 90) ∨ (97 ≤ byte ∧ byte ≤ 122) ∨
    byte ∈ bytesOf "!#$%&'*+-.^_`|~"

instance : DecidablePred IsTokenByte := fun _ => inferInstanceAs (Decidable (_ ∨ _))

/-- A name of a field. -/
def IsToken (name : Bytes) : Prop := name ≠ [] ∧ ∀ byte ∈ name, IsTokenByte byte

instance : DecidablePred IsToken := fun _ => inferInstanceAs (Decidable (_ ∧ _))

/-- Space and tab. -/
def isBlank (byte : UInt8) : Bool := byte = 32 ∨ byte = 9

/-- A byte of a field value: no control character but the tab. -/
def IsFieldByte (byte : UInt8) : Prop := byte = 9 ∨ (32 ≤ byte ∧ byte ≠ 127)

instance : DecidablePred IsFieldByte := fun _ => inferInstanceAs (Decidable (_ ∨ _))

theorem isFieldByte_of_isDigit {byte : UInt8} (digit : IsDigit byte) : IsFieldByte byte := by
  refine Or.inr ⟨UInt8.le_iff_toNat_le.mpr (Nat.le_trans (by decide) digit.1), ?_⟩
  rintro rfl
  exact absurd digit (by decide)

theorem isBlank_of_isDigit {byte : UInt8} (digit : IsDigit byte) : isBlank byte = false := by
  refine decide_eq_false ?_
  rintro (rfl | rfl) <;> exact absurd digit (by decide)

/-- A field value, which has no blanks at its ends. -/
structure IsFieldValue (value : Bytes) : Prop where
  bytes : ∀ byte ∈ value, IsFieldByte byte
  head : ∀ byte ∈ value.head?, isBlank byte = false
  last : ∀ byte ∈ value.getLast?, isBlank byte = false

/-- The value without the blanks around it. -/
def trim (value : Bytes) : Bytes := (value.dropWhile isBlank).rdropWhile isBlank

/-- A line `name: value`. -/
def parseField (line : Bytes) : Option (Bytes × Bytes) :=
  let name := line.takeWhile (· ≠ 58)
  match line.dropWhile (· ≠ 58) with
  | [] => none
  | _ :: value =>
      if IsToken name ∧ ∀ byte ∈ value, IsFieldByte byte then some (name, trim value) else none

/-- The field lines up to the first empty line, and what is behind it. -/
def parseFields : ℕ → Bytes → Option (List (Bytes × Bytes) × Bytes)
  | 0, _ => none
  | fuel + 1, bytes =>
      (splitLine bytes).bind fun (line, rest) =>
        if line = [] then some ([], rest)
        else (parseField line).bind fun field =>
          (parseFields fuel rest).map fun (fields, rest) => (field :: fields, rest)

/-- The upper-case letters made lower-case. -/
def lower (byte : UInt8) : UInt8 := if 65 ≤ byte ∧ byte ≤ 90 then byte + 32 else byte

/-- A field that gives the length of the body; names do not depend on case. -/
def isContentLength (field : Bytes × Bytes) : Bool :=
  field.1.map lower = bytesOf "content-length"

/-- The value of the only field that gives a length. -/
def contentLength (fields : List (Bytes × Bytes)) : Option ℕ :=
  match fields.filter isContentLength with
  | [field] => decimal field.2
  | _ => none

/-! ## Messages -/

/-- `HTTP/1.1`, three digits and a reason. -/
def parseStatusLine (line : Bytes) : Option ℕ :=
  if (bytesOf "HTTP/1.1 ").isPrefixOf line then
    let rest := line.drop 9
    let code := rest.takeWhile (· ≠ 32)
    let reason := rest.dropWhile (· ≠ 32)
    if code.length = 3 ∧ reason ≠ [] ∧ ∀ byte ∈ reason, IsFieldByte byte then decimal code
    else none
  else none

/-- A response as the reader understands it. -/
structure Message where
  status : ℕ
  fields : List (Bytes × Bytes)
  body : Bytes
  deriving DecidableEq, Repr

/-- Read one message; what is left over comes with it. -/
def parse (bytes : Bytes) : Option (Message × Bytes) :=
  (splitLine bytes).bind fun (line, rest) =>
    (parseStatusLine line).bind fun status =>
      (parseFields (rest.length + 1) rest).bind fun (fields, rest) =>
        (contentLength fields).bind fun length =>
          if length ≤ rest.length then
            some (⟨status, fields, rest.take length⟩, rest.drop length)
          else none

section

variable {bytes rest line value name : Bytes} {fields : List (Bytes × Bytes)}
  {field : Bytes × Bytes} {fuel : ℕ} {message : Message}

/-! ## More input -/

/-- The first of the lines that are read. -/
theorem parseFields_succ_eq_some_iff :
    parseFields (fuel + 1) bytes = some (fields, rest) ↔
      ∃ line behind, splitLine bytes = some (line, behind) ∧
        (line = [] ∧ fields = [] ∧ behind = rest ∨
          line ≠ [] ∧ ∃ field later, parseField line = some field ∧
            parseFields fuel behind = some (later, rest) ∧ fields = field :: later) := by
  rw [parseFields, Option.bind_eq_some_iff, Prod.exists]
  refine exists_congr fun line => exists_congr fun behind => and_congr_right fun _ => ?_
  dsimp only
  by_cases empty : line = []
  · rw [if_pos empty]
    simp [empty, eq_comm]
  · rw [if_neg empty, Option.bind_eq_some_iff]
    simp only [empty, ne_eq, not_false_eq_true, true_and, false_and, false_or,
      Option.map_eq_some_iff, Prod.exists, Prod.mk.injEq]
    constructor
    · rintro ⟨name, value, here, later, behindFields, tail, rfl, rfl⟩
      exact ⟨name, value, later, here, tail, rfl⟩
    · rintro ⟨name, value, later, here, tail, rfl⟩
      exact ⟨name, value, here, later, rest, tail, rfl, rfl⟩

theorem parseFields_extend (parsed : parseFields fuel bytes = some (fields, rest))
    (more : Bytes) {enough : ℕ} (atLeast : fuel ≤ enough) :
    parseFields enough (bytes ++ more) = some (fields, rest ++ more) := by
  induction fuel generalizing bytes fields enough with
  | zero => cases parsed
  | succ fuel ih =>
      obtain ⟨enough, rfl⟩ : ∃ less, enough = less + 1 := ⟨enough - 1, by omega⟩
      obtain ⟨line, behind, split, parsed⟩ := parseFields_succ_eq_some_iff.mp parsed
      rw [parseFields_succ_eq_some_iff]
      refine ⟨line, behind ++ more, splitLine_extend split more, ?_⟩
      rcases parsed with ⟨empty, none, last⟩ | ⟨nonempty, field, later, here, parsed, same⟩
      · exact Or.inl ⟨empty, none, by rw [last]⟩
      · exact Or.inr
          ⟨nonempty, field, later, here, ih parsed (Nat.le_of_succ_le_succ atLeast), same⟩

/-- The parts of an accepted message. -/
theorem parse_eq_some_iff :
    parse bytes = some (message, rest) ↔
      ∃ line head, splitLine bytes = some (line, head) ∧
        parseStatusLine line = some message.status ∧
        parseFields (head.length + 1) head = some (message.fields, message.body ++ rest) ∧
        contentLength message.fields = some message.body.length := by
  constructor
  · intro parsed
    obtain ⟨⟨line, head⟩, split, parsed⟩ := Option.bind_eq_some_iff.mp parsed
    obtain ⟨status, first, parsed⟩ := Option.bind_eq_some_iff.mp parsed
    obtain ⟨⟨fields, behind⟩, found, parsed⟩ := Option.bind_eq_some_iff.mp parsed
    obtain ⟨length, single, parsed⟩ := Option.bind_eq_some_iff.mp parsed
    obtain ⟨complete, same⟩ := Option.ite_none_right_eq_some.mp parsed
    cases same
    refine ⟨line, head, split, first, ?_, ?_⟩
    · rw [List.take_append_drop]
      exact found
    · rw [List.length_take, Nat.min_eq_left complete]
      exact single
  · rintro ⟨line, head, split, first, found, single⟩
    have complete : message.body.length ≤ (message.body ++ rest).length := by simp
    unfold parse
    simp only [split, first, found, single, Option.bind_some]
    rw [if_pos complete, List.take_left, List.drop_left]

/-- A longer input gives the same message, with more left over. -/
theorem parse_extend (parsed : parse bytes = some (message, rest)) (more : Bytes) :
    parse (bytes ++ more) = some (message, rest ++ more) := by
  obtain ⟨line, head, split, first, found, single⟩ := parse_eq_some_iff.mp parsed
  have longer : head.length + 1 ≤ (head ++ more).length + 1 := by simp
  have foundMore := parseFields_extend found more longer
  rw [List.append_assoc] at foundMore
  exact parse_eq_some_iff.mpr
    ⟨line, head ++ more, splitLine_extend split more, first, foundMore, single⟩

/-! ## What is accepted is well formed -/

theorem isFieldValue_trim (clean : ∀ byte ∈ value, IsFieldByte byte) :
    IsFieldValue (trim value) := by
  have start : trim value <+: value.dropWhile isBlank := List.rdropWhile_prefix _ _
  constructor
  · intro byte member
    exact clean byte ((List.dropWhile_suffix _).subset (start.subset member))
  · intro byte first
    obtain ⟨tail, same⟩ := start
    have firstOfRest : (value.dropWhile isBlank).head? = some byte := by
      rw [← same, List.head?_append, first]
      rfl
    have stops := List.head?_dropWhile_not isBlank value
    rw [firstOfRest] at stops
    exact stops
  · intro byte last
    obtain ⟨nonempty, rfl⟩ := List.mem_getLast?_eq_getLast last
    exact Bool.eq_false_iff.mpr (List.rdropWhile_last_not _ _ nonempty)

theorem trim_of_isFieldValue (valid : IsFieldValue value) : trim (32 :: value) = value := by
  have front : value.dropWhile isBlank = value := by
    cases value with
    | nil => rfl
    | cons byte value => exact List.dropWhile_cons_of_neg (by simp [valid.head byte rfl])
  have back : value.rdropWhile isBlank = value := by
    rw [List.rdropWhile_eq_self_iff]
    intro nonempty
    simp [valid.last _ (List.getLast?_eq_some_getLast nonempty)]
  rw [trim, List.dropWhile_cons_of_pos rfl, front, back]

/-- A field that can be written down. -/
def IsField (field : Bytes × Bytes) : Prop := IsToken field.1 ∧ IsFieldValue field.2

theorem isField_of_parseField (parsed : parseField line = some field) : IsField field := by
  unfold parseField at parsed
  dsimp only at parsed
  split at parsed
  · cases parsed
  · obtain ⟨⟨token, clean⟩, same⟩ := Option.ite_none_right_eq_some.mp parsed
    cases same
    exact ⟨token, isFieldValue_trim clean⟩

theorem isField_of_parseFields (parsed : parseFields fuel bytes = some (fields, rest)) :
    ∀ field ∈ fields, IsField field := by
  induction fuel generalizing bytes fields with
  | zero => cases parsed
  | succ fuel ih =>
      obtain ⟨line, behind, -, parsed⟩ := parseFields_succ_eq_some_iff.mp parsed
      rcases parsed with ⟨-, rfl, -⟩ | ⟨-, field, later, here, tail, rfl⟩
      · simp
      · intro other member
        rcases List.mem_cons.mp member with rfl | behind
        · exact isField_of_parseField here
        · exact ih tail other behind

theorem filter_of_contentLength {length : ℕ} (single : contentLength fields = some length) :
    (fields.filter isContentLength).length = 1 := by
  unfold contentLength at single
  split at single
  · rename_i one
    rw [one]
    rfl
  · cases single

/-- The fields of an accepted message, exactly one of which gives a length. -/
theorem fields_of_parse (parsed : parse bytes = some (message, rest)) :
    (∀ field ∈ message.fields, IsField field) ∧
      (message.fields.filter isContentLength).length = 1 := by
  obtain ⟨line, head, -, -, found, single⟩ := parse_eq_some_iff.mp parsed
  exact ⟨isField_of_parseFields found, filter_of_contentLength single⟩

/-! ## What is well formed is read back -/

/-- The line of a field. -/
def renderField (field : Bytes × Bytes) : Bytes := field.1 ++ [58, 32] ++ field.2 ++ crlf

theorem not_mem_of_isToken (token : IsToken name) (byte : UInt8) (other : ¬ IsTokenByte byte) :
    byte ∉ name :=
  fun member => other (token.2 byte member)

theorem carriageReturn_not_mem (clean : ∀ byte ∈ value, IsFieldByte byte) :
    (13 : UInt8) ∉ value :=
  fun member => absurd (clean 13 member) (by decide)

/-- A word is what stands before the first mark, if the mark is not in it. -/
theorem cut_at_mark {mark : UInt8} {word : Bytes} (clean : mark ∉ word) (rest : Bytes) :
    (word ++ mark :: rest).takeWhile (· ≠ mark) = word ∧
      (word ++ mark :: rest).dropWhile (· ≠ mark) = mark :: rest := by
  have inside : ∀ byte ∈ word, decide (byte ≠ mark) = true := by
    intro byte member
    refine decide_eq_true fun same => ?_
    subst same
    exact clean member
  constructor
  · rw [List.takeWhile_append_of_pos inside]
    simp
  · rw [List.dropWhile_append_of_pos inside]
    simp

theorem parseField_render (valid : IsField field) :
    parseField (field.1 ++ [58, 32] ++ field.2) = some field := by
  have cut := cut_at_mark (not_mem_of_isToken valid.1 58 (by decide)) (32 :: field.2)
  have clean : ∀ byte ∈ 32 :: field.2, IsFieldByte byte := by
    intro byte member
    rcases List.mem_cons.mp member with rfl | inside
    · decide
    · exact valid.2.bytes byte inside
  have line : field.1 ++ [58, 32] ++ field.2 = field.1 ++ 58 :: 32 :: field.2 :=
    List.append_assoc ..
  unfold parseField
  rw [line, cut.1, cut.2]
  dsimp only
  rw [if_pos ⟨valid.1, clean⟩, trim_of_isFieldValue valid.2]

/-- Fields and the empty line behind them are read back. -/
theorem parseFields_render (valid : ∀ field ∈ fields, IsField field) (rest : Bytes)
    (enough : fields.length < fuel) :
    parseFields fuel (fields.flatMap renderField ++ crlf ++ rest) = some (fields, rest) := by
  obtain ⟨fuel, rfl⟩ : ∃ less, fuel = less + 1 := ⟨fuel - 1, by omega⟩
  rw [parseFields_succ_eq_some_iff]
  induction fields generalizing fuel with
  | nil => exact ⟨[], rest, splitLine_append (by simp), Or.inl ⟨rfl, rfl, rfl⟩⟩
  | cons field fields ih =>
      obtain ⟨fuel, rfl⟩ : ∃ less, fuel = less + 1 := ⟨fuel - 1, by simp at enough; omega⟩
      have here := valid field (by simp)
      have lineEnd : (13 : UInt8) ∉ field.1 ++ [58, 32] ++ field.2 := by
        have inName := not_mem_of_isToken here.1 13 (by decide)
        have inValue := carriageReturn_not_mem here.2.bytes
        simp [inName, inValue]
      have later := ih (fun other member => valid other (by simp [member])) fuel
        (by simp at enough; omega)
      refine ⟨field.1 ++ [58, 32] ++ field.2, fields.flatMap renderField ++ crlf ++ rest,
        ?_, Or.inr ⟨by simp, field, fields, parseField_render here, ?_, rfl⟩⟩
      · rw [List.flatMap_cons, renderField, List.append_assoc _ _ rest,
          List.append_assoc _ (fields.flatMap renderField), ← List.append_assoc _ crlf rest]
        exact splitLine_append lineEnd
      · rw [parseFields_succ_eq_some_iff]
        exact later

/-- A status line is read back if its code has three digits. -/
theorem parseStatusLine_render {code reason : Bytes} (word : (32 : UInt8) ∉ code)
    (clean : ∀ byte ∈ reason, IsFieldByte byte) :
    parseStatusLine (bytesOf "HTTP/1.1 " ++ code ++ [32] ++ reason) =
      if code.length = 3 then decimal code else none := by
  have cut := cut_at_mark word reason
  have start : (bytesOf "HTTP/1.1 ").isPrefixOf
      (bytesOf "HTTP/1.1 " ++ code ++ [32] ++ reason) = true := by
    rw [List.isPrefixOf_iff_prefix, List.append_assoc, List.append_assoc]
    exact List.prefix_append _ _
  have behind : (bytesOf "HTTP/1.1 " ++ code ++ [32] ++ reason).drop 9 =
      code ++ 32 :: reason := by
    rw [List.append_assoc, List.append_assoc]
    exact List.drop_left' (by decide)
  have cleanReason : ∀ byte ∈ 32 :: reason, IsFieldByte byte := by
    intro byte member
    rcases List.mem_cons.mp member with rfl | inside
    · decide
    · exact clean byte inside
  unfold parseStatusLine
  rw [if_pos start, behind]
  dsimp only
  rw [cut.1, cut.2]
  by_cases three : code.length = 3
  · rw [if_pos ⟨three, by simp, cleanReason⟩, if_pos three]
  · rw [if_neg fun all => three all.1, if_neg three]

end

end HttpMessage

end Kode.Library
