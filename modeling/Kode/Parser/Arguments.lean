/-
# The arguments of a call

`ExtractFunctionArguments` takes what stands between the first opening and the last
closing parenthesis of a line and divides it at its commas. A scanner reads it character
by character. It remembers which kind of quote is open, whether the last character was a
backslash and how many parentheses are open; a comma separates two arguments only where
none of these is the case.

The piece that the scanner has read and the arguments that are complete play no part in
what it does next. Between two arguments it is therefore back in the state in which it
started.
-/

import Kode.Parser.Lines

namespace Kode.Parser

open Kode.Library

/-- What the scanner remembers of the characters before. -/
structure Mode where
  inSingle : Bool
  inDouble : Bool
  inBacktick : Bool
  escape : Bool
  depth : ℕ
  deriving DecidableEq, Repr

/-- The local variables of the loop. -/
structure Scanner extends Mode where
  cur : Text
  args : List Text
  deriving DecidableEq, Repr

/-- Outside quotes, at depth 0. -/
def Mode.outside : Mode := ⟨false, false, false, false, 0⟩

namespace Scanner

def start : Scanner := ⟨.outside, [], []⟩

/-- `cur.push_back(c)`. -/
def push (scanner : Scanner) (c : Char) : Scanner := { scanner with cur := scanner.cur ++ [c] }

/-- `args.push_back(TrimWhitespace(cur))`. -/
def finish (scanner : Scanner) : List Text := scanner.args ++ [trimWhitespace scanner.cur]

/-- One iteration of the loop. `'\x60'` is the backtick. -/
def step (scanner : Scanner) (c : Char) : Scanner :=
  if scanner.escape then { scanner.push c with escape := false }
  else if c = '\\' then { scanner.push c with escape := true }
  else if scanner.inSingle then
    if c = '\'' then { scanner.push c with inSingle := false } else scanner.push c
  else if scanner.inDouble then
    if c = '"' then { scanner.push c with inDouble := false } else scanner.push c
  else if scanner.inBacktick then
    if c = '\x60' then { scanner.push c with inBacktick := false } else scanner.push c
  else if c = '\'' then { scanner.push c with inSingle := true }
  else if c = '"' then { scanner.push c with inDouble := true }
  else if c = '\x60' then { scanner.push c with inBacktick := true }
  else if c = '(' then { scanner.push c with depth := scanner.depth + 1 }
  else if c = ')' then
    if 0 < scanner.depth then { scanner.push c with depth := scanner.depth - 1 }
    else scanner.push c
  else if c = ',' ∧ scanner.depth = 0 then
    { scanner with args := scanner.finish, cur := [] }
  else scanner.push c

/-- The whole loop. -/
def scan (scanner : Scanner) (text : Text) : Scanner := text.foldl step scanner

end Scanner

/-- The loop and the argument behind the last comma. -/
def splitArguments (s : Text) : List Text :=
  let scanner := Scanner.start.scan s
  if scanner.cur ≠ [] ∨ s ≠ [] then scanner.finish else scanner.args

/-- What stands between the first `(` and the last `)`, if the second comes later. -/
def parenthesized (line : Text) : Option Text :=
  match find ['('] line, findLast ')' line with
  | some start, some stop =>
      if stop ≤ start then none else some ((line.drop (start + 1)).take (stop - start - 1))
  | _, _ => none

/-- `ExtractFunctionArguments`. -/
def extractFunctionArguments (line : Text) : List Text :=
  match parenthesized line with
  | none => []
  | some s => splitArguments s

/-! ## The scanner -/

namespace Scanner

@[simp] theorem scan_nil (scanner : Scanner) : scanner.scan [] = scanner := rfl

@[simp] theorem scan_cons (scanner : Scanner) (c : Char) (text : Text) :
    scanner.scan (c :: text) = (scanner.step c).scan text := rfl

theorem scan_append (scanner : Scanner) (front back : Text) :
    scanner.scan (front ++ back) = (scanner.scan front).scan back := List.foldl_append

/-- What is remembered next depends only on what is remembered now. -/
theorem mode_step {scanner other : Scanner} (same : scanner.toMode = other.toMode) (c : Char) :
    (scanner.step c).toMode = (other.step c).toMode := by
  obtain ⟨mode, cur, args⟩ := scanner
  obtain ⟨_, otherCur, otherArgs⟩ := other
  cases same
  simp only [step, push, apply_ite Scanner.toMode]

theorem mode_scan {scanner other : Scanner} (same : scanner.toMode = other.toMode)
    (text : Text) : (scanner.scan text).toMode = (other.scan text).toMode := by
  induction text generalizing scanner other with
  | nil => exact same
  | cons c text ih => exact ih (mode_step same c)

/-- Every character is kept, except a comma that separates. -/
theorem step_push {scanner : Scanner} {c : Char}
    (quiet : scanner.toMode = .outside → c ≠ ',') :
    (scanner.step c).cur = scanner.cur ++ [c] ∧ (scanner.step c).args = scanner.args := by
  obtain ⟨⟨inSingle, inDouble, inBacktick, escape, depth⟩, cur, args⟩ := scanner
  by_cases comma : c = ',' ∧ depth = 0
  · -- a quote is open, or a backslash stands before the comma
    obtain ⟨rfl, rfl⟩ := comma
    have inside : (inSingle || inDouble || inBacktick || escape) = true := by
      by_contra closed
      simp only [Bool.or_eq_true, not_or, Bool.not_eq_true] at closed
      exact quiet (by simp [Mode.outside, closed]) rfl
    revert inside
    cases inSingle <;> cases inDouble <;> cases inBacktick <;> cases escape <;>
      simp [step, push]
  · simp only [step, push, if_neg comma, apply_ite Scanner.cur, apply_ite Scanner.args, ite_self,
      and_self]

theorem step_comma {scanner : Scanner} (outside : scanner.toMode = .outside) :
    scanner.step ',' = ⟨.outside, [], scanner.finish⟩ := by
  obtain ⟨mode, cur, args⟩ := scanner
  cases outside
  rfl

theorem scan_push {scanner : Scanner} {text : Text}
    (quiet : ∀ before c after, text = before ++ c :: after →
      (scanner.scan before).toMode = .outside → c ≠ ',') :
    (scanner.scan text).cur = scanner.cur ++ text ∧
      (scanner.scan text).args = scanner.args := by
  induction text generalizing scanner with
  | nil => simp
  | cons c text ih =>
      have here : scanner.toMode = .outside → c ≠ ',' := quiet [] c text rfl
      have later : ∀ before other after, text = before ++ other :: after →
          ((scanner.step c).scan before).toMode = .outside → other ≠ ',' :=
        fun before other after split => quiet (c :: before) other after (by rw [split]; rfl)
      rw [scan_cons, (ih later).1, (ih later).2, (step_push here).1, (step_push here).2,
        List.append_assoc]
      exact ⟨rfl, rfl⟩

end Scanner

/-! ## Closed arguments -/

/-- The scanner, started outside quotes at depth 0, ends there, and on the way it meets
neither a comma nor a closing parenthesis while it is there. -/
structure Closed (text : Text) : Prop where
  ends : (Scanner.start.scan text).toMode = .outside
  quiet : ∀ before c after, text = before ++ c :: after →
    (Scanner.start.scan before).toMode = .outside → c ≠ ',' ∧ c ≠ ')'

instance (text : Text) : Decidable (Closed text) :=
  decidable_of_iff ((Scanner.start.scan text).toMode = .outside ∧
      ∀ index : Fin text.length, (Scanner.start.scan (text.take index)).toMode = .outside →
        text[index] ≠ ',' ∧ text[index] ≠ ')') <| by
    constructor
    · rintro ⟨ends, quiet⟩
      refine ⟨ends, ?_⟩
      rintro before c after rfl outside
      simpa using quiet ⟨before.length, by simp⟩ (by simpa using outside)
    · rintro ⟨ends, quiet⟩
      refine ⟨ends, fun index => quiet _ _ (text.drop (index + 1)) ?_⟩
      simp

/-- There is no whitespace at the beginning or at the end. -/
def Trimmed (text : Text) : Prop :=
  (∀ c ∈ text.head?, isBlank c = false) ∧ (∀ c ∈ text.getLast?, isBlank c = false)

instance (text : Text) : Decidable (Trimmed text) :=
  @instDecidableAnd _ _ (Option.decidableForallMem _) (Option.decidableForallMem _)

/-- Arguments joined with commas, each comma followed by a gap. -/
def joinArguments (first : Text) (rest : List (Text × Text)) : Text :=
  first ++ rest.flatMap fun piece => ',' :: (piece.1 ++ piece.2)

theorem Closed.scan {text : Text} (closed : Closed text) (cur : Text) (args : List Text) :
    Scanner.scan ⟨.outside, cur, args⟩ text = ⟨.outside, cur ++ text, args⟩ := by
  have mode : ∀ before, (Scanner.scan ⟨.outside, cur, args⟩ before).toMode =
      (Scanner.start.scan before).toMode := Scanner.mode_scan rfl
  have quiet : ∀ before c after, text = before ++ c :: after →
      (Scanner.scan ⟨.outside, cur, args⟩ before).toMode = .outside → c ≠ ',' :=
    fun before c after split outside =>
      (closed.quiet before c after split (by rw [← mode, outside])).1
  obtain ⟨read, complete⟩ := Scanner.scan_push quiet
  have ends := (mode text).trans closed.ends
  generalize Scanner.scan ⟨.outside, cur, args⟩ text = scanned at read complete ends
  cases scanned
  cases read
  cases complete
  cases ends
  rfl

theorem closed_nil : Closed [] := ⟨rfl, by simp⟩

theorem Closed.append {front back : Text} (first : Closed front) (second : Closed back) :
    Closed (front ++ back) where
  ends := by
    rw [Scanner.scan_append, Scanner.start, first.scan, second.scan]
  quiet before c after split outside := by
    rcases List.append_eq_append_iff.mp split with ⟨more, rfl, rest⟩ | ⟨more, rfl, rest⟩
    · rw [Scanner.scan_append, Scanner.start, first.scan] at outside
      have same : Scanner.start.toMode = (⟨.outside, [] ++ front, []⟩ : Scanner).toMode := rfl
      exact second.quiet more c after rest ((Scanner.mode_scan same more).trans outside)
    · cases more with
      | nil => exact second.quiet [] c after (by simpa using rest.symm) rfl
      | cons other more =>
          obtain ⟨rfl, -⟩ := List.cons.inj rest
          exact first.quiet before c more rfl outside

/-- The characters that mean something to the scanner. -/
def special : Text := ['\\', '\'', '"', '\x60', '(', ')', ',']

theorem closed_singleton {c : Char} (plain : c ∉ special) : Closed [c] := by
  simp only [special, List.mem_cons, List.not_mem_nil, or_false, not_or] at plain
  obtain ⟨backslash, single, double, backtick, opening, closing, comma⟩ := plain
  constructor
  · simp [Scanner.start, Scanner.step, Scanner.push, Mode.outside, *]
  · intro before other after split _
    obtain ⟨rfl, rfl, -⟩ : before = [] ∧ other = c ∧ after = [] := by
      cases before <;> simp_all
    exact ⟨comma, closing⟩

theorem closed_of_plain {text : Text} (plain : ∀ c ∈ text, c ∉ special) : Closed text := by
  induction text with
  | nil => exact closed_nil
  | cons c text ih =>
      have single := closed_singleton (plain c List.mem_cons_self)
      exact single.append (ih fun other member => plain other (List.mem_cons_of_mem _ member))

theorem not_special_of_blank {c : Char} (blank : isBlank c = true) : c ∉ special := by
  simp only [isBlank, decide_eq_true_eq] at blank
  rcases blank with rfl | rfl | rfl | rfl <;> decide

/-! ## Trimming -/

theorem infix_trimWhitespace (text : Text) : trimWhitespace text <:+: text :=
  (List.rdropWhile_prefix isBlank _).isInfix.trans (List.dropWhile_suffix isBlank).isInfix

theorem trimWhitespace_of_trimmed {text : Text} (trimmed : Trimmed text) :
    trimWhitespace text = text := by
  have front : text.dropWhile isBlank = text := by
    cases text with
    | nil => rfl
    | cons c text => exact List.dropWhile_cons_of_neg (by simpa using trimmed.1 c rfl)
  rw [trimWhitespace, front, List.rdropWhile_eq_self_iff]
  intro some_char
  simpa using trimmed.2 _ (List.getLast?_eq_getLast_of_ne_nil some_char)

theorem trimWhitespace_gap {gap text : Text} (blank : ∀ c ∈ gap, isBlank c = true) :
    trimWhitespace (gap ++ text) = trimWhitespace text := by
  rw [trimWhitespace, List.dropWhile_append_of_pos blank, trimWhitespace]

/-! ## Splitting -/

/-- The scanner reads the arguments behind the first one by one. -/
theorem scan_rest {rest : List (Text × Text)}
    (closed : ∀ piece ∈ rest, Closed piece.2 ∧ Trimmed piece.2)
    (blank : ∀ piece ∈ rest, ∀ c ∈ piece.1, isBlank c = true) (cur : Text) (args : List Text) :
    (Scanner.scan ⟨.outside, cur, args⟩
      (rest.flatMap fun piece => ',' :: (piece.1 ++ piece.2))).finish =
      args ++ trimWhitespace cur :: rest.map Prod.snd := by
  induction rest generalizing cur args with
  | nil => rfl
  | cons piece rest ih =>
      obtain ⟨gap, argument⟩ := piece
      obtain ⟨closes, trimmed⟩ := closed (gap, argument) List.mem_cons_self
      have before := blank (gap, argument) List.mem_cons_self
      have space : Closed gap :=
        closed_of_plain fun c member => not_special_of_blank (before c member)
      rw [List.flatMap_cons, Scanner.scan_append, Scanner.scan_cons, Scanner.step_comma rfl,
        (space.append closes).scan,
        ih (fun other member => closed other (List.mem_cons_of_mem _ member))
          fun other member => blank other (List.mem_cons_of_mem _ member),
        List.nil_append, trimWhitespace_gap before, trimWhitespace_of_trimmed trimmed,
        Scanner.finish, List.append_assoc]
      rfl

theorem splitArguments_of_ne_nil {s : Text} (some_char : s ≠ []) :
    splitArguments s = (Scanner.start.scan s).finish := by
  rw [splitArguments, if_pos (Or.inr some_char)]

/-- Splitting undoes joining. -/
theorem splitArguments_join {first : Text} {rest : List (Text × Text)}
    (head : Closed first ∧ Trimmed first)
    (closed : ∀ piece ∈ rest, Closed piece.2 ∧ Trimmed piece.2)
    (blank : ∀ piece ∈ rest, ∀ c ∈ piece.1, isBlank c = true)
    (some_char : first ≠ [] ∨ rest ≠ []) :
    splitArguments (joinArguments first rest) = first :: rest.map Prod.snd := by
  have joined : joinArguments first rest ≠ [] := by
    cases rest <;> simp_all [joinArguments]
  rw [splitArguments_of_ne_nil joined, joinArguments, Scanner.scan_append, Scanner.start,
    head.1.scan, scan_rest closed blank, List.nil_append, List.nil_append,
    trimWhitespace_of_trimmed head.2]

theorem parenthesized_call {name : Text} (noParen : '(' ∉ name) (inside : Text) :
    parenthesized (name ++ '(' :: (inside ++ [')'])) = some inside := by
  have last : findLast ')' (name ++ '(' :: (inside ++ [')'])) =
      some (name ++ '(' :: inside).length := by
    have split : name ++ '(' :: (inside ++ [')']) = (name ++ '(' :: inside) ++ ')' :: [] := by
      simp
    rw [split, findLast_eq _ List.not_mem_nil]
  have between : ((name ++ '(' :: (inside ++ [')'])).drop (name.length + 1)).take
      ((name ++ '(' :: inside).length - name.length - 1) = inside := by
    have length : (name ++ '(' :: inside).length - name.length - 1 = inside.length := by
      rw [List.length_append, List.length_cons]
      omega
    rw [length, ← List.drop_drop, List.drop_left]
    simp
  rw [parenthesized, find_singleton noParen, last]
  simp only [between]
  rw [if_neg]
  simp

/-- The arguments of a call stand between its parentheses. -/
theorem extractFunctionArguments_call {name : Text} (noParen : '(' ∉ name) (inside : Text) :
    extractFunctionArguments (name ++ '(' :: (inside ++ [')'])) = splitArguments inside := by
  rw [extractFunctionArguments, parenthesized_call noParen]

/-- `ExtractFunctionArguments` finds the arguments of a call, whatever stands before each of
them of the characters that `TrimWhitespace` removes: blanks, tabs, and the two characters
that end a line. -/
theorem extractFunctionArguments_join {name first : Text} {rest : List (Text × Text)}
    (noParen : '(' ∉ name)
    (closed : ∀ argument ∈ first :: rest.map Prod.snd, Closed argument ∧ Trimmed argument)
    (blank : ∀ piece ∈ rest, ∀ c ∈ piece.1, isBlank c = true)
    (some_char : first :: rest.map Prod.snd ≠ [[]]) :
    extractFunctionArguments (name ++ '(' :: (joinArguments first rest ++ [')'])) =
      first :: rest.map Prod.snd := by
  rw [extractFunctionArguments_call noParen]
  refine splitArguments_join (closed first List.mem_cons_self) (fun piece member => ?_) blank ?_
  · exact closed piece.2 (List.mem_cons_of_mem _ (List.mem_map_of_mem member))
  · by_contra empty
    rw [not_or, not_not, not_not] at empty
    exact some_char (by rw [empty.1, empty.2]; rfl)

theorem extractFunctionArguments_join_nested :
    extractFunctionArguments ("send".toList ++ '(' :: (joinArguments "'a, (b'".toList
        [([' '], "g(x, [y])".toList), (['\t'], "\"\"".toList)] ++ [')'])) =
      ["'a, (b'".toList, "g(x, [y])".toList, "\"\"".toList] :=
  extractFunctionArguments_join (by decide) (by decide) (by decide) (by decide)

/-! ## What can be an argument -/

/-- The pieces of the text that was read: the current one stands at its end, and every
complete argument stands somewhere before it. -/
theorem infix_of_mem_scan (text : Text) :
    ∃ before, text = before ++ (Scanner.start.scan text).cur ∧
      ∀ argument ∈ (Scanner.start.scan text).args, argument <:+: before := by
  induction text using List.reverseRecOn with
  | nil => exact ⟨[], rfl, by simp [Scanner.start]⟩
  | append_singleton text c ih =>
      obtain ⟨before, split, inside⟩ := ih
      rw [Scanner.scan_append, Scanner.scan_cons, Scanner.scan_nil]
      by_cases comma : (Scanner.start.scan text).toMode = .outside ∧ c = ','
      · obtain ⟨outside, rfl⟩ := comma
        rw [Scanner.step_comma outside]
        refine ⟨text ++ [','], by simp, ?_⟩
        intro argument member
        rcases List.mem_append.mp member with earlier | new
        · have front : before <+: text ++ [','] := by
            rw [split, List.append_assoc]
            exact List.prefix_append before _
          exact (inside argument earlier).trans front.isInfix
        · rw [List.mem_singleton.mp new]
          have back : (Scanner.start.scan text).cur <:+: text ++ [','] := by
            nth_rewrite 2 [split]
            exact ⟨before, [','], rfl⟩
          exact (infix_trimWhitespace _).trans back
      · obtain ⟨cur, args⟩ := Scanner.step_push fun outside same => comma ⟨outside, same⟩
        refine ⟨before, ?_, by rwa [args]⟩
        rw [cur, ← List.append_assoc, ← split]

theorem infix_of_mem_splitArguments {s argument : Text} (member : argument ∈ splitArguments s) :
    argument <:+: s := by
  obtain ⟨before, split, inside⟩ := infix_of_mem_scan s
  have front : before <+: s := ⟨_, split.symm⟩
  have back : (Scanner.start.scan s).cur <:+ s := ⟨before, split.symm⟩
  have complete : ∀ argument ∈ (Scanner.start.scan s).args, argument <:+: s :=
    fun argument earlier => (inside argument earlier).trans front.isInfix
  rw [splitArguments] at member
  split_ifs at member
  · rcases List.mem_append.mp member with earlier | last
    · exact complete argument earlier
    · rw [List.mem_singleton.mp last]
      exact (infix_trimWhitespace _).trans back.isInfix
  · exact complete argument member

theorem infix_of_parenthesized {line s : Text} (found : parenthesized line = some s) :
    s <:+: line := by
  rw [parenthesized] at found
  split at found
  · split_ifs at found
    obtain rfl := Option.some.inj found
    exact (List.take_prefix _ _).isInfix.trans (List.drop_suffix _ _).isInfix
  · cases found

theorem infix_of_mem_extractFunctionArguments {line argument : Text}
    (member : argument ∈ extractFunctionArguments line) : argument <:+: line := by
  rw [extractFunctionArguments] at member
  cases found : parenthesized line with
  | none => simp [found] at member
  | some s =>
      rw [found] at member
      exact (infix_of_mem_splitArguments member).trans (infix_of_parenthesized found)

end Kode.Parser
