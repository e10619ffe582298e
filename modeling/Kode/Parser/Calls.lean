/-
# Calls on a line

The calls of a Kode program that takes its functions from `kode`, the channels, the file
system and the console, with single-quoted literals and decimal numbers as arguments. Here
is how a call is written on a line, and what `ParseLine` makes of the line: the arguments
that it splits off are those of the call, and the literals come out of their quotes
unchanged.

What stands in the line outside the quotes is the name of the function and characters that
have a place in a list of numbers. Another text can occur in the line only in the name or
inside a literal.
-/

import Kode.Parser.Parse

namespace Kode.Parser

open Kode.Library

/-- The contents of a single-quoted literal. -/
structure Literal where
  text : Text
  noQuote : '\'' ∉ text
  noBackslash : '\\' ∉ text
  oneLine : '\n' ∉ text

/-- A decimal number: an integer with or without a fraction. -/
structure Number extends Numeral where
  fraction : Text
  fractionDigits : ∀ c ∈ fraction, c.isDigit = true

def Number.written (number : Number) : Text :=
  number.text ++ if number.fraction = [] then [] else '.' :: number.fraction

inductive Argument
  | literal (contents : Literal)
  | number (value : Number)

namespace Argument

def written : Argument → Text
  | literal contents => '\'' :: (contents.text ++ ['\''])
  | number value => value.written

/-- What stands in the place of the argument when quotes are taken away. -/
def content : Argument → Text
  | literal contents => contents.text
  | number value => value.written

/-- The contents of the literal, if it is one. -/
def literal? : Argument → Option Text
  | literal contents => some contents.text
  | number _ => none

end Argument

inductive Callee
  | kode
  | createChannel | sendToChannel | receiveFromChannel
  | withTimeout
  | writeFile
  | log | error | warn | info
  deriving DecidableEq, Repr

def Callee.name : Callee → Text
  | kode => "kode".toList
  | createChannel => "createChannel".toList
  | sendToChannel => "sendToChannel".toList
  | receiveFromChannel => "receiveFromChannel".toList
  | withTimeout => "withTimeout".toList
  | writeFile => "fs.writeFile".toList
  | log => "console.log".toList
  | error => "console.error".toList
  | warn => "console.warn".toList
  | info => "console.info".toList

structure Call where
  callee : Callee
  args : List Argument

/-- Arguments joined with commas, each followed by so many spaces. -/
def writeArguments (spaces : ℕ) : List Argument → Text
  | [] => []
  | first :: rest =>
      joinArguments first.written
        (rest.map fun argument => (List.replicate spaces ' ', argument.written))

namespace Call

def written (spaces : ℕ) (call : Call) : Text :=
  call.callee.name ++ '(' :: (writeArguments spaces call.args ++ [')'])

/-- The line of a call, with its semicolon. -/
def line (spaces : ℕ) (call : Call) : Text := call.written spaces ++ [';']

/-- The contents of the literals. -/
def literals (call : Call) : List Text := call.args.filterMap Argument.literal?

end Call

/-! ## Arguments -/

/-- What the scanner remembers between single quotes. -/
def Mode.single : Mode := ⟨true, false, false, false, 0⟩

theorem Scanner.mode_single {scanner : Scanner} {text : Text}
    (single : scanner.toMode = .single) (noQuote : '\'' ∉ text) (noBackslash : '\\' ∉ text) :
    (scanner.scan text).toMode = .single := by
  induction text generalizing scanner with
  | nil => exact single
  | cons c text ih =>
      rw [List.mem_cons, not_or] at noQuote noBackslash
      refine ih ?_ noQuote.2 noBackslash.2
      have start : scanner.toMode = (⟨.single, [], []⟩ : Scanner).toMode := single
      rw [mode_step start]
      simp [step, push, Mode.single, noQuote.1, noBackslash.1, Ne.symm]

theorem closed_literal (literal : Literal) : Closed ('\'' :: (literal.text ++ ['\''])) := by
  have inside : ∀ {before : Text}, before <+: literal.text →
      ((Scanner.start.step '\'').scan before).toMode = .single := fun front =>
    Scanner.mode_single rfl (fun member => literal.noQuote (front.subset member))
      fun member => literal.noBackslash (front.subset member)
  constructor
  · have last : ((Scanner.start.step '\'').scan literal.text).toMode =
        (⟨.single, [], []⟩ : Scanner).toMode := inside List.prefix_rfl
    rw [Scanner.scan_cons, Scanner.scan_append, Scanner.scan_cons, Scanner.scan_nil,
      Scanner.mode_step last]
    rfl
  · intro before c after split outside
    cases before with
    | nil =>
        obtain ⟨rfl, -⟩ := List.cons.inj split
        decide
    | cons first before =>
        -- the quote is open here
        obtain ⟨rfl, rest⟩ := List.cons.inj split
        have front : before <+: literal.text := by
          have same : literal.text ++ ['\''] = before ++ c :: after := rest
          have shorter := congrArg List.dropLast same
          rw [List.dropLast_concat, List.dropLast_append_of_ne_nil (List.cons_ne_nil c after)]
            at shorter
          exact ⟨_, shorter.symm⟩
        rw [Scanner.scan_cons, inside front] at outside
        cases outside

theorem Number.mem_written {number : Number} {c : Char} (member : c ∈ number.written) :
    c = '-' ∨ c = '.' ∨ c.isDigit = true := by
  rw [written] at member
  rcases List.mem_append.mp member with whole | behind
  · rcases Numeral.mem_text whole with minus | digit
    · exact Or.inl minus
    · exact Or.inr (Or.inr digit)
  · split_ifs at behind
    · cases behind
    · rcases List.mem_cons.mp behind with point | digit
      · exact Or.inr (Or.inl point)
      · exact Or.inr (Or.inr (number.fractionDigits c digit))

/-- Characters that stand in a list of numbers. -/
def isPlain (c : Char) : Bool := c.isDigit ∨ c ∈ ['-', '.', ',', ' ', ')', ';']

theorem Number.isPlain_of_mem {number : Number} {c : Char} (member : c ∈ number.written) :
    isPlain c = true := by
  rcases mem_written member with rfl | rfl | digit
  · decide
  · decide
  · simp [isPlain, digit]

theorem Number.notSpecial_of_mem {number : Number} {c : Char} (member : c ∈ number.written) :
    c ∉ special := by
  have others : ∀ c ∈ special, ¬ (c = '-' ∨ c = '.' ∨ c.isDigit = true) := by decide
  exact fun found => others c found (mem_written member)

theorem Number.notBlank_of_mem {number : Number} {c : Char} (member : c ∈ number.written) :
    isBlank c = false := by
  by_contra blank
  simp only [isBlank, Bool.not_eq_false, decide_eq_true_eq] at blank
  rcases blank with rfl | rfl | rfl | rfl <;> exact absurd (mem_written member) (by decide)

theorem Number.written_ne_nil (number : Number) : number.written ≠ [] :=
  List.append_ne_nil_of_left_ne_nil (Numeral.text_ne_nil _) _

namespace Argument

theorem closed_written : (argument : Argument) → Closed argument.written
  | literal contents => closed_literal contents
  | number _ => closed_of_plain fun _ => Number.notSpecial_of_mem

theorem trimmed_written : (argument : Argument) → Trimmed argument.written
  | literal contents => by
      rw [written, Trimmed, ← List.cons_append, List.getLast?_concat]
      simp [isBlank]
  | number value => by
      constructor
      · exact fun c head => Number.notBlank_of_mem (List.mem_of_mem_head? head)
      · exact fun c last => Number.notBlank_of_mem (List.mem_of_mem_getLast? last)

theorem written_ne_nil : (argument : Argument) → argument.written ≠ []
  | literal _ => List.cons_ne_nil _ _
  | number value => value.written_ne_nil

/-- A literal comes out of its quotes, and a number stays as it is. -/
theorem extractStringLiteral_written (argument : Argument) :
    extractStringLiteral argument.written = argument.content := by
  rw [extractStringLiteral, trimWhitespace_of_trimmed argument.trimmed_written]
  cases argument with
  | literal contents =>
      have quoted : quotedBy '\'' (literal contents).written = true := by
        rw [quotedBy, written, ← List.cons_append, List.getLast?_concat]
        simp
      rw [if_pos quoted, written, List.tail_cons, List.dropLast_concat, content]
  | number value =>
      have unquoted : ∀ {quote : Char}, quote ∈ special →
          ¬ quotedBy quote (number value).written = true := by
        intro quote found quoted
        simp only [quotedBy, decide_eq_true_eq] at quoted
        exact Number.notSpecial_of_mem (List.mem_of_mem_head? quoted.2.1) found
      rw [if_neg (unquoted (by decide)), if_neg (unquoted (by decide)),
        if_neg (unquoted (by decide)), written, content]

end Argument

theorem splitArguments_writeArguments (spaces : ℕ) (args : List Argument) :
    splitArguments (writeArguments spaces args) = args.map Argument.written := by
  cases args with
  | nil => rfl
  | cons first rest =>
      rw [writeArguments, splitArguments_join ⟨first.closed_written, first.trimmed_written⟩]
      · simp
      · intro piece member
        obtain ⟨argument, -, rfl⟩ := List.mem_map.mp member
        exact ⟨argument.closed_written, argument.trimmed_written⟩
      · intro piece member c space
        obtain ⟨argument, -, rfl⟩ := List.mem_map.mp member
        obtain rfl := List.eq_of_mem_replicate space
        decide
      · exact Or.inl first.written_ne_nil

/-! ## Lines -/

theorem Callee.noParen (callee : Callee) : '(' ∉ callee.name := by
  cases callee <;> decide

theorem Callee.trimmed_concat (callee : Callee) (middle : Text) {last : Char}
    (visible : isBlank last = false) : Trimmed (callee.name ++ middle ++ [last]) := by
  have first : ∃ c more, callee.name = c :: more ∧ isBlank c = false := by
    cases callee <;> exact ⟨_, _, rfl, by decide⟩
  obtain ⟨c, more, name, start⟩ := first
  constructor
  · simpa [name] using start
  · simpa using visible

/-- The beginning of a line shows the name of the function. -/
theorem startsWith_call (name body : Text) {text : String} (last : '(' ∉ text.toList.dropLast) :
    startsWith (name ++ '(' :: body) text = text.toList.isPrefixOf (name ++ ['(']) := by
  have whole : name ++ ['('] <+: name ++ '(' :: body := ⟨body, by simp⟩
  rw [startsWith, Bool.eq_iff_iff, List.isPrefixOf_iff_prefix, List.isPrefixOf_iff_prefix]
  constructor
  · intro front
    rcases List.prefix_or_prefix_of_prefix front whole with short | ⟨more, split⟩
    · exact short
    · -- a longer text has a parenthesis before its last character
      cases more with
      | nil => exact ⟨[], by rw [List.append_nil, ← split, List.append_nil]⟩
      | cons c more =>
          rw [← split, List.dropLast_append_of_ne_nil (List.cons_ne_nil c more)] at last
          exact absurd (by simp) last
  · exact fun front => front.trans whole

namespace Call

theorem extractFunctionArguments_written (spaces : ℕ) (call : Call) :
    extractFunctionArguments (call.written spaces) = call.args.map Argument.written := by
  rw [written, extractFunctionArguments_call call.callee.noParen, splitArguments_writeArguments]

theorem parenthesized_written (spaces : ℕ) (call : Call) :
    parenthesized (call.written spaces) = some (writeArguments spaces call.args) :=
  parenthesized_call call.callee.noParen _

theorem trimmed_written (spaces : ℕ) (call : Call) : Trimmed (call.written spaces) := by
  rw [written, ← List.cons_append, ← List.append_assoc]
  exact call.callee.trimmed_concat _ (by decide)

theorem trimmed_line (spaces : ℕ) (call : Call) : Trimmed (call.line spaces) :=
  call.callee.trimmed_concat _ (by decide)

theorem trim_removeSemicolons_written (spaces : ℕ) (call : Call) :
    trimWhitespace (removeSemicolons (call.written spaces)) = call.written spaces := by
  have last : (call.written spaces).getLast? = some ')' := by
    rw [written, ← List.cons_append, ← List.append_assoc, List.getLast?_concat]
  have unchanged : removeSemicolons (call.written spaces) = call.written spaces := by
    rw [removeSemicolons, last, if_neg (by decide)]
  rw [unchanged, trimWhitespace_of_trimmed (call.trimmed_written spaces)]

theorem trim_removeSemicolons_line (spaces : ℕ) (call : Call) :
    trimWhitespace (removeSemicolons (call.line spaces)) = call.written spaces := by
  rw [removeSemicolons, line, List.getLast?_concat, if_pos rfl, List.dropLast_concat]
  exact trimWhitespace_of_trimmed (call.trimmed_written spaces)

end Call

/-- The branch of `ParseLine` for a function. -/
def Callee.parse (callee : Callee) (trimmed : Text) (args : List Text) : Statement :=
  match callee with
  | kode => parseSpawn args
  | createChannel => parseCreate args
  | sendToChannel => parseSend args
  | receiveFromChannel => parseReceive args
  | withTimeout => parseWithTimeout args
  | writeFile => parseWriteFile args
  | log | error | warn | info => parseConsole trimmed

theorem yield_test (trimmed : Text) :
    (decide (trimmed = "yield()".toList) || startsWith trimmed "yield(") =
      startsWith trimmed "yield(" := by
  by_cases same : trimmed = "yield()".toList
  · rw [same]
    rfl
  · rw [decide_eq_false same, Bool.false_or]

namespace Call

/-- `ParseLine` takes the branch of the function that is called. -/
theorem parseLine_of_written {spaces : ℕ} {call : Call} {line : Text}
    (same : trimWhitespace (removeSemicolons line) = call.written spaces) :
    parseLine line =
      call.callee.parse (call.written spaces) (call.args.map Argument.written) := by
  have starts : ∀ text ∈ ["kode(", "createChannel(", "sendToChannel(", "receiveFromChannel(",
      "yield(", "withTimeout(", "console.", "setTimeout", "setInterval", "fs.readFile",
      "fs.readFileSync", "fs.writeFile"], startsWith (call.written spaces) text =
        text.toList.isPrefixOf (call.callee.name ++ ['(']) := by
    have last : ∀ text ∈ ["kode(", "createChannel(", "sendToChannel(", "receiveFromChannel(",
        "yield(", "withTimeout(", "console.", "setTimeout", "setInterval", "fs.readFile",
        "fs.readFileSync", "fs.writeFile"], '(' ∉ text.toList.dropLast := by decide
    exact fun text member => startsWith_call call.callee.name _ (last text member)
  simp only [List.forall_mem_cons] at starts
  obtain ⟨kode, create, send, receive, yield, withTimeout, console, setTimeout, setInterval,
    readFile, readFileSync, writeFile, -⟩ := starts
  simp only [parseLine, parseOther, same, yield_test, extractFunctionArguments_written]
  simp only [kode, create, send, receive, yield, withTimeout, console, setTimeout, setInterval,
    readFile, readFileSync, writeFile]
  generalize call.written spaces = trimmed
  obtain ⟨callee, args⟩ := call
  cases callee <;> rfl

end Call

/-! ## Texts in a line -/

theorem contains_iff {line : Text} {text : String} :
    contains line text = true ↔ text.toList <:+: line := by
  rw [contains, Option.isSome_iff_ne_none, ne_eq, find_eq_none_iff, not_not]

/-- The text before its first parenthesis has a character that is not plain, and there is
no quote in it. -/
def Recognizable (text : String) : Prop :=
  '\'' ∉ text.toList ∧ ∃ c ∈ text.toList.takeWhile (· ≠ '('), isPlain c = false

instance (text : String) : Decidable (Recognizable text) :=
  @instDecidableAnd _ _ inferInstance (List.decidableBEx _ _)

theorem Argument.quoted_written : (argument : Argument) →
    Quoted '\'' (isPlain · = true) argument.literal?.toList argument.written
  | literal contents => Quoted.nil.quoted contents.text
  | number _ => Quoted.of_plain fun _ => Number.isPlain_of_mem

theorem filterMap_literal?_cons (argument : Argument) (rest : List Argument) :
    (argument :: rest).filterMap Argument.literal? =
      argument.literal?.toList ++ rest.filterMap Argument.literal? := by
  cases argument <;> rfl

theorem quoted_rest (spaces : ℕ) (rest : List Argument) :
    Quoted '\'' (isPlain · = true) (rest.filterMap Argument.literal?)
      ((rest.map fun argument => (List.replicate spaces ' ', argument.written)).flatMap
        fun piece => ',' :: (piece.1 ++ piece.2)) := by
  induction rest with
  | nil => exact .nil
  | cons argument rest ih =>
      have gap : ∀ c ∈ ',' :: List.replicate spaces ' ', isPlain c = true := by
        intro c member
        rcases List.mem_cons.mp member with rfl | space
        · decide
        · obtain rfl := List.eq_of_mem_replicate space
          decide
      have comma : Quoted '\'' (isPlain · = true) [] (',' :: List.replicate spaces ' ') :=
        Quoted.of_plain gap
      have whole := comma.append (argument.quoted_written.append ih)
      rwa [List.nil_append, ← filterMap_literal?_cons, List.cons_append, ← List.append_assoc]
        at whole

theorem quoted_writeArguments (spaces : ℕ) (args : List Argument) :
    Quoted '\'' (isPlain · = true) (args.filterMap Argument.literal?)
      (writeArguments spaces args) := by
  cases args with
  | nil => exact .nil
  | cons first rest =>
      rw [filterMap_literal?_cons]
      exact first.quoted_written.append (quoted_rest spaces rest)

/-- A text occurs in the line of a call if it occurs in one of its literals, and otherwise
only where the name is. -/
theorem contains_call_iff {name body : Text} {parts : List Text} {text : String}
    (quoting : Quoted '\'' (isPlain · = true) parts body) (recognizable : Recognizable text)
    (absent : ¬ text.toList.takeWhile (· ≠ '(') <:+: name) :
    contains (name ++ '(' :: body) text = true ↔ ∃ part ∈ parts, text.toList <:+: part := by
  obtain ⟨free, c, member, other⟩ := recognizable
  have front := List.takeWhile_prefix (p := (· ≠ '(')) (l := text.toList)
  rw [contains_iff]
  constructor
  · intro found
    have split : text.toList <:+: (name ++ ['(']) ++ body := by simpa using found
    have letter : ¬ isPlain c = true := by simp [other]
    rcases quoting.infix_append free (front.subset member) letter split with
      inside | ⟨more, plain, before⟩
    · exact inside
    · -- the part before the parenthesis would stand in the name or among plain characters
      have start : text.toList.takeWhile (· ≠ '(') <:+: name ++ '(' :: more := by
        simpa using front.isInfix.trans before
      have noParen : '(' ∉ text.toList.takeWhile (· ≠ '(') := by
        intro paren
        simpa using List.mem_takeWhile_imp paren
      rcases (infix_append_cons_iff noParen).mp start with inName | behind
      · exact absurd inName absent
      · exact absurd (plain c (behind.subset member)) letter
  · rintro ⟨part, member, found⟩
    refine found.trans ((quoting.infix_of_mem member).trans (List.IsSuffix.isInfix ?_))
    exact (List.suffix_cons '(' body).trans (List.suffix_append name _)

end Kode.Parser
