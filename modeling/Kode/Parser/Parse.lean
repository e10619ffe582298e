/-
# Statements

`KodeParser::Parse` turns each line of a program into at most one statement. A line is
recognized by how it begins. The parser does not look for the end of a function body; it
counts braces, and from a line with an arrow or the word `function` on it leaves lines out
until the count is back at zero. It also leaves out every line in which one of a list of
texts occurs.

`Statement` has the fields that `ParseLine` sets. Its options are a map whose keys are
fixed texts; here each key is a field.
-/

import Kode.Library.Decimal
import Kode.Parser.Arguments
import Mathlib.Data.List.Forall2

namespace Kode.Parser

open Kode.Library

/-- The types that `ParseLine` gives to a statement. -/
inductive StatementType
  | consoleLog | consoleError | consoleWarn | consoleInfo
  | setTimeout
  | kodeSpawn | chCreate | chSend | chRecv | yieldOp | withTimeout
  | fsReadFile | fsReadFileSync | fsWriteFile
  | require
  | constDeclaration | letDeclaration | varDeclaration
  | unknown
  deriving DecidableEq, Repr

structure Options where
  name : Option Text := none
  capacity : Option Text := none
  value : Option Text := none
  timeout : Option Text := none
  delay : Option Text := none
  encoding : Option Text := none
  content : Option Text := none
  deriving DecidableEq, Repr

structure Statement where
  type : StatementType
  content : Text := []
  options : Options := {}
  deriving DecidableEq, Repr

/-- `std::stoi`, with no result where it throws. -/
def stoi (text : Text) : Option ℤ := readSigned 32 text

/-- `std::stoll`. -/
def stoll (text : Text) : Option ℤ := readSigned 64 text

/-- `std::to_string`. -/
def toText (number : ℤ) : Text := (Numeral.ofInt number).text

/-- `line.rfind(text, 0) == 0`. -/
def startsWith (line : Text) (text : String) : Bool := text.toList.isPrefixOf line

/-- `line.find(text) != std::string::npos`. -/
def contains (line : Text) (text : String) : Bool := (find text.toList line).isSome

/-- A text between two quotes of the given kind. -/
def quotedBy (quote : Char) (text : Text) : Bool :=
  2 ≤ text.length ∧ text.head? = some quote ∧ text.getLast? = some quote

/-- `ExtractStringLiteral`. -/
def extractStringLiteral (str : Text) : Text :=
  let trimmed := trimWhitespace str
  if quotedBy '\'' trimmed then trimmed.tail.dropLast
  else if quotedBy '"' trimmed then trimmed.tail.dropLast
  else if quotedBy '\x60' trimmed then trimmed.tail.dropLast
  else trimmed

/-- `ExtractStringLiteral(args[index])`, if there are so many arguments. -/
def literalAt (args : List Text) (index : ℕ) : Option Text :=
  (args[index]?).map extractStringLiteral

/-! ## The branches of `ParseLine` -/

def parseSpawn (args : List Text) : Statement :=
  { type := .kodeSpawn, content := (literalAt args 0).getD [] }

def parseCreate (args : List Text) : Statement :=
  let capacity :=
    match args[1]? with
    | some argument =>
        match stoi argument with
        | some number => toText number
        | none => "0".toList
    | none => "0".toList
  { type := .chCreate, options := { name := literalAt args 0, capacity := some capacity } }

def parseSend (args : List Text) : Statement :=
  if 2 ≤ args.length then
    { type := .chSend, options := { name := literalAt args 0, value := literalAt args 1 } }
  else { type := .chSend }

def parseReceive (args : List Text) : Statement :=
  { type := .chRecv, options := { name := literalAt args 0 } }

def parseWithTimeout (args : List Text) : Statement :=
  let ms := ((args[0]?).bind stoi).getD 0
  { type := .withTimeout
    content := (literalAt args 1).getD []
    options := { timeout := some (toText ms) } }

def consoleType (trimmed : Text) : StatementType :=
  if contains trimmed "console.error" then .consoleError
  else if contains trimmed "console.warn" then .consoleWarn
  else if contains trimmed "console.info" then .consoleInfo
  else .consoleLog

def parseConsole (trimmed : Text) : Statement :=
  { type := consoleType trimmed
    content := ((parenthesized trimmed).map extractStringLiteral).getD [] }

def parseSetTimeout (args : List Text) : Statement :=
  let delay :=
    match args[1]? with
    | some argument => (stoi argument).getD 1000
    | none => 1000
  { type := .setTimeout
    content := "Timer callback executed!".toList
    options := { delay := some (toText delay) } }

/-- The name of the file to read. -/
def fileName (args : List Text) : Text :=
  let content := (literalAt args 0).getD []
  if content = [] then "index.js".toList else content

/-- An encoding that is not empty. -/
def encodingAt (args : List Text) (index : ℕ) : Option Text :=
  (literalAt args index).filter (· ≠ [])

def parseReadFile (args : List Text) : Statement :=
  { type := .fsReadFile, content := fileName args, options := { encoding := encodingAt args 1 } }

def parseReadFileSync (args : List Text) : Statement :=
  { type := .fsReadFileSync, content := fileName args }

def parseWriteFile (args : List Text) : Statement :=
  if 2 ≤ args.length then
    { type := .fsWriteFile
      content := (literalAt args 0).getD []
      options := { content := literalAt args 1, encoding := encodingAt args 2 } }
  else { type := .fsWriteFile }

def parseRequire (trimmed : Text) : Statement :=
  if contains trimmed "require(" then
    { type := .require, content := (literalAt (extractFunctionArguments trimmed) 0).getD [] }
  else
    match find "from ".toList trimmed with
    | some fromPos =>
        { type := .require
          content := extractStringLiteral (trimWhitespace (trimmed.drop (fromPos + 5))) }
    | none => { type := .require }

/-- The part of `ParseLine` behind the concurrency functions. -/
def parseOther (trimmed : Text) : Statement :=
  let args := extractFunctionArguments trimmed
  if startsWith trimmed "console." then parseConsole trimmed
  else if startsWith trimmed "setTimeout" || startsWith trimmed "setInterval" then
    parseSetTimeout args
  else if startsWith trimmed "fs.readFile" && !contains trimmed "Sync" then parseReadFile args
  else if startsWith trimmed "fs.readFileSync" then parseReadFileSync args
  else if startsWith trimmed "fs.writeFile" then parseWriteFile args
  else if startsWith trimmed "require(" || startsWith trimmed "import " then parseRequire trimmed
  else if find "const ".toList trimmed = some 0 then
    { type := .constDeclaration, content := trimmed }
  else if find "let ".toList trimmed = some 0 then
    { type := .letDeclaration, content := trimmed }
  else if find "var ".toList trimmed = some 0 then
    { type := .varDeclaration, content := trimmed }
  else { type := .unknown }

/-- `ParseLine`. -/
def parseLine (line : Text) : Statement :=
  let trimmed := trimWhitespace (removeSemicolons line)
  let args := extractFunctionArguments trimmed
  if startsWith trimmed "kode(" then parseSpawn args
  else if startsWith trimmed "createChannel(" then parseCreate args
  else if startsWith trimmed "sendToChannel(" then parseSend args
  else if startsWith trimmed "receiveFromChannel(" then parseReceive args
  else if trimmed = "yield()".toList || startsWith trimmed "yield(" then { type := .yieldOp }
  else if startsWith trimmed "withTimeout(" then parseWithTimeout args
  else parseOther trimmed

/-! ## Whole programs -/

/-- The texts that `IsCallbackPattern` looks for. -/
def callbackPatterns : List String :=
  ["if (err)", "if (error)", "\x7d else \x7b", "\x7d catch", "\x7d finally",
    "return;", "throw", "break;", "continue;",
    "err", "error", "data.toString()", ".then(", ".catch("]

/-- `IsCallbackPattern`. -/
def isCallbackPattern (line : Text) : Bool := callbackPatterns.any (contains line)

/-- The local variables of `Parse`. -/
structure ParseState where
  insideCallback : Bool := false
  braceDepth : ℤ := 0
  statements : List Statement := []
  deriving DecidableEq, Repr

/-- The loop that counts the braces of a line. -/
def countBraces (braceDepth : ℤ) (line : Text) : ℤ :=
  line.foldl (fun depth c => if c = '\x7b' then depth + 1 else if c = '\x7d' then depth - 1
    else depth) braceDepth

/-- The line starts a callback. -/
def startsCallback (line : Text) : Bool := contains line "=>" || contains line "function"

/-- One iteration of the loop of `Parse`. -/
def parseStep (state : ParseState) (line : Text) : ParseState :=
  let trimmed := trimWhitespace line
  if trimmed = [] then state
  else
    let braceDepth := countBraces state.braceDepth trimmed
    let insideCallback := state.insideCallback || startsCallback trimmed
    if insideCallback && 0 < braceDepth then { state with insideCallback, braceDepth }
    else if insideCallback && braceDepth ≤ 0 then
      { state with insideCallback := false, braceDepth }
    else if isCallbackPattern trimmed then { state with insideCallback, braceDepth }
    else
      let stmt := parseLine trimmed
      if stmt.type ≠ .unknown then
        { insideCallback, braceDepth, statements := state.statements ++ [stmt] }
      else { state with insideCallback, braceDepth }

/-- `Parse`. -/
def parse (code : Text) : List Statement :=
  ((splitIntoLines (removeComments code)).foldl parseStep {}).statements

/-! ## The texts of a statement -/

/-- Where a statement keeps a text of its line. -/
inductive Field
  | content | name | value | encoding | fileContent
  deriving DecidableEq, Repr

def Statement.read (stmt : Statement) : Field → Option Text
  | .content => some stmt.content
  | .name => stmt.options.name
  | .value => stmt.options.value
  | .encoding => stmt.options.encoding
  | .fileContent => stmt.options.content

/-- The texts that stand in for a missing one. -/
def defaults : List Text := ["index.js".toList, "Timer callback executed!".toList]

/-- A text stands in the line, unless it is one of the defaults. -/
def Taken (line text : Text) : Prop := text <:+: line ∨ text ∈ defaults

/-- Every text of the statement is taken from the line. -/
def TakenFrom (line : Text) (stmt : Statement) : Prop :=
  ∀ field text, stmt.read field = some text → Taken line text

theorem Taken.nil (line : Text) : Taken line [] := Or.inl List.nil_infix

theorem infix_extractStringLiteral (str : Text) : extractStringLiteral str <:+: str := by
  have inner : ∀ text : Text, text.tail.dropLast <:+: text := fun text =>
    (List.dropLast_prefix text.tail).isInfix.trans (List.tail_suffix text).isInfix
  have trimmed := infix_trimWhitespace str
  rw [extractStringLiteral]
  split_ifs
  · exact (inner _).trans trimmed
  · exact (inner _).trans trimmed
  · exact (inner _).trans trimmed
  · exact trimmed

section Branches

variable {line : Text} {args : List Text}

theorem taken_literalAt (inside : ∀ argument ∈ args, argument <:+: line) {index : ℕ} {text : Text}
    (found : literalAt args index = some text) : Taken line text := by
  obtain ⟨argument, here, rfl⟩ := Option.map_eq_some_iff.mp found
  have member := inside argument (List.mem_of_getElem? here)
  exact Or.inl ((infix_extractStringLiteral argument).trans member)

theorem taken_literalAt_getD (inside : ∀ argument ∈ args, argument <:+: line) (index : ℕ) :
    Taken line ((literalAt args index).getD []) := by
  cases found : literalAt args index with
  | none => exact Taken.nil line
  | some text => exact taken_literalAt inside found

theorem taken_encodingAt (inside : ∀ argument ∈ args, argument <:+: line) {index : ℕ}
    {text : Text} (found : encodingAt args index = some text) : Taken line text :=
  taken_literalAt inside (Option.filter_eq_some_iff.mp found).1

theorem taken_fileName (inside : ∀ argument ∈ args, argument <:+: line) :
    Taken line (fileName args) := by
  rw [fileName]
  split_ifs
  · exact Or.inr List.mem_cons_self
  · exact taken_literalAt_getD inside 0

theorem takenFrom_mk {stmt : Statement} (content : Taken line stmt.content)
    (name : ∀ text, stmt.options.name = some text → Taken line text)
    (value : ∀ text, stmt.options.value = some text → Taken line text)
    (encoding : ∀ text, stmt.options.encoding = some text → Taken line text)
    (fileContent : ∀ text, stmt.options.content = some text → Taken line text) :
    TakenFrom line stmt
  | .content, _, found => Option.some.inj found ▸ content
  | .name, text, found => name text found
  | .value, text, found => value text found
  | .encoding, text, found => encoding text found
  | .fileContent, text, found => fileContent text found

theorem takenFrom_content {type : StatementType} {content : Text} {timeout delay : Option Text}
    (taken : Taken line content) : TakenFrom line ⟨type, content, { timeout, delay }⟩ :=
  takenFrom_mk taken nofun nofun nofun nofun

theorem takenFrom_ite {condition : Prop} [Decidable condition] {first second : Statement}
    (yes : TakenFrom line first) (no : TakenFrom line second) :
    TakenFrom line (if condition then first else second) := by
  split_ifs
  · exact yes
  · exact no

theorem takenFrom_parseConsole (line : Text) : TakenFrom line (parseConsole line) := by
  refine takenFrom_content ?_
  cases found : parenthesized line with
  | none => exact Taken.nil line
  | some s => exact Or.inl ((infix_extractStringLiteral s).trans (infix_of_parenthesized found))

theorem takenFrom_parseWriteFile (inside : ∀ argument ∈ args, argument <:+: line) :
    TakenFrom line (parseWriteFile args) := by
  refine takenFrom_ite ?_ (takenFrom_content (Taken.nil line))
  exact takenFrom_mk (taken_literalAt_getD inside 0) nofun nofun
    (fun _ => taken_encodingAt inside) fun _ => taken_literalAt inside

theorem takenFrom_parseRequire (inside : ∀ argument ∈ extractFunctionArguments line,
    argument <:+: line) : TakenFrom line (parseRequire line) := by
  refine takenFrom_ite (takenFrom_content (taken_literalAt_getD inside 0)) ?_
  split
  · refine takenFrom_content (Or.inl ((infix_extractStringLiteral _).trans ?_))
    exact (infix_trimWhitespace _).trans (List.drop_suffix _ _).isInfix
  · exact takenFrom_content (Taken.nil line)

theorem takenFrom_parseOther (line : Text) : TakenFrom line (parseOther line) := by
  have inside : ∀ argument ∈ extractFunctionArguments line, argument <:+: line :=
    fun argument => infix_of_mem_extractFunctionArguments
  have whole : Taken line line := Or.inl List.infix_rfl
  refine takenFrom_ite (takenFrom_parseConsole line) (takenFrom_ite ?setTimeout
    (takenFrom_ite ?readFile (takenFrom_ite ?readFileSync (takenFrom_ite
      (takenFrom_parseWriteFile inside) (takenFrom_ite (takenFrom_parseRequire inside)
        (takenFrom_ite (takenFrom_content whole) (takenFrom_ite (takenFrom_content whole)
          (takenFrom_ite (takenFrom_content whole) (takenFrom_content (Taken.nil line))))))))))
  case setTimeout => exact takenFrom_content (Or.inr (List.mem_cons_of_mem _ List.mem_cons_self))
  case readFile =>
    exact takenFrom_mk (taken_fileName inside) nofun nofun (fun _ => taken_encodingAt inside) nofun
  case readFileSync => exact takenFrom_content (taken_fileName inside)

/-- Every text of a statement stands in its line. -/
theorem takenFrom_parseLine (line : Text) : TakenFrom line (parseLine line) := by
  have part : trimWhitespace (removeSemicolons line) <:+: line := by
    refine (infix_trimWhitespace _).trans ?_
    rw [removeSemicolons]
    split_ifs
    · exact (List.dropLast_prefix line).isInfix
    · exact List.infix_rfl
  have inside : ∀ argument ∈ extractFunctionArguments (trimWhitespace (removeSemicolons line)),
      argument <:+: line :=
    fun argument member => (infix_of_mem_extractFunctionArguments member).trans part
  have named : ∀ text, literalAt (extractFunctionArguments
      (trimWhitespace (removeSemicolons line))) 0 = some text → Taken line text :=
    fun _ => taken_literalAt inside
  refine takenFrom_ite ?spawn (takenFrom_ite ?create (takenFrom_ite ?send (takenFrom_ite ?receive
    (takenFrom_ite (takenFrom_content (Taken.nil line)) (takenFrom_ite ?withTimeout ?other)))))
  case spawn => exact takenFrom_content (taken_literalAt_getD inside 0)
  case create => exact takenFrom_mk (Taken.nil line) named nofun nofun nofun
  case send =>
    refine takenFrom_ite ?_ (takenFrom_content (Taken.nil line))
    exact takenFrom_mk (Taken.nil line) named (fun _ => taken_literalAt inside) nofun nofun
  case receive => exact takenFrom_mk (Taken.nil line) named nofun nofun nofun
  case withTimeout => exact takenFrom_content (taken_literalAt_getD inside 1)
  case other =>
    intro field text found
    refine (takenFrom_parseOther _ field text found).imp_left ?_
    exact fun inner => inner.trans part

end Branches

/-! ## Line by line -/

/-- What a line gives outside callbacks. -/
def lineStatement (line : Text) : Option Statement :=
  let trimmed := trimWhitespace line
  if trimmed = [] ∨ startsCallback trimmed = true ∨ isCallbackPattern trimmed = true then none
  else if (parseLine trimmed).type = .unknown then none
  else some (parseLine trimmed)

/-- A step adds what the line gives, except inside a callback. -/
theorem parseStep_statements (state : ParseState) (line : Text) :
    (parseStep state line).statements =
      state.statements ++ if state.insideCallback then [] else (lineStatement line).toList := by
  simp only [parseStep, lineStatement]
  generalize trimWhitespace line = trimmed
  generalize countBraces state.braceDepth trimmed = depth
  generalize startsCallback trimmed = starts
  generalize isCallbackPattern trimmed = pattern
  generalize parseLine trimmed = stmt
  by_cases blank : trimmed = []
  · simp [blank]
  · rcases lt_or_ge 0 depth with deep | shallow
    · cases state.insideCallback <;> cases starts <;> cases pattern <;> simp [*]
      split_ifs <;> simp
    · cases state.insideCallback <;> cases starts <;> cases pattern <;> simp [*, not_lt.mpr]
      split_ifs <;> simp

theorem parseStep_insideCallback {state : ParseState} {line : Text}
    (outside : state.insideCallback = false) (given : (lineStatement line).isSome) :
    (parseStep state line).insideCallback = false := by
  simp only [parseStep, lineStatement] at given ⊢
  split_ifs at given with left_out unknown
  · simp at given
  · simp at given
  · simp only [not_or, Bool.not_eq_true] at left_out
    simp [outside, left_out, unknown]

/-- The statements of a program are among those that its lines give. -/
theorem parseStep_sublist (state : ParseState) (lines : List Text) :
    ∃ kept, (lines.foldl parseStep state).statements = state.statements ++ kept ∧
      kept.Sublist (lines.filterMap lineStatement) := by
  induction lines generalizing state with
  | nil => exact ⟨[], by simp, List.Sublist.refl _⟩
  | cons line lines ih =>
      obtain ⟨kept, statements, inside⟩ := ih (parseStep state line)
      rw [List.foldl_cons, statements, parseStep_statements, List.append_assoc]
      refine ⟨_, rfl, ?_⟩
      cases given : lineStatement line with
      | none => simpa [given] using inside
      | some stmt =>
          rw [List.filterMap_cons_some given]
          split
          · exact inside.trans (List.sublist_cons_self _ _)
          · exact inside.cons_cons stmt

/-- Where every line gives a statement, none is lost. -/
theorem parseStep_filterMap {state : ParseState} {lines : List Text}
    (outside : state.insideCallback = false)
    (given : ∀ line ∈ lines, (lineStatement line).isSome) :
    (lines.foldl parseStep state).statements =
      state.statements ++ lines.filterMap lineStatement := by
  induction lines generalizing state with
  | nil => simp
  | cons line lines ih =>
      have here := given line List.mem_cons_self
      have later := fun other member => given other (List.mem_cons_of_mem line member)
      rw [List.foldl_cons, ih (parseStep_insideCallback outside here) later,
        parseStep_statements, outside]
      obtain ⟨stmt, found⟩ := Option.isSome_iff_exists.mp here
      simp [found]

theorem forall₂_filterMap {α β : Type} {R : α → β → Prop} {f : α → Option β} {items : List α}
    (given : ∀ item ∈ items, (f item).isSome) :
    List.Forall₂ R items (items.filterMap f) ↔
      ∀ item ∈ items, ∃ result, f item = some result ∧ R item result := by
  induction items with
  | nil => simp
  | cons item items ih =>
      obtain ⟨result, found⟩ := Option.isSome_iff_exists.mp (given item List.mem_cons_self)
      have later := ih fun other member => given other (List.mem_cons_of_mem item member)
      rw [List.filterMap_cons_some found, List.forall₂_cons, later]
      simp [found]

/-- The statements of a program correspond one by one to items, each written on a line of
its own, if and only if each line by itself gives the statement of its item. -/
theorem forall₂_foldl_parseStep {α : Type} {R : α → Statement → Prop} (lineOf : α → Text)
    (items : List α) :
    List.Forall₂ R items ((items.map lineOf).foldl parseStep {}).statements ↔
      ∀ item ∈ items, ∃ stmt, lineStatement (lineOf item) = some stmt ∧ R item stmt := by
  have pieces : (items.map lineOf).filterMap lineStatement =
      items.filterMap (lineStatement ∘ lineOf) := List.filterMap_map
  constructor
  · intro related
    obtain ⟨kept, statements, inside⟩ := parseStep_sublist {} (items.map lineOf)
    rw [List.nil_append] at statements
    rw [statements] at related
    rw [pieces] at inside
    have length := List.Forall₂.length_eq related
    have most : (items.filterMap (lineStatement ∘ lineOf)).length ≤ kept.length :=
      (List.length_filterMap_le _ _).trans length.le
    have all := inside.eq_of_length_le most
    have given : ∀ item ∈ items, ((lineStatement ∘ lineOf) item).isSome := by
      rw [← List.filterMap_length_eq_length, ← all, length]
    rw [all] at related
    exact (forall₂_filterMap given).mp related
  · intro each
    have given : ∀ item ∈ items, ((lineStatement ∘ lineOf) item).isSome := by
      intro item member
      obtain ⟨stmt, found, -⟩ := each item member
      exact Option.isSome_iff_exists.mpr ⟨stmt, found⟩
    rw [parseStep_filterMap rfl (by simpa using given), List.nil_append, pieces]
    exact (forall₂_filterMap given).mpr each

/-- `Parse` reads what is left of each line without its comment. -/
theorem parse_writeLines {lines : List Text} (oneLine : ∀ line ∈ lines, '\n' ∉ line) :
    parse (writeLines lines) = ((lines.map cutComment).foldl parseStep {}).statements := by
  have cut : ∀ line ∈ lines.map cutComment, '\n' ∉ line := by
    intro line member newline
    obtain ⟨whole, inside, rfl⟩ := List.mem_map.mp member
    exact oneLine whole inside ((prefix_cutAt _ whole).subset newline)
  rw [parse, removeComments_writeLines oneLine, splitIntoLines_writeLines cut]

end Kode.Parser
