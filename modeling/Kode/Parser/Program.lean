/-
# Programs of calls

A program of calls, one on each line, and the statements that `Parse` returns for it. The
parser keeps a call if the statement of its line has the type of the call and holds the
contents of the literals where the call takes them.

A literal can make the parser lose its own line, and also the lines behind it: two slashes
cut the line, an arrow or the word `function` starts a callback, and a text of
`IsCallbackPattern` leaves the line out. Since the name of `console.error` itself contains
such a text, no call of it is kept.
-/

import Kode.Parser.Calls

namespace Kode.Parser

open Kode.Library

/-- The type of the statement of a call. -/
def Callee.type : Callee → StatementType
  | kode => .kodeSpawn
  | createChannel => .chCreate
  | sendToChannel => .chSend
  | receiveFromChannel => .chRecv
  | withTimeout => .withTimeout
  | writeFile => .fsWriteFile
  | log => .consoleLog
  | error => .consoleError
  | warn => .consoleWarn
  | info => .consoleInfo

/-- Where the statement of a call holds a text that is passed as an argument. -/
def Callee.field : Callee → ℕ → Option Field
  | kode, 0 => some .content
  | createChannel, 0 => some .name
  | sendToChannel, 0 => some .name
  | sendToChannel, 1 => some .value
  | receiveFromChannel, 0 => some .name
  | withTimeout, 1 => some .content
  | writeFile, 0 => some .content
  | writeFile, 1 => some .fileContent
  | writeFile, 2 => some .encoding
  | log, 0 | error, 0 | warn, 0 | info, 0 => some .content
  | _, _ => none

/-- The statement has the type of the call and holds the contents of its literals. -/
def Keeps (call : Call) (stmt : Statement) : Prop :=
  stmt.type = call.callee.type ∧
    ∀ index literal, call.args[index]? = some (.literal literal) →
      ∃ field, call.callee.field index = some field ∧ stmt.read field = some literal.text

/-- One call per line, each with a final semicolon. -/
def program (spaces : ℕ) (calls : List Call) : Text := writeLines (calls.map (Call.line spaces))

/-! ## Which calls are kept -/

/-- The texts that start a callback or leave a line out. -/
def leftOut : List String := "=>" :: "function" :: callbackPatterns

/-- With these, the text that starts a comment. -/
def triggers : List String := ["//"] ++ leftOut

/-- The texts that give a call of the console another type. -/
def Callee.confusing : Callee → List String
  | log => ["console.warn", "console.info"]
  | info => ["console.warn"]
  | _ => []

/-- `ParseLine` stores a literal of these contents that is the argument with this index
among so many. -/
def Callee.Stores (callee : Callee) (count index : ℕ) (contents : Text) : Prop :=
  match callee with
  | kode | createChannel | receiveFromChannel => index = 0
  | sendToChannel => 2 ≤ count ∧ index < 2
  | withTimeout => index = 1
  | writeFile => index = 0 ∧ (2 ≤ count ∨ contents = []) ∨ index = 1 ∨ index = 2 ∧ contents ≠ []
  | log | error | warn | info => count = 1 ∧ index = 0

/-- The literals of the call contain none of the texts. -/
def Call.FreeOf (call : Call) (texts : List String) : Prop :=
  ∀ contents ∈ call.literals, ∀ text ∈ texts, ¬ text.toList <:+: contents

/-- The parser understands the call. -/
structure Readable (call : Call) : Prop where
  notError : call.callee ≠ .error
  harmless : call.FreeOf (triggers ++ call.callee.confusing)
  stored : ∀ index literal, call.args[index]? = some (.literal literal) →
    call.callee.Stores call.args.length index literal.text

/-! ## Literals in their places -/

theorem literalAt_written (args : List Argument) (index : ℕ) :
    literalAt (args.map Argument.written) index = (args[index]?).map Argument.content := by
  rw [literalAt, List.getElem?_map, Option.map_map]
  congr 1
  funext argument
  exact argument.extractStringLiteral_written

theorem Trimmed.append {front back : Text} (middle : Text) (first : Trimmed front)
    (second : Trimmed back) (some_front : front ≠ []) (some_back : back ≠ []) :
    Trimmed (front ++ middle ++ back) := by
  constructor
  · rw [List.append_assoc, List.head?_append_of_ne_nil _ some_front]
    exact first.1
  · rw [List.getLast?_append_of_ne_nil _ some_back]
    exact second.2

theorem trimmed_joinArguments {first : Text} {rest : List (Text × Text)} (head : Trimmed first)
    (some_char : first ≠ []) (trimmed : ∀ piece ∈ rest, Trimmed piece.2 ∧ piece.2 ≠ []) :
    Trimmed (joinArguments first rest) := by
  induction rest generalizing first with
  | nil => simpa [joinArguments] using head
  | cons piece rest ih =>
      have here := trimmed piece List.mem_cons_self
      have next := head.append (',' :: piece.1) here.1 some_char here.2
      have whole := ih next (by simp [some_char])
        fun other member => trimmed other (List.mem_cons_of_mem _ member)
      simpa [joinArguments] using whole

/-- Taking off the quotes takes two characters at most. -/
theorem length_extractStringLiteral {str : Text} (trimmed : Trimmed str) :
    str.length ≤ (extractStringLiteral str).length + 2 := by
  have shorter : str.length ≤ str.tail.dropLast.length + 2 := by
    rw [List.length_dropLast, List.length_tail]
    omega
  rw [extractStringLiteral, trimWhitespace_of_trimmed trimmed]
  split_ifs
  · exact shorter
  · exact shorter
  · exact shorter
  · omega

/-- A call of the console holds a literal only if there is no other argument. -/
theorem console_content_iff (spaces : ℕ) {args : List Argument} {literal : Literal}
    (here : args[0]? = some (.literal literal)) :
    extractStringLiteral (writeArguments spaces args) = literal.text ↔ args.length = 1 := by
  cases args with
  | nil => cases here
  | cons first rest =>
      obtain rfl := Option.some.inj here
      cases rest with
      | nil =>
          have alone : writeArguments spaces [.literal literal] =
              (Argument.literal literal).written := by simp [writeArguments, joinArguments]
          rw [alone, Argument.extractStringLiteral_written]
          simp [Argument.content]
      | cons second rest =>
          have trimmed : Trimmed (writeArguments spaces (.literal literal :: second :: rest)) := by
            refine trimmed_joinArguments (Argument.trimmed_written _) (Argument.written_ne_nil _) ?_
            intro piece member
            obtain ⟨argument, -, rfl⟩ := List.mem_map.mp member
            exact ⟨argument.trimmed_written, argument.written_ne_nil⟩
          have longer := length_extractStringLiteral trimmed
          constructor
          · intro same
            rw [same] at longer
            simp only [writeArguments, joinArguments, Argument.written, List.map_cons,
              List.flatMap_cons, List.length_append, List.length_cons] at longer
            omega
          · intro alone
            simp at alone

theorem stores_console_iff (spaces : ℕ) {call : Call} {index : ℕ} {literal : Literal}
    (here : call.args[index]? = some (.literal literal)) :
    (index = 0 ∧ (parseConsole (call.written spaces)).content = literal.text) ↔
      call.args.length = 1 ∧ index = 0 := by
  have content : (parseConsole (call.written spaces)).content =
      extractStringLiteral (writeArguments spaces call.args) := by
    rw [parseConsole, call.parenthesized_written]
    rfl
  rw [content, and_comm]
  refine and_congr_left fun first => console_content_iff spaces ?_
  rwa [first] at here

/-- The branch of a function stores a literal where it should, or not at all. -/
theorem stores_iff (spaces : ℕ) {call : Call} {index : ℕ} {literal : Literal}
    (here : call.args[index]? = some (.literal literal)) :
    (∃ field, call.callee.field index = some field ∧
      (call.callee.parse (call.written spaces) (call.args.map Argument.written)).read field =
        some literal.text) ↔
      call.callee.Stores call.args.length index literal.text := by
  have text : literalAt (call.args.map Argument.written) index = some literal.text := by
    rw [literalAt_written, here]
    rfl
  have inside : index < call.args.length := (List.getElem?_eq_some_iff.mp here).1
  have console := stores_console_iff spaces here
  obtain ⟨callee, args⟩ := call
  replace inside : index < args.length := inside
  cases callee with
  | kode | createChannel | receiveFromChannel =>
      -- one place, for the first argument
      rcases index with _ | index
      · simp [Callee.field, Callee.Stores, Callee.parse, parseSpawn, parseCreate, parseReceive,
          Statement.read, text]
      · simp [Callee.field, Callee.Stores]
  | sendToChannel =>
      by_cases enough : 2 ≤ args.length
      · rcases index with _ | _ | index
        · simp [Callee.field, Callee.Stores, Callee.parse, parseSend, Statement.read, text, enough]
        · simp [Callee.field, Callee.Stores, Callee.parse, parseSend, Statement.read, text, enough]
        · simp [Callee.field, Callee.Stores]
      · obtain rfl : index = 0 := by omega
        simp [Callee.field, Callee.Stores, Callee.parse, parseSend, Statement.read, enough]
  | withTimeout =>
      rcases index with _ | _ | index
      · simp [Callee.field, Callee.Stores]
      · simp [Callee.field, Callee.Stores, Callee.parse, parseWithTimeout, Statement.read, text]
      · simp [Callee.field, Callee.Stores]
  | writeFile =>
      by_cases enough : 2 ≤ args.length
      · rcases index with _ | _ | _ | index
        · simp [Callee.field, Callee.Stores, Callee.parse, parseWriteFile, Statement.read, text,
            enough]
        · simp [Callee.field, Callee.Stores, Callee.parse, parseWriteFile, Statement.read, text,
            enough]
        · simp [Callee.field, Callee.Stores, Callee.parse, parseWriteFile, Statement.read, text,
            enough, encodingAt, Option.filter_some]
        · simp [Callee.field, Callee.Stores]
      · obtain rfl : index = 0 := by omega
        simp [Callee.field, Callee.Stores, Callee.parse, parseWriteFile, Statement.read, enough,
          eq_comm]
  | log | error | warn | info =>
      rcases index with _ | index
      · simpa [Callee.field, Callee.Stores, Callee.parse, Statement.read] using console
      · simp [Callee.field, Callee.Stores]

/-! ## Texts of literals -/

namespace Call

variable {call : Call} {text : String}

/-- A text that is not in the name occurs in a call, and in what is written behind it, only
inside a literal. -/
theorem contains_behind_iff (spaces : ℕ) {back : Text} (plain : ∀ c ∈ back, isPlain c = true)
    (recognizable : Recognizable text)
    (absent : ¬ text.toList.takeWhile (· ≠ '(') <:+: call.callee.name) :
    contains (call.callee.name ++ '(' :: (writeArguments spaces call.args ++ back)) text = true ↔
      ∃ contents ∈ call.literals, text.toList <:+: contents := by
  have body := (quoted_writeArguments spaces call.args).append (Quoted.of_plain plain)
  rw [List.append_nil] at body
  exact contains_call_iff body recognizable absent

theorem contains_written_iff (spaces : ℕ) (recognizable : Recognizable text)
    (absent : ¬ text.toList.takeWhile (· ≠ '(') <:+: call.callee.name) :
    contains (call.written spaces) text = true ↔
      ∃ contents ∈ call.literals, text.toList <:+: contents :=
  contains_behind_iff spaces (by decide) recognizable absent

theorem contains_line_iff (spaces : ℕ) (recognizable : Recognizable text)
    (absent : ¬ text.toList.takeWhile (· ≠ '(') <:+: call.callee.name) :
    contains (call.line spaces) text = true ↔
      ∃ contents ∈ call.literals, text.toList <:+: contents := by
  have split : call.line spaces = call.callee.name ++
      '(' :: (writeArguments spaces call.args ++ [')', ';']) := by
    simp [line, written]
  rw [split]
  exact contains_behind_iff spaces (by decide) recognizable absent

theorem contains_name (spaces : ℕ) (inName : text.toList <:+: call.callee.name) :
    contains (call.written spaces) text = true ∧ contains (call.line spaces) text = true := by
  have front : call.callee.name <+: call.written spaces := List.prefix_append _ _
  rw [contains_iff, contains_iff]
  exact ⟨inName.trans front.isInfix,
    inName.trans (front.trans (List.prefix_append _ _)).isInfix⟩

end Call

theorem recognizable_triggers : ∀ text ∈ triggers, Recognizable text := by decide

/-- The texts by which the branch of the console tells its functions apart. -/
def consoleTexts : List String := ["console.error", "console.warn", "console.info"]

theorem contains_console_iff (spaces : ℕ) {call : Call} {text : String}
    (member : text ∈ consoleTexts) (absent : ¬ text.toList <:+: call.callee.name) :
    contains (call.written spaces) text = true ↔
      ∃ contents ∈ call.literals, text.toList <:+: contents := by
  have whole : ∀ text ∈ consoleTexts,
      Recognizable text ∧ text.toList.takeWhile (· ≠ '(') = text.toList := by decide
  obtain ⟨recognizable, same⟩ := whole text member
  exact call.contains_written_iff spaces recognizable (by rwa [same])

/-- No name except that of `console.error` contains the beginning of such a text. -/
theorem triggers_not_in_name {callee : Callee} (notError : callee ≠ .error) :
    ∀ text ∈ triggers, ¬ text.toList.takeWhile (· ≠ '(') <:+: callee.name := by
  cases callee <;> first | exact absurd rfl notError | decide

section Types

variable {call : Call}

theorem Call.FreeOf.not_contains {texts : List String} {text : String} (free : call.FreeOf texts)
    (member : text ∈ texts) : ¬ ∃ contents ∈ call.literals, text.toList <:+: contents := by
  rintro ⟨contents, inside, found⟩
  exact free contents inside text member found

/-- Outside `console.error`, the first text is not found. -/
theorem consoleType_written (spaces : ℕ) (free : call.FreeOf triggers)
    (absent : ¬ "console.error".toList <:+: call.callee.name) :
    consoleType (call.written spaces) =
      if contains (call.written spaces) "console.warn" then .consoleWarn
      else if contains (call.written spaces) "console.info" then .consoleInfo
      else .consoleLog := by
  have noError : ¬ contains (call.written spaces) "console.error" = true := by
    rw [contains_console_iff spaces (by decide) absent]
    rintro ⟨contents, inside, found⟩
    have part : "error".toList <:+: "console.error".toList := by decide
    exact free contents inside "error" (by decide) (part.trans found)
  rw [consoleType, if_neg noError]

theorem consoleType_log_iff (spaces : ℕ) (isLog : call.callee = .log)
    (free : call.FreeOf triggers) :
    consoleType (call.written spaces) = .consoleLog ↔
      call.FreeOf ["console.warn", "console.info"] := by
  have warn : contains (call.written spaces) "console.warn" = true ↔
      ∃ contents ∈ call.literals, "console.warn".toList <:+: contents :=
    contains_console_iff spaces (by decide) (by rw [isLog]; decide)
  have info : contains (call.written spaces) "console.info" = true ↔
      ∃ contents ∈ call.literals, "console.info".toList <:+: contents :=
    contains_console_iff spaces (by decide) (by rw [isLog]; decide)
  rw [consoleType_written spaces free (by rw [isLog]; decide)]
  split_ifs with isWarn isInfo
  · exact iff_of_false nofun fun clean => clean.not_contains (by decide) (warn.mp isWarn)
  · exact iff_of_false nofun fun clean => clean.not_contains (by decide) (info.mp isInfo)
  · refine iff_of_true rfl (fun contents inside text member found => ?_)
    rcases List.mem_pair.mp member with rfl | rfl
    · exact isWarn (warn.mpr ⟨contents, inside, found⟩)
    · exact isInfo (info.mpr ⟨contents, inside, found⟩)

theorem consoleType_warn (spaces : ℕ) (isWarn : call.callee = .warn)
    (free : call.FreeOf triggers) :
    consoleType (call.written spaces) = .consoleWarn := by
  have warn : contains (call.written spaces) "console.warn" = true :=
    (call.contains_name spaces (by rw [isWarn]; exact List.infix_rfl)).1
  rw [consoleType_written spaces free (by rw [isWarn]; decide), if_pos warn]

theorem consoleType_info_iff (spaces : ℕ) (isInfo : call.callee = .info)
    (free : call.FreeOf triggers) :
    consoleType (call.written spaces) = .consoleInfo ↔ call.FreeOf ["console.warn"] := by
  have warn : contains (call.written spaces) "console.warn" = true ↔
      ∃ contents ∈ call.literals, "console.warn".toList <:+: contents :=
    contains_console_iff spaces (by decide) (by rw [isInfo]; decide)
  have info : contains (call.written spaces) "console.info" = true :=
    (call.contains_name spaces (by rw [isInfo]; exact List.infix_rfl)).1
  rw [consoleType_written spaces free (by rw [isInfo]; decide), if_pos info]
  split_ifs with isWarn
  · exact iff_of_false nofun fun clean => clean.not_contains (by decide) (warn.mp isWarn)
  · refine iff_of_true rfl (fun contents inside text member found => ?_)
    rw [List.mem_singleton] at member
    exact isWarn (warn.mpr ⟨contents, inside, member ▸ found⟩)

theorem type_parse_iff (spaces : ℕ) (notError : call.callee ≠ .error)
    (free : call.FreeOf triggers) :
    (call.callee.parse (call.written spaces) (call.args.map Argument.written)).type =
        call.callee.type ↔ call.FreeOf call.callee.confusing := by
  obtain ⟨callee, args⟩ := call
  have nothing : Call.FreeOf ⟨callee, args⟩ [] := fun _ _ _ member => by cases member
  cases callee with
  | kode | createChannel | receiveFromChannel | withTimeout => exact iff_of_true rfl nothing
  | sendToChannel =>
      refine iff_of_true ?_ nothing
      simp only [Callee.parse, parseSend]
      split_ifs <;> rfl
  | writeFile =>
      refine iff_of_true ?_ nothing
      simp only [Callee.parse, parseWriteFile]
      split_ifs <;> rfl
  | log => exact consoleType_log_iff spaces rfl free
  | error => exact absurd rfl notError
  | warn => exact iff_of_true (consoleType_warn spaces rfl free) nothing
  | info => exact consoleType_info_iff spaces rfl free

theorem Call.freeOf_append {texts others : List String} :
    call.FreeOf (texts ++ others) ↔ call.FreeOf texts ∧ call.FreeOf others := by
  constructor
  · intro free
    exact ⟨fun contents inside text member =>
        free contents inside text (List.mem_append_left _ member),
      fun contents inside text member =>
        free contents inside text (List.mem_append_right _ member)⟩
  · rintro ⟨first, second⟩ contents inside text member
    rcases List.mem_append.mp member with here | there
    · exact first contents inside text here
    · exact second contents inside text there

end Types

/-! ## The statement of a call -/

section Lines

variable {spaces : ℕ} {call : Call}

theorem contains_trigger_iff (notError : call.callee ≠ .error) {text : String}
    (member : text ∈ triggers) :
    contains (call.line spaces) text = true ↔
      ∃ contents ∈ call.literals, text.toList <:+: contents :=
  call.contains_line_iff spaces (recognizable_triggers text member)
    (triggers_not_in_name notError text member)

/-- A line is left out when it contains one of the texts. -/
theorem left_out_iff (line : Text) :
    startsCallback line = true ∨ isCallbackPattern line = true ↔
      ∃ text ∈ leftOut, contains line text = true := by
  simp [startsCallback, isCallbackPattern, leftOut, or_assoc]

theorem type_parse_ne_unknown (callee : Callee) (trimmed : Text) (args : List Text) :
    (callee.parse trimmed args).type ≠ .unknown := by
  cases callee with
  | kode | createChannel | receiveFromChannel | withTimeout => exact nofun
  | sendToChannel => simp only [Callee.parse, parseSend]; split_ifs <;> exact nofun
  | writeFile => simp only [Callee.parse, parseWriteFile]; split_ifs <;> exact nofun
  | log | error | warn | info =>
      simp only [Callee.parse, parseConsole, consoleType]
      split_ifs <;> exact nofun

/-- Without a comment in it, the line of a call gives the statement of its branch, unless
it is left out. -/
theorem lineStatement_line_iff {stmt : Statement} :
    lineStatement (call.line spaces) = some stmt ↔
      call.callee ≠ .error ∧ call.FreeOf leftOut ∧
        stmt = call.callee.parse (call.written spaces) (call.args.map Argument.written) := by
  have left : (call.line spaces = [] ∨ startsCallback (call.line spaces) = true ∨
      isCallbackPattern (call.line spaces) = true) ↔
      ¬ (call.callee ≠ .error ∧ call.FreeOf leftOut) := by
    have some_char : call.line spaces ≠ [] := by simp [Call.line]
    rw [or_iff_right some_char, left_out_iff]
    rcases eq_or_ne call.callee .error with isError | notError
    · have inName : contains (call.line spaces) "error" = true :=
        (call.contains_name spaces (by rw [isError]; decide)).2
      exact iff_of_true ⟨"error", by decide, inName⟩ fun kept => kept.1 isError
    · constructor
      · rintro ⟨text, member, found⟩ ⟨-, free⟩
        have trigger : text ∈ triggers := List.mem_cons_of_mem _ member
        exact free.not_contains member ((contains_trigger_iff notError trigger).mp found)
      · intro kept
        by_contra absent
        refine kept ⟨notError, fun contents inside text member found => absent ?_⟩
        have trigger : text ∈ triggers := List.mem_cons_of_mem _ member
        exact ⟨text, member, (contains_trigger_iff notError trigger).mpr ⟨contents, inside, found⟩⟩
  have trimmed := trimWhitespace_of_trimmed (call.trimmed_line spaces)
  simp only [lineStatement, trimmed, if_neg (type_parse_ne_unknown _ _ _),
    Call.parseLine_of_written (call.trim_removeSemicolons_line spaces)]
  split_ifs with out
  · rw [left] at out
    exact iff_of_false (by simp) fun kept => out ⟨kept.1, kept.2.1⟩
  · rw [left, not_not] at out
    rw [Option.some_inj, eq_comm]
    simp [out]

theorem Call.exists_of_mem_literals {contents : Text} (inside : contents ∈ call.literals) :
    ∃ (index : ℕ) (literal : Literal),
      call.args[index]? = some (.literal literal) ∧ literal.text = contents := by
  obtain ⟨argument, place, isLiteral⟩ := List.mem_filterMap.mp inside
  obtain ⟨index, here⟩ := List.mem_iff_getElem?.mp place
  cases argument with
  | number value => cases isLiteral
  | literal literal => exact ⟨index, literal, here, Option.some.inj isLiteral⟩

/-- The comment marks of a literal would be missing from the statement. -/
theorem no_comment_of_keeps {line : Text} (keeps : Keeps call (parseLine line))
    (clean : ¬ "//".toList <:+: line) : call.FreeOf ["//"] := by
  have noDefault : ∀ text ∈ defaults, ¬ "//".toList <:+: text := by decide
  intro contents inside text member found
  rw [List.mem_singleton] at member
  rw [member] at found
  obtain ⟨index, literal, here, rfl⟩ := Call.exists_of_mem_literals inside
  obtain ⟨field, -, read⟩ := keeps.2 index literal here
  rcases takenFrom_parseLine line field literal.text read with part | default
  · exact clean (found.trans part)
  · exact noDefault _ default found

theorem cutComment_line (free : call.FreeOf ["//"]) :
    cutComment (call.line spaces) = call.line spaces := by
  have notInName : ¬ "//".toList.takeWhile (· ≠ '(') <:+: call.callee.name := by
    cases call.callee <;> decide
  refine cutAt_of_not_infix fun found => free.not_contains List.mem_cons_self ?_
  exact (call.contains_line_iff spaces (by decide) notInName).mp (contains_iff.mpr found)

theorem parseLine_of_lineStatement {line : Text} {stmt : Statement}
    (given : lineStatement line = some stmt) : stmt = parseLine (trimWhitespace line) := by
  simp only [lineStatement] at given
  split_ifs at given
  exact (Option.some.inj given).symm

theorem Call.oneLine (spaces : ℕ) (call : Call) : '\n' ∉ call.line spaces := by
  have notInName : ¬ "\n".toList.takeWhile (· ≠ '(') <:+: call.callee.name := by
    cases call.callee <;> decide
  intro newline
  have found : contains (call.line spaces) "\n" = true :=
    contains_iff.mpr ((List.singleton_infix_iff '\n' _).mpr newline)
  rw [call.contains_line_iff spaces (by decide) notInName] at found
  obtain ⟨contents, inside, broken⟩ := found
  obtain ⟨-, literal, -, rfl⟩ := Call.exists_of_mem_literals inside
  exact literal.oneLine ((List.singleton_infix_iff '\n' _).mp broken)

/-- A call is kept if and only if it is readable. -/
theorem keeps_line_iff :
    (∃ stmt, lineStatement (cutComment (call.line spaces)) = some stmt ∧ Keeps call stmt) ↔
      Readable call := by
  constructor
  · rintro ⟨stmt, given, keeps⟩
    have noComment : call.FreeOf ["//"] := by
      refine no_comment_of_keeps (parseLine_of_lineStatement given ▸ keeps) fun found => ?_
      exact not_infix_cutAt (by decide) _ (found.trans (infix_trimWhitespace _))
    rw [cutComment_line noComment] at given
    obtain ⟨notError, free, rfl⟩ := lineStatement_line_iff.mp given
    have harmless : call.FreeOf triggers := Call.freeOf_append.mpr ⟨noComment, free⟩
    refine ⟨notError, Call.freeOf_append.mpr ⟨harmless, ?_⟩, fun index literal here => ?_⟩
    · exact (type_parse_iff spaces notError harmless).mp keeps.1
    · exact (stores_iff spaces here).mp (keeps.2 index literal here)
  · intro readable
    obtain ⟨harmless, clear⟩ := Call.freeOf_append.mp readable.harmless
    obtain ⟨noComment, free⟩ := Call.freeOf_append.mp harmless
    rw [cutComment_line noComment]
    refine ⟨_, lineStatement_line_iff.mpr ⟨readable.notError, free, rfl⟩, ?_, ?_⟩
    · exact (type_parse_iff spaces readable.notError harmless).mpr clear
    · exact fun index literal here => (stores_iff spaces here).mpr (readable.stored _ _ here)

end Lines

/-- `Parse` returns exactly one statement per call, in order, each of the type of its call
and with the contents of its literals, if and only if every call is readable. -/
theorem parse_program_iff (spaces : ℕ) (calls : List Call) :
    List.Forall₂ Keeps calls (parse (program spaces calls)) ↔ ∀ call ∈ calls, Readable call := by
  have oneLine : ∀ line ∈ calls.map (Call.line spaces), '\n' ∉ line := by
    intro line member
    obtain ⟨call, -, rfl⟩ := List.mem_map.mp member
    exact call.oneLine spaces
  rw [program, parse_writeLines oneLine, List.map_map, forall₂_foldl_parseStep]
  exact forall₂_congr fun call _ => keeps_line_iff

/-- `console.error('boom');` gives no statement. -/
theorem console_error_lost :
    ¬ List.Forall₂ Keeps [⟨.error, [.literal ⟨"boom".toList, by decide, by decide, by decide⟩]⟩]
      (parse (program 1
        [⟨.error, [.literal ⟨"boom".toList, by decide, by decide, by decide⟩]⟩])) := by
  have nothing : parse (program 1
      [⟨.error, [.literal ⟨"boom".toList, by decide, by decide, by decide⟩]⟩]) = [] := by
    rw [program, parse_writeLines (by decide)]
    decide
  rw [nothing]
  exact nofun

end Kode.Parser
