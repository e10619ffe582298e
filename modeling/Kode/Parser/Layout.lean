/-
# Layout, blocks and callbacks

What `Parse` reads from a text, apart from how the text is laid out. Comments, blank lines
and the blanks around a line make no difference: `Parse` goes by the lines that are left.

Between two lines the parser remembers the statements so far, the number of open braces and
whether it is inside a callback. It is inside one only while braces are open. A text whose
braces are balanced therefore leaves nothing behind, and what follows it is parsed as if it
stood alone; behind any other text, some program is parsed differently.
-/

import Kode.Parser.Parse

namespace Kode.Parser

open Kode.Library

/-- What `Parse` looks at: the lines without their comments and the blanks around them,
unless nothing is left. -/
def significantLines (code : Text) : List Text :=
  ((code.splitOn '\n').map fun line => trimWhitespace (cutComment line)).filter (· ≠ [])

/-- Opening braces less closing braces. -/
def net (text : Text) : ℤ := text.count '\x7b' - text.count '\x7d'

/-- Opening braces less closing braces, outside comments. -/
def netBraces (code : Text) : ℤ := net (removeComments code)

/-- The state of the loop behind the last line. -/
def endState (code : Text) : ParseState := (significantLines code).foldl parseStep {}

/-! ## Lines that are left -/

theorem trimmed_trimWhitespace (text : Text) : Trimmed (trimWhitespace text) := by
  constructor
  · intro c first
    obtain ⟨back, whole⟩ := List.rdropWhile_prefix isBlank (text.dropWhile isBlank)
    have kept : (text.dropWhile isBlank).head? = some c := by
      rw [← whole, List.head?_append]
      exact congrArg (Option.or · back.head?) (Option.mem_def.mp first)
    have notBlank := List.head?_dropWhile_not isBlank text
    rw [kept] at notBlank
    simpa using notBlank
  · intro c last
    have some_char : trimWhitespace text ≠ [] := by
      intro empty
      rw [empty] at last
      cases last
    have notBlank := List.rdropWhile_last_not isBlank _ some_char
    rw [Option.mem_def, List.getLast?_eq_getLast_of_ne_nil some_char] at last
    obtain rfl := Option.some.inj last
    exact Bool.not_eq_true _ ▸ notBlank

theorem parseStep_trimWhitespace (state : ParseState) (line : Text) :
    parseStep state (trimWhitespace line) = parseStep state line := by
  rw [parseStep, parseStep, trimWhitespace_of_trimmed (trimmed_trimWhitespace line)]

theorem parseStep_blank (state : ParseState) {line : Text} (blank : trimWhitespace line = []) :
    parseStep state line = state := by
  rw [parseStep, if_pos blank]

/-- Blanks around lines and blank lines make no difference to the loop. -/
theorem foldl_parseStep_filter (state : ParseState) (lines : List Text) :
    ((lines.map trimWhitespace).filter (· ≠ [])).foldl parseStep state =
      lines.foldl parseStep state := by
  induction lines generalizing state with
  | nil => rfl
  | cons line lines ih =>
      by_cases blank : trimWhitespace line = []
      · rw [List.map_cons, List.filter_cons_of_neg (by simpa using blank), List.foldl_cons,
          parseStep_blank state blank, ih]
      · rw [List.map_cons, List.filter_cons_of_pos (by simpa using blank), List.foldl_cons,
          List.foldl_cons, parseStep_trimWhitespace, ih]

/-- `std::getline` does not deliver an empty line behind the last line break. -/
theorem foldl_parseStep_splitIntoLines (state : ParseState) (code : Text) :
    (splitIntoLines code).foldl parseStep state =
      (code.splitOn '\n').foldl parseStep state := by
  have nothing : trimWhitespace [] = [] := rfl
  induction code using splitIntoLines.induct generalizing state with
  | case1 =>
      rw [splitIntoLines, if_pos rfl, List.splitOn_nil, List.foldl_cons, parseStep_blank _ nothing]
  | case2 code some_char ih =>
      have oneLine : '\n' ∉ code.takeWhile (· ≠ '\n') := by
        intro newline
        simpa using List.mem_takeWhile_imp newline
      have whole : code.takeWhile (· ≠ '\n') ++ code.dropWhile (· ≠ '\n') = code :=
        List.takeWhile_append_dropWhile
      rw [splitIntoLines, if_neg some_char, List.foldl_cons, ih]
      cases behind : code.dropWhile (· ≠ '\n') with
      | nil =>
          rw [behind, List.append_nil] at whole
          rw [whole, List.drop_nil, List.splitOn_nil]
          rw [whole] at oneLine
          rw [List.splitOn_eq_singleton oneLine]
          exact parseStep_blank _ nothing
      | cons newline rest =>
          obtain rfl : newline = '\n' := by
            have stopped := List.head?_dropWhile_not (· ≠ '\n') code
            rw [behind] at stopped
            simpa using stopped
          have lines := List.splitOn_append_cons_self_of_not_mem oneLine rest
          rw [← behind, whole] at lines
          rw [lines]
          rfl

/-- The lines of the text without its comments. -/
theorem splitOn_removeComments (code : Text) :
    (removeComments code).splitOn '\n' = (code.splitOn '\n').map cutComment := by
  have cut : ∀ line ∈ (code.splitOn '\n').map cutComment, '\n' ∉ line := by
    intro line member newline
    obtain ⟨whole, inside, rfl⟩ := List.mem_map.mp member
    exact not_mem_of_mem_splitOn inside ((prefix_cutAt _ whole).subset newline)
  rw [removeComments_eq, strip_eq_intercalate, List.splitOn_intercalate '\n' cut (by simp)]

theorem endState_eq (code : Text) :
    endState code = ((removeComments code).splitOn '\n').foldl parseStep {} := by
  rw [splitOn_removeComments, ← foldl_parseStep_filter, List.map_map]
  rfl

theorem parse_eq (code : Text) : parse code = (endState code).statements := by
  rw [parse, foldl_parseStep_splitIntoLines, endState_eq]

theorem significantLines_append (code rest : Text) :
    significantLines (code ++ '\n' :: rest) = significantLines code ++ significantLines rest := by
  rw [significantLines, List.splitOn_append_cons_self, List.map_append, List.filter_append]
  rfl

/-- Two texts with the same lines, apart from comments, blank lines and the blanks around a
line, are the same program. -/
theorem parse_congr_layout {code other : Text}
    (same : significantLines code = significantLines other) : parse code = parse other := by
  rw [parse_eq, parse_eq, endState, endState, same]

/-- A call with blanks and a comment around it. -/
theorem parse_congr_layout_comment :
    significantLines "\n\t kode('x'); // run\r\n".toList = significantLines "kode('x');".toList ∧
      parse "\n\t kode('x'); // run\r\n".toList = parse "kode('x');".toList :=
  ⟨by decide, parse_congr_layout (by decide)⟩

/-! ## Braces -/

theorem net_append (front back : Text) : net (front ++ back) = net front + net back := by
  simp only [net, List.count_append]
  omega

theorem countBraces_eq (depth : ℤ) (line : Text) : countBraces depth line = depth + net line := by
  rw [countBraces]
  induction line generalizing depth with
  | nil => simp [net]
  | cons c line ih =>
      rw [List.foldl_cons, ih]
      simp only [net, List.count_cons]
      split_ifs <;> simp_all <;> omega

theorem net_of_blank {text : Text} (blank : ∀ c ∈ text, isBlank c = true) : net text = 0 := by
  have absent : ∀ brace, isBlank brace = false → text.count brace = 0 := by
    intro brace notBlank
    refine List.count_eq_zero_of_not_mem fun member => ?_
    rw [blank brace member] at notBlank
    cases notBlank
  rw [net, absent _ (by decide), absent _ (by decide)]
  rfl

theorem net_trimWhitespace (text : Text) : net (trimWhitespace text) = net text := by
  have front : text.takeWhile isBlank ++ text.dropWhile isBlank = text :=
    List.takeWhile_append_dropWhile
  have back : trimWhitespace text ++ (text.dropWhile isBlank).rtakeWhile isBlank =
      text.dropWhile isBlank := List.rdropWhile_append_rtakeWhile
  have atFront : net (text.takeWhile isBlank) = 0 :=
    net_of_blank fun _ => List.mem_takeWhile_imp
  have atBack : net ((text.dropWhile isBlank).rtakeWhile isBlank) = 0 :=
    net_of_blank fun _ => List.mem_rtakeWhile_imp
  calc net (trimWhitespace text)
      = net (text.dropWhile isBlank) := by rw [← back, net_append, atBack, add_zero]
    _ = net text := by rw [← front, net_append, atFront, zero_add, front]

theorem net_intercalate (lines : List Text) :
    net (['\n'].intercalate lines) = (lines.map net).sum := by
  induction lines with
  | nil => rfl
  | cons line lines ih =>
      cases lines with
      | nil => simp
      | cons next lines =>
          have newline : net ['\n'] = 0 := rfl
          rw [List.intercalate_cons_cons, net_append, net_append, ih, newline, add_zero]
          rfl

theorem braceDepth_parseStep (state : ParseState) (line : Text) :
    (parseStep state line).braceDepth = state.braceDepth + net line := by
  rw [← net_trimWhitespace, ← countBraces_eq]
  simp only [parseStep]
  split_ifs with blank
  · rw [blank]
    rfl
  all_goals rfl

theorem braceDepth_foldl (state : ParseState) (lines : List Text) :
    (lines.foldl parseStep state).braceDepth = state.braceDepth + (lines.map net).sum := by
  induction lines generalizing state with
  | nil => simp
  | cons line lines ih =>
      rw [List.foldl_cons, ih, braceDepth_parseStep, List.map_cons, List.sum_cons, add_assoc]

/-- The count of the loop is the count over the whole text. -/
theorem braceDepth_endState (code : Text) : (endState code).braceDepth = netBraces code := by
  rw [endState_eq, braceDepth_foldl, ← net_intercalate, List.intercalate_splitOn, netBraces]
  exact zero_add _

/-! ## What a text leaves behind -/

/-- A line that is not blank decides whether the next one is inside a callback. -/
theorem insideCallback_parseStep (state : ParseState) {line : Text}
    (notBlank : trimWhitespace line ≠ []) :
    (parseStep state line).insideCallback =
      ((state.insideCallback || startsCallback (trimWhitespace line)) &&
        decide (0 < state.braceDepth + net line)) := by
  have depth : countBraces state.braceDepth (trimWhitespace line) =
      state.braceDepth + net line := by rw [countBraces_eq, net_trimWhitespace]
  simp only [parseStep, if_neg notBlank, depth]
  generalize (state.insideCallback || startsCallback (trimWhitespace line)) = inside
  rcases lt_or_ge 0 (state.braceDepth + net line) with deep | shallow
  · cases inside
    · simp only [Bool.false_and, Bool.false_eq_true, if_false]
      split_ifs <;> rfl
    · simp [deep]
  · cases inside
    · simp only [Bool.false_and, Bool.false_eq_true, if_false]
      split_ifs <;> rfl
    · simp [shallow, not_lt.mpr]

/-- The loop is inside a callback only while braces are open. -/
def Coherent (state : ParseState) : Prop := state.insideCallback = true → 0 < state.braceDepth

theorem Coherent.parseStep {state : ParseState} (coherent : Coherent state) (line : Text) :
    Coherent (parseStep state line) := by
  by_cases blank : trimWhitespace line = []
  · rwa [parseStep_blank state blank]
  · intro inside
    rw [insideCallback_parseStep state blank, Bool.and_eq_true, decide_eq_true_eq] at inside
    rw [braceDepth_parseStep]
    exact inside.2

theorem Coherent.foldl {state : ParseState} (coherent : Coherent state) (lines : List Text) :
    Coherent (lines.foldl Kode.Parser.parseStep state) := by
  induction lines generalizing state with
  | nil => exact coherent
  | cons line lines ih => exact ih (coherent.parseStep line)

theorem coherent_endState (code : Text) : Coherent (endState code) :=
  Coherent.foldl (fun inside => by cases inside) (significantLines code)

/-- Balanced braces leave nothing behind. -/
theorem insideCallback_of_balanced {code : Text} (balanced : netBraces code = 0) :
    (endState code).insideCallback = false := by
  have depth := braceDepth_endState code
  cases inside : (endState code).insideCallback with
  | false => rfl
  | true =>
      have positive := coherent_endState code inside
      omega

/-- From two states that agree on callbacks and braces, the same statements are added. -/
theorem foldl_parseStep_agree {state other : ParseState}
    (inside : state.insideCallback = other.insideCallback)
    (depth : state.braceDepth = other.braceDepth) (lines : List Text) :
    ∃ more, (lines.foldl parseStep state).statements = state.statements ++ more ∧
      (lines.foldl parseStep other).statements = other.statements ++ more := by
  induction lines generalizing state other with
  | nil => exact ⟨[], by simp, by simp⟩
  | cons line lines ih =>
      have nextDepth : (parseStep state line).braceDepth = (parseStep other line).braceDepth := by
        rw [braceDepth_parseStep, braceDepth_parseStep, depth]
      have nextInside :
          (parseStep state line).insideCallback = (parseStep other line).insideCallback := by
        by_cases blank : trimWhitespace line = []
        · rw [parseStep_blank _ blank, parseStep_blank _ blank, inside]
        · rw [insideCallback_parseStep _ blank, insideCallback_parseStep _ blank, inside, depth]
      obtain ⟨more, first, second⟩ := ih nextInside nextDepth
      rw [List.foldl_cons, List.foldl_cons, first, second, parseStep_statements,
        parseStep_statements, inside]
      exact ⟨_, List.append_assoc _ _ _, List.append_assoc _ _ _⟩

theorem endState_append (code rest : Text) :
    endState (code ++ '\n' :: rest) = (significantLines rest).foldl parseStep (endState code) := by
  rw [endState, significantLines_append, List.foldl_append]
  rfl

theorem parse_append_of_balanced {code : Text} (balanced : netBraces code = 0) (rest : Text) :
    parse (code ++ '\n' :: rest) = parse code ++ parse rest := by
  have inside : (endState code).insideCallback = ({} : ParseState).insideCallback :=
    insideCallback_of_balanced balanced
  have depth : (endState code).braceDepth = ({} : ParseState).braceDepth :=
    (braceDepth_endState code).trans balanced
  obtain ⟨more, behind, alone⟩ := foldl_parseStep_agree inside depth (significantLines rest)
  rw [parse_eq, parse_eq, parse_eq, endState_append, behind]
  exact congrArg ((endState code).statements ++ ·) alone.symm

/-- The call `kode('x')`. -/
def spawnLine : Text := "kode('x')".toList

/-- A line and a call behind it. -/
def spawnBehind (line : Text) : Text := line ++ '\n' :: spawnLine

/-- The statement of the call. -/
def spawnStatement : Statement := { type := .kodeSpawn, content := "x".toList }

section

variable {line : Text} (lines : significantLines (spawnBehind line) = [line, spawnLine])
  (notBlank : trimWhitespace line ≠ []) (starts : startsCallback (trimWhitespace line) = true)
  (nothing : lineStatement line = none)

include lines notBlank starts nothing

/-- The start of a callback hides the call behind it if a brace is open then. -/
theorem statements_spawnBehind (state : ParseState) :
    ((significantLines (spawnBehind line)).foldl parseStep state).statements =
      state.statements ++ if 0 < state.braceDepth + net line then [] else [spawnStatement] := by
  have call : lineStatement spawnLine = some spawnStatement := by decide
  have inside := insideCallback_parseStep state notBlank
  rw [starts, Bool.or_true, Bool.true_and] at inside
  rw [lines, List.foldl_cons, List.foldl_cons, List.foldl_nil, parseStep_statements, inside,
    parseStep_statements, nothing, call]
  simp

theorem parse_append_spawnBehind (code : Text) :
    parse (code ++ '\n' :: spawnBehind line) =
      parse code ++ if 0 < netBraces code + net line then [] else [spawnStatement] := by
  rw [parse_eq, parse_eq, endState_append, statements_spawnBehind lines notBlank starts nothing,
    braceDepth_endState]

theorem parse_spawnBehind :
    parse (spawnBehind line) = if 0 < net line then [] else [spawnStatement] := by
  rw [parse_eq, endState, statements_spawnBehind lines notBlank starts nothing, zero_add]
  rfl

end

/-- A program can be divided behind a line, whatever follows it, if and only if the braces of
the part up to that line are balanced. -/
theorem parse_append_iff (code : Text) :
    (∀ rest, parse (code ++ '\n' :: rest) = parse code ++ parse rest) ↔ netBraces code = 0 := by
  refine ⟨fun separate => ?_, parse_append_of_balanced⟩
  have netArrow : net "=>".toList = 0 := by decide
  have netBlock : net "=>\x7b".toList = 1 := by decide
  -- an open brace makes the arrow hide the call
  have arrow := separate (spawnBehind "=>".toList)
  rw [parse_append_spawnBehind (by decide) (by decide) (by decide) (by decide), netArrow,
    parse_spawnBehind (by decide) (by decide) (by decide) (by decide), netArrow] at arrow
  -- a missing one makes the callback end at once
  have block := separate (spawnBehind "=>\x7b".toList)
  rw [parse_append_spawnBehind (by decide) (by decide) (by decide) (by decide), netBlock,
    parse_spawnBehind (by decide) (by decide) (by decide) (by decide), netBlock] at block
  have notOpen : ¬ 0 < netBraces code := by
    intro deep
    simp [deep] at arrow
  have notMissing : ¬ netBraces code < 0 := by
    intro missing
    have shallow : ¬ 0 < netBraces code + 1 := by omega
    simp [shallow] at block
  omega

/-! ## Callbacks -/

/-- From a number of open braces on, braces stay open until the lines end. -/
def ClosesLast : ℤ → List Text → Prop
  | depth, [] => depth = 0
  | depth, line :: lines => 0 < depth ∧ ClosesLast (depth + net line) lines

/-- The lines of a callback: an arrow or the word `function` in the first one, and braces
that close with the last one. -/
def IsCallback : List Text → Prop
  | [] => False
  | first :: lines => startsCallback first = true ∧ ClosesLast (net first) lines

instance decidableClosesLast :
    (depth : ℤ) → (lines : List Text) → Decidable (ClosesLast depth lines)
  | depth, [] => inferInstanceAs (Decidable (depth = 0))
  | depth, line :: lines =>
      @instDecidableAnd _ _ inferInstance (decidableClosesLast (depth + net line) lines)

instance : (lines : List Text) → Decidable (IsCallback lines)
  | [] => inferInstanceAs (Decidable False)
  | first :: lines =>
      inferInstanceAs (Decidable (startsCallback first = true ∧ ClosesLast (net first) lines))

theorem foldl_parseStep_closesLast {state : ParseState} {lines : List Text}
    (inside : state.insideCallback = decide (0 < state.braceDepth))
    (closes : ClosesLast state.braceDepth lines) :
    (lines.foldl parseStep state).statements = state.statements := by
  induction lines generalizing state with
  | nil => rfl
  | cons line lines ih =>
      obtain ⟨deep, later⟩ := closes
      rw [decide_eq_true deep] at inside
      have next : (parseStep state line).insideCallback =
          decide (0 < (parseStep state line).braceDepth) := by
        by_cases blank : trimWhitespace line = []
        · rw [parseStep_blank state blank, inside, decide_eq_true deep]
        · rw [insideCallback_parseStep state blank, inside, braceDepth_parseStep, Bool.true_or,
            Bool.true_and]
      rw [List.foldl_cons, ih next (by rwa [braceDepth_parseStep]), parseStep_statements, inside]
      simp

theorem sum_net_of_closesLast {depth : ℤ} {lines : List Text} (closes : ClosesLast depth lines) :
    depth + (lines.map net).sum = 0 := by
  induction lines generalizing depth with
  | nil => exact (add_zero depth).trans closes
  | cons line lines ih =>
      rw [List.map_cons, List.sum_cons, ← add_assoc]
      exact ih closes.2

theorem trimWhitespace_of_mem_significantLines {code line : Text}
    (member : line ∈ significantLines code) : trimWhitespace line = line ∧ line ≠ [] := by
  obtain ⟨inside, notBlank⟩ := List.mem_filter.mp member
  obtain ⟨whole, -, rfl⟩ := List.mem_map.mp inside
  exact ⟨trimWhitespace_of_trimmed (trimmed_trimWhitespace _), by simpa using notBlank⟩

/-- A callback is balanced and gives no statement. -/
theorem parse_of_isCallback {block : Text} (callback : IsCallback (significantLines block)) :
    netBraces block = 0 ∧ parse block = [] := by
  have own : ∀ line ∈ significantLines block, trimWhitespace line = line ∧ line ≠ [] :=
    fun _ => trimWhitespace_of_mem_significantLines
  rw [parse_eq, ← braceDepth_endState, endState]
  cases lines : significantLines block with
  | nil => exact absurd callback (by rw [lines]; exact id)
  | cons first rest =>
      rw [lines] at callback own
      obtain ⟨starts, closes⟩ := callback
      obtain ⟨trimmed, notBlank⟩ := own first List.mem_cons_self
      have depth : (parseStep {} first).braceDepth = net first := by
        rw [braceDepth_parseStep]
        exact zero_add _
      have inside : (parseStep {} first).insideCallback =
          decide (0 < (parseStep {} first).braceDepth) := by
        rw [insideCallback_parseStep _ (by rwa [trimmed]), trimmed, starts, depth]
        simp
      have hidden : lineStatement first = none := by simp [lineStatement, trimmed, starts]
      rw [List.foldl_cons, braceDepth_foldl, depth, sum_net_of_closesLast closes,
        foldl_parseStep_closesLast inside (by rwa [depth]), parseStep_statements, hidden]
      exact ⟨rfl, by simp⟩

/-- Behind balanced lines, a callback can be left out of a program. -/
theorem parse_without_callback {front block : Text} (back : Text)
    (balanced : netBraces front = 0) (callback : IsCallback (significantLines block)) :
    parse (front ++ '\n' :: (block ++ '\n' :: back)) = parse (front ++ '\n' :: back) := by
  obtain ⟨closed, silent⟩ := parse_of_isCallback callback
  rw [parse_append_of_balanced balanced, parse_append_of_balanced closed, silent,
    parse_append_of_balanced balanced, List.nil_append]

/-- The callback of a `readFile`. -/
def readerBlock : Text := "fs.readFile('a', (e, d) => \x7b\n  console.log(d);\n\x7d);".toList

theorem parse_without_callback_reader :
    parse ("let a = 1;".toList ++ '\n' :: (readerBlock ++ '\n' :: spawnLine)) =
      parse ("let a = 1;".toList ++ '\n' :: spawnLine) :=
  parse_without_callback spawnLine (by rw [← braceDepth_endState]; decide) (by decide)

end Kode.Parser
