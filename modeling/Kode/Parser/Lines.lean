/-
# Lines and comments

`KodeParser` works on lines of text. Before it divides the code it removes the comments:
it looks for two slashes, erases from there to the end of the line, and goes on looking
from the same position in the shorter text.

A string is the list of its characters. All that the parser looks for are ASCII
characters, so it makes no difference that the code compares bytes.
-/

import Kode.Library.Substring
import Mathlib.Data.List.DropRight
import Mathlib.Data.List.TakeWhile

namespace Kode.Parser

open Kode.Library

abbrev Text := List Char

/-- A property of all characters of a text is decided along the text. -/
scoped instance (priority := 1500) decidableForallMem (property : Char → Prop)
    [DecidablePred property] (text : Text) : Decidable (∀ c ∈ text, property c) :=
  List.decidableBAll property text

/-- The characters that `TrimWhitespace` removes. -/
def isBlank (char : Char) : Bool := char = ' ' ∨ char = '\t' ∨ char = '\r' ∨ char = '\n'

/-- `TrimWhitespace`. -/
def trimWhitespace (text : Text) : Text := (text.dropWhile isBlank).rdropWhile isBlank

/-- `SplitIntoLines`: what `std::getline` delivers, one line after the other. -/
def splitIntoLines (code : Text) : List Text :=
  if code = [] then []
  else
    code.takeWhile (· ≠ '\n') :: splitIntoLines ((code.dropWhile (· ≠ '\n')).drop 1)
  termination_by code.length
  decreasing_by
    rename_i some_char
    have positive := List.length_pos_iff.mpr some_char
    have shorter := (List.dropWhile_suffix (p := (· ≠ '\n')) (l := code)).length_le
    rw [List.length_drop]
    omega

/-- `RemoveSemicolons`: one semicolon at the end. -/
def removeSemicolons (text : Text) : Text :=
  if text.getLast? = some ';' then text.dropLast else text

/-- Erasing a comment makes the text shorter. -/
theorem erase_shorter {result : Text} {start position endLine : ℕ}
    (comment : findFrom ['/', '/'] result start = some position)
    (stop : findFrom ['\n'] result position = some endLine) :
    (result.take position ++ result.drop endLine).length < result.length := by
  obtain ⟨rest, slashes, -, -, -⟩ := findFrom_eq_some (by simp) comment
  obtain ⟨more, newline, later, inside, -⟩ := findFrom_eq_some (by simp) stop
  have different : position ≠ endLine := by
    rintro rfl
    rw [slashes] at newline
    exact absurd (List.cons.inj newline).1 (by decide)
  rw [List.length_append, List.length_take, List.length_drop]
  omega

/-- The loop of `RemoveComments`. -/
def removeCommentsFrom (result : Text) (position : ℕ) : Text :=
  match _start : findFrom ['/', '/'] result position with
  | none => result
  | some position =>
      match _stop : findFrom ['\n'] result position with
      | none => result.take position
      | some endLine => removeCommentsFrom (result.take position ++ result.drop endLine) position
  termination_by result.length
  decreasing_by exact erase_shorter _start _stop

/-- `RemoveComments`. -/
def removeComments (code : Text) : Text := removeCommentsFrom code 0

/-! ## What is left -/

/-- A line without its comment. -/
def cutComment (line : Text) : Text := cutAt ['/', '/'] line

/-- The comments left out in one pass. -/
def strip : Text → Text
  | [] => []
  | char :: rest =>
      if ['/', '/'].isPrefixOf (char :: rest) then strip (rest.dropWhile (· ≠ '\n'))
      else char :: strip rest
  termination_by text => text.length
  decreasing_by
  · have shorter := (List.dropWhile_suffix (p := (· ≠ '\n')) (l := rest)).length_le
    rw [List.length_cons]
    omega
  · exact Nat.lt_succ_self _

/-- The pass keeps what stands before the first comment and goes on at the end of its
line. -/
theorem strip_eq (text : Text) :
    strip text = cutComment text ++
      strip ((text.drop (cutComment text).length).dropWhile (· ≠ '\n')) := by
  induction text with
  | nil => simp [strip, cutComment, cutAt]
  | cons char rest ih =>
      rw [strip, cutComment, cutAt]
      split_ifs with here
      · have slash : char = '/' := by
          obtain ⟨back, split⟩ := List.isPrefixOf_iff_prefix.mp here
          exact (List.cons.inj split).1.symm
        rw [List.nil_append, List.length_nil, List.drop_zero,
          List.dropWhile_cons_of_pos (by simp [slash])]
      · rw [List.cons_append, List.length_cons, List.drop_succ_cons, ih]
        rfl

theorem strip_of_not_infix {text : Text} (clean : ¬ ['/', '/'] <:+: text) : strip text = text := by
  rw [strip_eq, cutComment, cutAt_of_not_infix clean, List.drop_length]
  simp [strip]

theorem removeCommentsFrom_none {result : Text} {start : ℕ}
    (absent : findFrom ['/', '/'] result start = none) :
    removeCommentsFrom result start = result := by
  rw [removeCommentsFrom]
  split
  · rfl
  · rename_i found
    rw [absent] at found
    cases found

theorem removeCommentsFrom_last {result : Text} {start position : ℕ}
    (comment : findFrom ['/', '/'] result start = some position)
    (stop : findFrom ['\n'] result position = none) :
    removeCommentsFrom result start = result.take position := by
  rw [removeCommentsFrom]
  split
  · rename_i absent
    rw [comment] at absent
    cases absent
  · rename_i other found
    obtain rfl := Option.some.inj (comment.symm.trans found)
    split
    · rfl
    · rename_i later
      rw [stop] at later
      cases later

theorem removeCommentsFrom_erase {result : Text} {start position endLine : ℕ}
    (comment : findFrom ['/', '/'] result start = some position)
    (stop : findFrom ['\n'] result position = some endLine) :
    removeCommentsFrom result start =
      removeCommentsFrom (result.take position ++ result.drop endLine) position := by
  rw [removeCommentsFrom]
  split
  · rename_i absent
    rw [comment] at absent
    cases absent
  · rename_i other found
    obtain rfl := Option.some.inj (comment.symm.trans found)
    split
    · rename_i last
      rw [stop] at last
      cases last
    · rename_i other later
      obtain rfl := Option.some.inj (stop.symm.trans later)
      rfl

/-- Behind the position, the pass goes up to the comment that the loop finds and on from
there. -/
theorem strip_of_comment {result : Text} {start position : ℕ}
    (comment : findFrom ['/', '/'] result start = some position) :
    result.take start ++ strip (result.drop start) =
      result.take position ++ strip ((result.drop position).dropWhile (· ≠ '\n')) := by
  obtain ⟨back, slashes, later, inside, taken⟩ := findFrom_eq_some (by simp) comment
  have length : (cutComment (result.drop start)).length = position - start := by
    have lengths := congrArg List.length taken
    rw [List.length_append, List.length_take, List.length_take] at lengths
    rw [cutComment]
    omega
  have remaining : (result.drop start).drop (cutComment (result.drop start)).length =
      result.drop position := by
    rw [List.drop_drop, length]
    congr 1
    omega
  rw [strip_eq, remaining, ← List.append_assoc, taken, cutComment]

/-- The loop leaves the text before its position alone and removes the comments behind
it. -/
theorem removeCommentsFrom_eq (result : Text) (start : ℕ) :
    removeCommentsFrom result start = result.take start ++ strip (result.drop start) := by
  induction result, start using removeCommentsFrom.induct with
  | case1 result start absent =>
      have clean : ¬ ['/', '/'] <:+: result.drop start := by
        rwa [findFrom, Option.map_eq_none_iff, find_eq_none_iff] at absent
      rw [removeCommentsFrom_none absent, strip_of_not_infix clean, List.take_append_drop]
  | case2 result start position comment stop =>
      have last : (result.drop position).dropWhile (· ≠ '\n') = [] := by
        rw [findFrom, Option.map_eq_none_iff] at stop
        exact dropWhile_eq_nil_of_find stop
      rw [removeCommentsFrom_last comment stop, strip_of_comment comment, last, strip,
        List.append_nil]
  | case3 result start position comment endLine stop ih =>
      obtain ⟨distance, first, rfl⟩ := Option.map_eq_some_iff.mp stop
      obtain ⟨-, -, -, inside, -⟩ := findFrom_eq_some (by simp) comment
      have next : (result.drop position).dropWhile (· ≠ '\n') =
          result.drop (distance + position) := by
        rw [dropWhile_eq_drop_of_find first, List.drop_drop, Nat.add_comm]
      have length : (result.take position).length = position := by
        rw [List.length_take]
        omega
      rw [removeCommentsFrom_erase comment stop, ih, strip_of_comment comment, next,
        List.take_left' length, List.drop_left' length]

theorem removeComments_eq (code : Text) : removeComments code = strip code :=
  removeCommentsFrom_eq code 0

/-! ## Line by line -/

theorem isPrefixOf_append_newline (line rest : Text) :
    ['/', '/'].isPrefixOf (line ++ '\n' :: rest) = ['/', '/'].isPrefixOf line := by
  match line with
  | [] => rfl
  | [first] => simp [List.isPrefixOf]
  | first :: second :: line => simp [List.isPrefixOf]

theorem strip_line {line : Text} (oneLine : '\n' ∉ line) (rest : Text) :
    strip (line ++ '\n' :: rest) = cutComment line ++ '\n' :: strip rest := by
  induction line with
  | nil => rw [List.nil_append, strip, if_neg (by simp [List.isPrefixOf])]; rfl
  | cons char line ih =>
      have later : '\n' ∉ line := fun member => oneLine (List.mem_cons_of_mem _ member)
      rw [List.cons_append, strip, ← List.cons_append, isPrefixOf_append_newline, cutComment,
        cutAt]
      split_ifs
      · have others : ∀ other ∈ line, decide (other ≠ '\n') = true :=
          fun other member => decide_eq_true fun same => later (same ▸ member)
        rw [List.dropWhile_append_of_pos others, List.dropWhile_cons_of_neg (by simp), strip,
          if_neg (by simp [List.isPrefixOf]), List.nil_append]
      · rw [ih later]
        rfl

theorem strip_last {line : Text} (oneLine : '\n' ∉ line) : strip line = cutComment line := by
  induction line with
  | nil => rw [strip]; rfl
  | cons char line ih =>
      have later : '\n' ∉ line := fun member => oneLine (List.mem_cons_of_mem _ member)
      rw [strip, cutComment, cutAt]
      split_ifs
      · have others : ∀ other ∈ line, decide (other ≠ '\n') = true :=
          fun other member => decide_eq_true fun same => later (same ▸ member)
        rw [List.dropWhile_eq_nil_iff.mpr others, strip]
      · rw [ih later]
        rfl

theorem strip_intercalate {lines : List Text} (oneLine : ∀ line ∈ lines, '\n' ∉ line) :
    strip (['\n'].intercalate lines) = ['\n'].intercalate (lines.map cutComment) := by
  induction lines with
  | nil => simp [strip]
  | cons line lines ih =>
      have here := oneLine line List.mem_cons_self
      cases lines with
      | nil => simpa using strip_last here
      | cons next lines =>
          rw [List.intercalate_cons_cons, List.append_assoc, List.singleton_append,
            strip_line here, ih fun other member => oneLine other (List.mem_cons_of_mem _ member)]
          simp only [List.map_cons, List.intercalate_cons_cons, List.append_assoc,
            List.singleton_append]

theorem strip_eq_intercalate (code : Text) :
    strip code = ['\n'].intercalate ((code.splitOn '\n').map cutComment) := by
  have joined : strip (['\n'].intercalate (code.splitOn '\n')) = _ :=
    strip_intercalate fun _ => not_mem_of_mem_splitOn
  rwa [List.intercalate_splitOn] at joined

theorem not_infix_strip (code : Text) : ¬ ['/', '/'] <:+: strip code := by
  rw [strip_eq_intercalate, infix_intercalate_iff (by simp) (by decide)]
  rintro ⟨piece, member, found⟩
  obtain ⟨line, -, rfl⟩ := List.mem_map.mp member
  exact not_infix_cutAt (by simp) line found

/-- `RemoveComments` cuts every line at its first two slashes and keeps all line breaks,
so that no two slashes are left and a second pass changes nothing. -/
theorem removeComments_cuts_lines (code : Text) :
    removeComments code = ['\n'].intercalate ((code.splitOn '\n').map cutComment) ∧
    (removeComments code).splitOn '\n' = (code.splitOn '\n').map cutComment ∧
    ¬ ['/', '/'] <:+: removeComments code ∧
    removeComments (removeComments code) = removeComments code := by
  have cut : ∀ line ∈ (code.splitOn '\n').map cutComment, '\n' ∉ line := by
    intro line member
    obtain ⟨whole, inside, rfl⟩ := List.mem_map.mp member
    intro newline
    exact not_mem_of_mem_splitOn inside ((prefix_cutAt _ whole).subset newline)
  have some_line : (code.splitOn '\n').map cutComment ≠ [] := by
    simp
  simp only [removeComments_eq]
  refine ⟨strip_eq_intercalate code, ?_, not_infix_strip code,
    strip_of_not_infix (not_infix_strip code)⟩
  rw [strip_eq_intercalate, List.splitOn_intercalate '\n' cut some_line]

/-! ## Writing lines -/

/-- Lines with a line break behind each. -/
def writeLines (lines : List Text) : Text := lines.flatMap (· ++ ['\n'])

theorem writeLines_cons (line : Text) (lines : List Text) :
    writeLines (line :: lines) = line ++ '\n' :: writeLines lines := by
  rw [writeLines, List.flatMap_cons, List.append_assoc]
  rfl

theorem removeComments_writeLines {lines : List Text} (oneLine : ∀ line ∈ lines, '\n' ∉ line) :
    removeComments (writeLines lines) = writeLines (lines.map cutComment) := by
  rw [removeComments_eq]
  induction lines with
  | nil => rw [writeLines, List.flatMap_nil, strip]; rfl
  | cons line lines ih =>
      have later := ih fun other member => oneLine other (List.mem_cons_of_mem _ member)
      rw [writeLines_cons, strip_line (oneLine line List.mem_cons_self), later, List.map_cons,
        writeLines_cons]

/-- `SplitIntoLines` finds the lines that were written. -/
theorem splitIntoLines_writeLines {lines : List Text} (oneLine : ∀ line ∈ lines, '\n' ∉ line) :
    splitIntoLines (writeLines lines) = lines := by
  induction lines with
  | nil => rw [writeLines, List.flatMap_nil, splitIntoLines, if_pos rfl]
  | cons line lines ih =>
      have later := ih fun other member => oneLine other (List.mem_cons_of_mem _ member)
      have others : ∀ char ∈ line, decide (char ≠ '\n') = true := fun char member =>
        decide_eq_true fun same => oneLine line List.mem_cons_self (same ▸ member)
      rw [writeLines_cons, splitIntoLines, if_neg (by simp),
        List.takeWhile_append_of_pos others, List.dropWhile_append_of_pos others,
        List.takeWhile_cons_of_neg (by simp), List.dropWhile_cons_of_neg (by simp),
        List.append_nil, List.drop_one, List.tail_cons, later]

end Kode.Parser
