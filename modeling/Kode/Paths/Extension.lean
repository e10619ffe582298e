/-
# Extensions and MIME types

Three places look for the extension of a path. `extname` takes the file name behind the
last separator, which is empty if the path ends in one; `basename` drops such separators
first; and `detectMimeType` takes what is behind the last dot of the whole path, or all of
it if there is no dot. They agree on paths that have an extension. A path without one can
be disguised to `detectMimeType`: as a whole it is the word of an extension, or it ends in
a dot file with such a name.
-/

import Kode.Filesystem.ModernFS
import Kode.Paths.Split

namespace Kode.Paths

open Kode.Library
open Kode.Library.PosixPath
open Kode.Filesystem (detectMimeType afterLastDot lowerByte)

variable {path : Text}

/-! ## The last mark of a text

The three places all go back from the end of a text to the last dot or separator. -/

section

variable {α : Type} [DecidableEq α] {mark : α} {text : List α}

theorem decide_ne_of_not_mem (clean : mark ∉ text) :
    ∀ char ∈ text.reverse, decide (char ≠ mark) = true := by
  intro char member
  refine decide_eq_true fun same => clean ?_
  rw [← same]
  exact List.mem_reverse.mp member

theorem takeWhile_reverse_of_not_mem (clean : mark ∉ text) :
    text.reverse.takeWhile (· ≠ mark) = text.reverse :=
  List.takeWhile_eq_self_iff.mpr (decide_ne_of_not_mem clean)

theorem takeWhile_reverse_append (clean : mark ∉ text) (front : List α) :
    (front ++ mark :: text).reverse.takeWhile (· ≠ mark) = text.reverse := by
  rw [List.reverse_append, List.reverse_cons, List.append_assoc,
    List.takeWhile_append_of_pos (decide_ne_of_not_mem clean)]
  simp

end

/-! ## `extname` and `basename` -/

theorem filename_of_not_mem {name : Text} (separator : '/' ∉ name) : filename name = name := by
  rw [filename, takeWhile_reverse_of_not_mem separator, List.reverse_reverse]

theorem filename_of_last (ended : path.getLast? = some '/') : filename path = [] := by
  obtain ⟨front, rfl⟩ := List.getLast?_eq_some_iff.mp ended
  rw [filename, List.reverse_append]
  rfl

/-- A text with a dot, cut at its last one. -/
theorem exists_last_dot {text : Text} (dotted : '.' ∈ text) :
    ∃ stem suffix, text = stem ++ '.' :: suffix ∧ '.' ∉ suffix := by
  obtain ⟨back, front, split, first⟩ := List.eq_append_cons_of_mem (List.mem_reverse.mpr dotted)
  refine ⟨front.reverse, back.reverse, ?_, fun member => first (List.mem_reverse.mp member)⟩
  rw [← List.reverse_reverse text, split]
  simp

/-- A name has an extension if it has a dot that is not its first character; `..` has
none. -/
theorem extension_cases (path : Text) :
    extension path = [] ∧ (filename path = ['.', '.'] ∨ '.' ∉ (filename path).tail) ∨
      ∃ stem suffix, filename path = stem ++ '.' :: suffix ∧ '.' ∉ suffix ∧
        extension path = '.' :: suffix := by
  unfold extension
  generalize filename path = name
  dsimp only
  by_cases dots : name = ['.', '.']
  · exact Or.inl ⟨if_pos (Or.inl dots), Or.inl dots⟩
  by_cases dotted : '.' ∈ name
  · obtain ⟨stem, suffix, rfl, last⟩ := exists_last_dot dotted
    rw [takeWhile_reverse_append last stem]
    cases stem with
    | nil => exact Or.inl ⟨if_pos (Or.inr (by simp)), Or.inr last⟩
    | cons char stem =>
        refine Or.inr ⟨char :: stem, suffix, rfl, last, ?_⟩
        rw [if_neg, List.reverse_reverse]
        rintro (same | short)
        · exact dots same
        · simp at short
          omega
  · refine Or.inl ⟨if_pos (Or.inr ?_), Or.inr fun member => dotted (List.mem_of_mem_tail member)⟩
    rw [takeWhile_reverse_of_not_mem dotted, List.length_reverse]
    exact Nat.le_succ _

theorem extension_suffix (path : Text) : extension path <:+ filename path := by
  rcases extension_cases path with ⟨none, -⟩ | ⟨stem, suffix, name, -, same⟩
  · rw [none]
    exact List.nil_suffix
  · rw [name, same]
    exact List.suffix_append _ _

theorem extname_eq (path : Text) : extname path = extension path := by
  refine genericString_of_not_mem fun member => ?_
  exact separator_not_mem_filename path ((extension_suffix path).subset member)

/-- The extension depends on the file name alone. -/
theorem extension_congr {other : Text} (same : filename path = filename other) :
    extension path = extension other := by
  unfold extension
  rw [same]

theorem extension_filename (path : Text) : extension (filename path) = extension path :=
  extension_congr (filename_of_not_mem (separator_not_mem_filename path))

/-- `extname` agrees with `basename` exactly if the path does not end in a separator or its
last component has no extension. -/
theorem extname_basename_iff (path : Text) :
    extname path = extname (pathBasename path) ∧ extname path <:+ pathBasename path ↔
      path.getLast? ≠ some '/' ∨ extension (lastComponent path) = [] := by
  rw [extname_eq, extname_eq]
  by_cases ended : path.getLast? = some '/'
  · have none : extension path = [] := by
      rw [← extension_filename, filename_of_last ended]
      rfl
    rw [none]
    rcases core_spec path with ⟨empty, separators⟩ | ⟨nonempty, last, -, -, trimmed⟩
    · have nonempty : path ≠ [] := by
        rintro rfl
        cases ended
      have root : pathBasename path = ['/'] := by
        rw [pathBasename, trimTrailingSeparators_of_separators nonempty separators]
        rfl
      rw [root, lastComponent, empty]
      exact iff_of_true ⟨rfl, List.nil_suffix⟩ (Or.inr rfl)
    · rw [pathBasename_eq trimmed last, lastComponent]
      constructor
      · rintro ⟨same, -⟩
        exact Or.inr same.symm
      · intro condition
        exact ⟨(condition.resolve_left fun other => other ended).symm, List.nil_suffix⟩
  · rw [pathBasename_eq (trimTrailingSeparators_of_last (Or.inl ended)) ended, extension_filename]
    exact iff_of_true ⟨rfl, extension_suffix path⟩ (Or.inl ended)

/-! ## `detectMimeType` -/

/-- The extensions with a type. -/
def mimeTypes : List (String × String) :=
  [("js", "application/javascript"), ("json", "application/json"), ("html", "text/html"),
    ("htm", "text/html"), ("css", "text/css"), ("txt", "text/plain"), ("md", "text/markdown"),
    ("png", "image/png"), ("jpg", "image/jpeg"), ("jpeg", "image/jpeg"), ("gif", "image/gif")]

/-- The type of an extension, in upper or lower case. -/
def typeOfWord (word : Bytes) : Option Bytes :=
  (mimeTypes.find? fun entry => bytesOf entry.1 = word.map lowerByte).map fun entry =>
    bytesOf entry.2

/-- The type of a word in a table, or another one. -/
def lookupType (word otherwise : Bytes) (table : List (String × String)) : Bytes :=
  ((table.find? fun entry => bytesOf entry.1 = word).map fun entry => bytesOf entry.2).getD
    otherwise

theorem lookupType_cons (word otherwise : Bytes) (extension type : String)
    (table : List (String × String)) :
    lookupType word otherwise ((extension, type) :: table) =
      if word = bytesOf extension then bytesOf type else lookupType word otherwise table := by
  unfold lookupType
  by_cases here : word = bytesOf extension
  · rw [List.find?_cons_of_pos (by simpa using here.symm), if_pos here]
    rfl
  · rw [List.find?_cons_of_neg (by simpa using Ne.symm here), if_neg here]

theorem detectMimeType_eq (bytes : Bytes) :
    detectMimeType bytes =
      (typeOfWord (afterLastDot bytes)).getD (bytesOf "application/octet-stream") := by
  show _ = lookupType ((afterLastDot bytes).map lowerByte) _ mimeTypes
  unfold detectMimeType mimeTypes
  dsimp only
  simp only [lookupType_cons, ite_or]
  rfl

/-- A type is never the one for everything else. -/
theorem typeOfWord_ne (word : Bytes) :
    typeOfWord word ≠ some (bytesOf "application/octet-stream") := by
  intro same
  obtain ⟨entry, found, type⟩ := Option.map_eq_some_iff.mp same
  have others : ∀ entry ∈ mimeTypes, bytesOf entry.2 ≠ bytesOf "application/octet-stream" := by
    decide
  exact others entry (List.mem_of_find?_eq_some found) type

/-- No type belongs to a word with a separator. -/
theorem typeOfWord_of_separator {word : Bytes} (separator : (47 : UInt8) ∈ word) :
    typeOfWord word = none := by
  have others : ∀ entry ∈ mimeTypes, (47 : UInt8) ∉ bytesOf entry.1 := by decide
  rw [typeOfWord, Option.map_eq_none_iff, List.find?_eq_none]
  intro entry member same
  refine others entry member ?_
  rw [of_decide_eq_true same]
  exact List.mem_map.mpr ⟨47, separator, rfl⟩

/-! ## The last dot -/

theorem dot_not_mem_utf8 {text : Text} (dotless : '.' ∉ text) : (46 : UInt8) ∉ utf8 text := by
  intro member
  obtain ⟨char, inside, byte⟩ := List.mem_flatMap.mp member
  have dot : char = '.' := Char.toNat_inj.mp (toNat_of_mem_utf8EncodeChar byte (by decide))
  exact dotless (dot ▸ inside)

theorem separator_mem_utf8 {text : Text} (separator : '/' ∈ text) : (47 : UInt8) ∈ utf8 text :=
  List.mem_flatMap.mpr ⟨'/', separator, by decide⟩

theorem afterLastDot_of_not_mem {bytes : Bytes} (dotless : (46 : UInt8) ∉ bytes) :
    afterLastDot bytes = bytes := by
  rw [afterLastDot, takeWhile_reverse_of_not_mem dotless, List.reverse_reverse]

theorem afterLastDot_append {suffix : Bytes} (dotless : (46 : UInt8) ∉ suffix) (stem : Bytes) :
    afterLastDot (stem ++ 46 :: suffix) = suffix := by
  rw [afterLastDot, takeWhile_reverse_append dotless, List.reverse_reverse]

/-- What is behind the last dot of a path. -/
theorem afterLastDot_utf8 {suffix : Text} (dotless : '.' ∉ suffix) (stem : Text) :
    afterLastDot (utf8 (stem ++ '.' :: suffix)) = utf8 suffix := by
  rw [utf8_append, utf8_cons]
  exact afterLastDot_append (dot_not_mem_utf8 dotless) _

/-- The bytes are the same up to ASCII case. -/
def SameUpToCase (first second : Text) : Prop :=
  (utf8 first).map lowerByte = (utf8 second).map lowerByte

/-- The type that `detectMimeType` sees in a path without an extension: in the name of a dot
file, or in the whole path if it has neither a dot nor a separator. -/
def disguise (path : Text) : Option Bytes :=
  if (filename path).head? = some '.' then typeOfWord (utf8 (filename path).tail)
  else if '.' ∉ path ∧ '/' ∉ path then typeOfWord (utf8 path)
  else none

/-- A path with an extension has the type of that extension. -/
theorem detectMimeType_of_extension {suffix : Text} (same : extension path = '.' :: suffix) :
    detectMimeType (utf8 path) =
      (typeOfWord (utf8 suffix)).getD (bytesOf "application/octet-stream") := by
  rcases extension_cases path with ⟨none, -⟩ | ⟨stem, other, name, dotless, found⟩
  · rw [none] at same
    cases same
  · obtain rfl : other = suffix := (List.cons.inj (found.symm.trans same)).2
    rw [detectMimeType_eq, ← directory_append_filename path, name, ← List.append_assoc,
      afterLastDot_utf8 dotless]

/-- A dot behind the last separator is in the file name. -/
theorem dot_mem_filename {stem suffix : Text} (separator : '/' ∉ suffix) :
    '.' ∈ filename (stem ++ '.' :: suffix) := by
  have behind : '/' ∉ '.' :: suffix := by simp [separator]
  have all := decide_ne_of_not_mem behind
  rw [filename, List.reverse_append, List.takeWhile_append_of_pos all]
  simp

/-- What is behind the last dot of a path whose file name has none. -/
theorem typeOfWord_of_dotless_name (dotless : '.' ∉ filename path) :
    typeOfWord (afterLastDot (utf8 path)) =
      if '.' ∉ path ∧ '/' ∉ path then typeOfWord (utf8 path) else none := by
  by_cases dotted : '.' ∈ path
  · obtain ⟨stem, suffix, rfl, last⟩ := exists_last_dot dotted
    have separator : '/' ∈ suffix := by
      by_contra clean
      exact dotless (dot_mem_filename clean)
    rw [afterLastDot_utf8 last, typeOfWord_of_separator (separator_mem_utf8 separator),
      if_neg fun both => both.1 dotted]
  · rw [afterLastDot_of_not_mem (dot_not_mem_utf8 dotted)]
    by_cases separator : '/' ∈ path
    · rw [typeOfWord_of_separator (separator_mem_utf8 separator),
        if_neg fun both => both.2 separator]
    · rw [if_pos ⟨dotted, separator⟩]

/-- A path without an extension has the type that it is disguised as. -/
theorem detectMimeType_of_no_extension (none : extension path = []) :
    detectMimeType (utf8 path) =
      (disguise path).getD (bytesOf "application/octet-stream") := by
  have noSuffix : filename path = ['.', '.'] ∨ '.' ∉ (filename path).tail := by
    rcases extension_cases path with ⟨-, cases⟩ | ⟨stem, suffix, -, -, found⟩
    · exact cases
    · rw [none] at found
      cases found
  rw [detectMimeType_eq, disguise]
  refine congrArg (Option.getD · _) ?_
  by_cases dotFile : (filename path).head? = some '.'
  · rw [if_pos dotFile]
    obtain ⟨rest, name⟩ : ∃ rest, filename path = '.' :: rest := List.head?_eq_some_iff.mp dotFile
    rw [name] at noSuffix ⊢
    have whole : path = directory path ++ '.' :: rest := by
      rw [← name, directory_append_filename]
    rcases noSuffix with dots | last
    · obtain rfl : rest = ['.'] := (List.cons.inj dots).2
      rw [whole, List.append_cons, afterLastDot_utf8 (by simp)]
      decide
    · rw [List.tail_cons] at last ⊢
      rw [whole, afterLastDot_utf8 last]
  · rw [if_neg dotFile]
    refine typeOfWord_of_dotless_name ?_
    rcases noSuffix with dots | last
    · rw [dots] at dotFile
      exact absurd rfl dotFile
    · cases name : filename path with
      | nil => simp
      | cons char rest =>
          rw [name] at dotFile last
          simp only [List.mem_cons, not_or]
          exact ⟨fun dot => dotFile (congrArg some dot.symm), last⟩

theorem disguise_ne (path : Text) :
    disguise path ≠ some (bytesOf "application/octet-stream") := by
  unfold disguise
  split_ifs
  · exact typeOfWord_ne _
  · exact typeOfWord_ne _
  · exact fun same => nomatch same

theorem getD_eq_getD_iff {first second : Option Bytes} {otherwise : Bytes}
    (firstNe : first ≠ some otherwise) (secondNe : second ≠ some otherwise) :
    first.getD otherwise = second.getD otherwise ↔ first = second := by
  refine ⟨fun same => ?_, fun same => by rw [same]⟩
  cases first with
  | none =>
      cases second with
      | none => rfl
      | some type => exact absurd (congrArg some same.symm) secondNe
  | some type =>
      cases second with
      | none => exact absurd (congrArg some same) firstNe
      | some other => exact congrArg some same

theorem sameUpToCase_nil {text : Text} : SameUpToCase [] text ↔ text = [] := by
  cases text with
  | nil => exact iff_of_true rfl rfl
  | cons char text =>
      refine iff_of_false (fun same => ?_) (List.cons_ne_nil _ _)
      have lengths := congrArg List.length same
      have positive := char.utf8Size_pos
      rw [utf8_cons, List.length_map, List.length_map, List.length_append,
        String.length_utf8EncodeChar] at lengths
      simp only [utf8_nil, List.length_nil] at lengths
      omega

theorem sameUpToCase_cons {char : Char} {first second : Text}
    (same : SameUpToCase (char :: first) (char :: second)) : SameUpToCase first second := by
  unfold SameUpToCase at same
  rw [utf8_cons, utf8_cons, List.map_append, List.map_append] at same
  exact List.append_cancel_left same

theorem typeOfWord_congr {first second : Text} (same : SameUpToCase first second) :
    typeOfWord (utf8 first) = typeOfWord (utf8 second) := by
  unfold typeOfWord
  rw [same]

/-- An extension begins with a dot. -/
theorem extension_eq_cons (some_extension : extension path ≠ []) :
    ∃ suffix, extension path = '.' :: suffix := by
  rcases extension_cases path with ⟨none, -⟩ | ⟨stem, suffix, -, -, found⟩
  · exact absurd none some_extension
  · exact ⟨suffix, found⟩

/-- The types agree with the extensions exactly if the paths have one, or are disguised
alike. -/
theorem detectMimeType_iff (first second : Text) :
    (SameUpToCase (extname first) (extname second) →
        detectMimeType (utf8 first) = detectMimeType (utf8 second)) ↔
      (SameUpToCase (extname first) (extname second) → extension first = [] →
        disguise first = disguise second) := by
  refine imp_congr_right fun same => ?_
  rw [extname_eq, extname_eq] at same
  by_cases none : extension first = []
  · rw [none, sameUpToCase_nil] at same
    rw [detectMimeType_of_no_extension none, detectMimeType_of_no_extension same]
    simp only [none, forall_const]
    exact getD_eq_getD_iff (disguise_ne first) (disguise_ne second)
  · refine iff_of_true ?_ fun empty => absurd empty none
    obtain ⟨suffix, found⟩ := extension_eq_cons none
    have someSecond : extension second ≠ [] := by
      intro empty
      rw [empty] at same
      exact none (sameUpToCase_nil.mp same.symm)
    obtain ⟨other, foundSecond⟩ := extension_eq_cons someSecond
    rw [found, foundSecond] at same
    rw [detectMimeType_of_extension found, detectMimeType_of_extension foundSecond,
      typeOfWord_congr (sameUpToCase_cons same)]

/-- `extname` and `basename` agree exactly on the paths that do not end in a separator or
have no extension before it, and the types agree with the extensions exactly if the paths
have one or are disguised alike. -/
theorem extensions_agree_iff (first second : Text) :
    (extname first = extname (pathBasename first) ∧ extname first <:+ pathBasename first ↔
      first.getLast? ≠ some '/' ∨ extension (lastComponent first) = []) ∧
    ((SameUpToCase (extname first) (extname second) →
        detectMimeType (utf8 first) = detectMimeType (utf8 second)) ↔
      (SameUpToCase (extname first) (extname second) → extension first = [] →
        disguise first = disguise second)) :=
  ⟨extname_basename_iff first, detectMimeType_iff first second⟩

/-- A separator at the end hides the extension, and a bare word has the type of one. -/
theorem extensions_disagree :
    ¬ (∀ path : Text,
      extname path = extname (pathBasename path) ∧ extname path <:+ pathBasename path) ∧
    ¬ ∀ first second : Text, SameUpToCase (extname first) (extname second) →
      detectMimeType (utf8 first) = detectMimeType (utf8 second) := by
  constructor
  · intro always
    exact absurd (always "a/b.txt/".toList).1 (by decide)
  · intro always
    exact absurd (always "js".toList "x".toList rfl) (by decide)

end Kode.Paths
