/-
# `path.join` and `path.resolve`

Both functions append one part after the other and normalize at the end. Behind the first
part, `join` appends only parts that it has made relative, while `resolve` starts over at
an absolute part. Appending a relative part takes up its components behind those that are
there, so that normalizing in between changes nothing.
-/

import Kode.Paths.Normalize

namespace Kode.Paths

open Kode.Library
open Kode.Library.PosixPath

variable {path : Text} {parts : List Text}

/-! ## Appending relative parts -/

theorem append_nil_left (path : Text) : append [] path = path := by
  unfold append
  split_ifs
  · rfl
  · rfl
  · rename_i _ nonempty
    exact absurd (Or.inl rfl) nonempty

/-- Normalizing the left side first changes nothing. -/
theorem lexicalPath_append_lexicalPath (path : Text) {part : Text}
    (relative : isAbsolute part = false) :
    lexicalPath (append (lexicalPath path) part) = lexicalPath (append path part) := by
  rw [lexicalPath_eq_iff, isAbsolute_append relative, isAbsolute_append relative,
    reduced_append relative, reduced_append relative, isAbsolute_lexicalPath,
    reduced_lexicalPath]
  exact ⟨rfl, rfl⟩

theorem isAbsolute_foldl_append (relative : ∀ part ∈ parts, isAbsolute part = false)
    (path : Text) : isAbsolute (parts.foldl append path) = isAbsolute path := by
  induction parts generalizing path with
  | nil => rfl
  | cons part parts ih =>
      rw [List.foldl_cons, ih fun other later => relative other (List.mem_cons_of_mem _ later),
        isAbsolute_append (relative part (List.mem_cons_self ..))]

theorem reduced_foldl_append (relative : ∀ part ∈ parts, isAbsolute part = false)
    (path : Text) :
    reduced (parts.foldl append path) =
      (parts.flatMap (·.splitOn '/')).foldl (reduce (isAbsolute path)) (reduced path) := by
  induction parts generalizing path with
  | nil => rfl
  | cons part parts ih =>
      have here := relative part (List.mem_cons_self ..)
      rw [List.foldl_cons, ih fun other later => relative other (List.mem_cons_of_mem _ later),
        isAbsolute_append here, reduced_append here, List.flatMap_cons, List.foldl_append]

/-- Empty parts change nothing. -/
theorem foldl_filter_parts {α : Type*} {f : α → Text → α} (ignoresNil : ∀ a, f a [] = a)
    (parts : List Text) (start : α) :
    ((parts.filter (· ≠ [])).flatMap (·.splitOn '/')).foldl f start =
      (parts.flatMap (·.splitOn '/')).foldl f start := by
  induction parts generalizing start with
  | nil => rfl
  | cons part parts ih =>
      by_cases empty : part = []
      · subst empty
        rw [List.filter_cons_of_neg (by simp), ih, List.flatMap_cons, List.splitOn_nil,
          List.singleton_append, List.foldl_cons, ignoresNil]
      · rw [List.filter_cons_of_pos (by simpa using empty), List.flatMap_cons, List.flatMap_cons,
          List.foldl_append, List.foldl_append, ih]

theorem lexicalPath_foldl_filter (relative : ∀ part ∈ parts, isAbsolute part = false)
    (path : Text) :
    lexicalPath ((parts.filter (· ≠ [])).foldl append path) =
      lexicalPath (parts.foldl append path) := by
  have filtered : ∀ part ∈ parts.filter (· ≠ []), isAbsolute part = false :=
    fun part member => relative part (List.mem_of_mem_filter member)
  rw [lexicalPath_eq_iff, isAbsolute_foldl_append filtered, isAbsolute_foldl_append relative,
    reduced_foldl_append filtered, reduced_foldl_append relative,
    foldl_filter_parts (reduce_nil _)]
  exact ⟨rfl, rfl⟩

/-- The components of a joined text are those of its parts. -/
theorem splitOn_intercalate_cons (first : Text) (parts : List Text) :
    (['/'].intercalate (first :: parts)).splitOn '/' =
      first.splitOn '/' ++ parts.flatMap (·.splitOn '/') := by
  induction parts generalizing first with
  | nil => simp
  | cons part parts ih =>
      rw [List.intercalate_cons_cons, List.append_assoc, List.singleton_append,
        List.splitOn_append_cons_self, ih part, List.flatMap_cons]

/-- Joining with separators and appending have the same normal form. -/
theorem lexicalPath_intercalate {first : Text} (nonempty : first ≠ [])
    (relative : ∀ part ∈ parts, isAbsolute part = false) :
    lexicalPath (['/'].intercalate (first :: parts)) = lexicalPath (parts.foldl append first) := by
  have absolute : isAbsolute (['/'].intercalate (first :: parts)) = isAbsolute first := by
    obtain ⟨rest, same⟩ := intercalate_eq_append first parts
    rw [same]
    cases first with
    | nil => exact absurd rfl nonempty
    | cons char first => rfl
  rw [lexicalPath_eq_iff, isAbsolute_foldl_append relative, reduced_foldl_append relative, reduced,
    absolute, splitOn_intercalate_cons, List.foldl_append]
  exact ⟨rfl, rfl⟩

/-! ## `join` -/

/-- A character that is stripped. -/
def isStripped (char : Char) : Bool := char = '/' ∨ char = '\\'

theorem stripSeparators_eq (part : Text) : stripSeparators part = part.dropWhile isStripped := by
  induction part with
  | nil => rfl
  | cons char part ih =>
      rw [stripSeparators, List.dropWhile_cons, ih]
      by_cases stripped : char = '/' ∨ char = '\\'
      · rw [if_pos stripped, if_pos (by simpa [isStripped] using stripped)]
      · rw [if_neg stripped, if_neg (by simpa [isStripped] using stripped)]

/-- A stripped part is relative. -/
theorem isAbsolute_stripSeparators (part : Text) : isAbsolute (stripSeparators part) = false := by
  induction part with
  | nil => rfl
  | cons char part ih =>
      rw [stripSeparators]
      by_cases stripped : char = '/' ∨ char = '\\'
      · rw [if_pos stripped]
        exact ih
      · rw [if_neg stripped]
        exact beq_eq_false_iff_ne.mpr fun first => stripped (Or.inl (Option.some.inj first))

theorem relative_stripped (parts : List Text) :
    ∀ part ∈ parts.map stripSeparators, isAbsolute part = false := by
  intro part member
  obtain ⟨whole, -, rfl⟩ := List.mem_map.mp member
  exact isAbsolute_stripSeparators whole

theorem joinFrom_succ (path : Text) (i : ℕ) (parts : List Text) :
    joinFrom path (i + 1) parts = (parts.map stripSeparators).foldl append path := by
  induction parts generalizing path i with
  | nil => rfl
  | cons part parts ih =>
      rw [joinFrom, if_pos (Nat.succ_pos i), ih, List.map_cons, List.foldl_cons]

theorem join_cons (first : Text) (rest : List Text) :
    join (first :: rest) = lexicalPath ((rest.map stripSeparators).foldl append first) := by
  rw [join, joinFrom, if_neg (Nat.lt_irrefl 0), append_nil_left, joinFrom_succ]

theorem isAbsolute_join (first : Text) (rest : List Text) :
    isAbsolute (join (first :: rest)) = isAbsolute first := by
  rw [join_cons, isAbsolute_lexicalPath, isAbsolute_foldl_append (relative_stripped rest)]

theorem join_singleton (first : Text) : join [first] = normalize first := join_cons first []

theorem join_concat (first : Text) (rest : List Text) (last : Text) :
    join (first :: rest ++ [last]) = join [join (first :: rest), last] := by
  rw [List.cons_append, join_cons, join_cons, join_cons, List.map_append, List.foldl_append]
  exact (lexicalPath_append_lexicalPath _ (isAbsolute_stripSeparators last)).symm

/-- The non-empty parts with separators between them. -/
theorem join_eq_normalize_intercalate (first : Text) (rest : List Text) :
    join (first :: rest) =
      normalize (['/'].intercalate ((first :: rest.map stripSeparators).filter (· ≠ []))) := by
  have relative := relative_stripped rest
  have filtered : ∀ part ∈ (rest.map stripSeparators).filter (· ≠ []), isAbsolute part = false :=
    fun part member => relative part (List.mem_of_mem_filter member)
  rw [join_cons, ← lexicalPath_foldl_filter relative, normalize]
  by_cases empty : first = []
  · subst empty
    rw [List.filter_cons_of_neg (by simp)]
    cases kept : (rest.map stripSeparators).filter (· ≠ []) with
    | nil => rfl
    | cons part parts =>
        have nonempty : part ≠ [] := by
          have member : part ∈ (rest.map stripSeparators).filter (· ≠ []) := by
            rw [kept]
            exact List.mem_cons_self ..
          simpa using (List.mem_filter.mp member).2
        rw [kept] at filtered
        rw [List.foldl_cons, append_nil_left, lexicalPath_intercalate nonempty fun other later =>
          filtered other (List.mem_cons_of_mem _ later)]
  · rw [List.filter_cons_of_pos (by simpa using empty), lexicalPath_intercalate empty filtered]

/-- `join` is as absolute as its first part, folds from the left, and normalizes the
non-empty parts with a separator between them. -/
theorem join_folds (first : Text) (rest : List Text) :
    isAbsolute (join (first :: rest)) = isAbsolute first ∧
      (∀ last, join (first :: rest ++ [last]) = join [join (first :: rest), last]) ∧
      join [first] = normalize first ∧
      join (first :: rest) =
        (let kept := (first :: rest.map (·.dropWhile isStripped)).filter (· ≠ [])
        if kept = [] then ['.'] else normalize (['/'].intercalate kept)) := by
  refine ⟨isAbsolute_join first rest, join_concat first rest, join_singleton first, ?_⟩
  have stripped : rest.map (·.dropWhile isStripped) = rest.map stripSeparators :=
    List.map_congr_left fun part _ => (stripSeparators_eq part).symm
  rw [join_eq_normalize_intercalate, stripped]
  dsimp only
  split_ifs with none
  · rw [none]
    rfl
  · rfl

/-! ## `resolve` -/

theorem resolveStep_absolute (path : Text) {part : Text} (absolute : isAbsolute part = true) :
    resolveStep path part = part := if_pos absolute

theorem resolveStep_relative (path : Text) {part : Text} (relative : isAbsolute part = false) :
    resolveStep path part = append path part := if_neg (Bool.eq_false_iff.mp relative)

theorem isAbsolute_foldl_resolveStep (absolute : isAbsolute path = true) (parts : List Text) :
    isAbsolute (parts.foldl resolveStep path) = true := by
  induction parts generalizing path with
  | nil => exact absolute
  | cons part parts ih =>
      rw [List.foldl_cons]
      cases rooted : isAbsolute part with
      | true =>
          rw [resolveStep_absolute path rooted]
          exact ih rooted
      | false =>
          rw [resolveStep_relative path rooted]
          exact ih (by rw [isAbsolute_append rooted, absolute])

theorem foldl_resolveStep_relative (relative : ∀ part ∈ parts, isAbsolute part = false)
    (path : Text) : parts.foldl resolveStep path = parts.foldl append path := by
  induction parts generalizing path with
  | nil => rfl
  | cons part parts ih =>
      rw [List.foldl_cons, List.foldl_cons,
        resolveStep_relative path (relative part (List.mem_cons_self ..)),
        ih fun other later => relative other (List.mem_cons_of_mem _ later)]

theorem isAbsolute_resolve {currentPath : Text} (absolute : isAbsolute currentPath = true)
    (parts : List Text) : isAbsolute (resolve currentPath parts) = true := by
  rw [resolve, isAbsolute_lexicalPath, isAbsolute_foldl_resolveStep absolute]

theorem resolve_concat {currentPath : Text} (absolute : isAbsolute currentPath = true)
    (parts : List Text) (last : Text) :
    resolve currentPath (parts ++ [last]) =
      resolve currentPath [resolve currentPath parts, last] := by
  have inner := isAbsolute_resolve absolute parts
  rw [resolve, List.foldl_append]
  show lexicalPath (resolveStep _ last) = lexicalPath (resolveStep (resolveStep _ _) last)
  rw [resolveStep_absolute currentPath inner]
  cases rooted : isAbsolute last with
  | true => rw [resolveStep_absolute _ rooted, resolveStep_absolute _ rooted]
  | false =>
      rw [resolveStep_relative _ rooted, resolveStep_relative _ rooted, resolve,
        lexicalPath_append_lexicalPath _ rooted]

/-- An absolute part makes what is before it and the current directory irrelevant. -/
theorem resolve_absolute (currentPath : Text) (before : List Text) {part : Text}
    (absolute : isAbsolute part = true) (after : List Text) :
    resolve currentPath (before ++ part :: after) = lexicalPath (after.foldl resolveStep part) := by
  rw [resolve, List.foldl_append, List.foldl_cons, resolveStep_absolute _ absolute]

/-- `resolve` gives an absolute normal form that depends on nothing before the last absolute
part, and folds from the left. -/
theorem resolve_folds (currentPath : Text) (absolute : isAbsolute currentPath = true)
    (parts : List Text) :
    (isAbsolute (resolve currentPath parts) = true ∧ IsNormalForm (resolve currentPath parts)) ∧
      (∀ last, resolve currentPath (parts ++ [last]) =
        resolve currentPath [resolve currentPath parts, last]) ∧
      (∀ before part after, parts = before ++ part :: after → isAbsolute part = true →
        (∀ later ∈ after, isAbsolute later = false) →
        resolve currentPath parts = resolve currentPath (part :: after) ∧
          ∀ otherPath otherBefore,
            resolve otherPath (otherBefore ++ part :: after) = resolve currentPath parts) ∧
      ((∀ part ∈ parts, isAbsolute part = false) →
        resolve currentPath parts = normalize (['/'].intercalate (currentPath :: parts))) := by
  refine ⟨⟨isAbsolute_resolve absolute parts, isNormalForm_lexicalPath _⟩,
    resolve_concat absolute parts, ?_, ?_⟩
  · rintro before part after rfl rooted -
    constructor
    · rw [resolve_absolute currentPath before rooted]
      exact (resolve_absolute currentPath [] rooted after).symm
    · intro otherPath otherBefore
      rw [resolve_absolute _ _ rooted, resolve_absolute _ _ rooted]
  · intro relative
    have nonempty : currentPath ≠ [] := by
      rintro rfl
      exact nomatch absolute
    rw [resolve, foldl_resolveStep_relative relative, normalize,
      lexicalPath_intercalate nonempty relative]

theorem resolve_folds_parent :
    isAbsolute "/home/user".toList = true ∧
      resolve "/home/user".toList ["/tmp".toList, "x".toList, "..".toList] = "/tmp".toList ∧
      resolve "/home/user".toList ["/tmp".toList, "x".toList, "..".toList] =
        resolve "/home/user".toList
          [resolve "/home/user".toList ["/tmp".toList, "x".toList], "..".toList] := by
  have absolute : isAbsolute "/home/user".toList = true := by decide
  exact ⟨absolute, by decide,
    (resolve_folds "/home/user".toList absolute ["/tmp".toList, "x".toList]).2.1 "..".toList⟩

end Kode.Paths
