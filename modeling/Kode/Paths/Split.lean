/-
# `path.dirname` and `path.basename`

`PathDirname` and `PathBasename` cut a path before its last component, and `join` puts the
two together again. Since `join` also strips backslashes, which are ordinary characters to
the other two, this gives the normal form back exactly if the last component does not begin
with one.
-/

import Kode.Paths.Join
import Mathlib.Data.List.DropRight
import Mathlib.Data.List.Induction

namespace Kode.Paths

open Kode.Library
open Kode.Library.PosixPath

variable {path : Text}

/-! ## Separators at the end -/

theorem isAbsolute_append_of_ne_nil (nonempty : path ≠ []) (more : Text) :
    isAbsolute (path ++ more) = isAbsolute path := by
  cases path with
  | nil => exact absurd rfl nonempty
  | cons char path => rfl

theorem reduced_append_separator (nonempty : path ≠ []) :
    reduced (path ++ ['/']) = reduced path := by
  rw [reduced, isAbsolute_append_of_ne_nil nonempty, List.splitOn_append_cons_self,
    List.foldl_append]
  rfl

/-- Nothing but separators: the root, or nothing at all. -/
theorem reduced_of_separators (separators : ∀ char ∈ path, char = '/') : reduced path = [] := by
  induction path using List.reverseRecOn with
  | nil => rfl
  | append_singleton path char ih =>
      obtain rfl := separators char (by simp)
      by_cases empty : path = []
      · subst empty
        rfl
      · rw [reduced_append_separator empty]
        exact ih fun other member => separators other (by simp [member])

/-- A path without the separators at its end. -/
def core (path : Text) : Text := path.rdropWhile (· = '/')

theorem core_append_separator (path : Text) : core (path ++ ['/']) = core path :=
  List.rdropWhile_concat_pos _ _ _ rfl

theorem core_of_last (other : path.getLast? ≠ some '/') : core path = path := by
  rw [core, List.rdropWhile_eq_self_iff]
  intro nonempty last
  exact other (by rw [List.getLast?_eq_some_getLast nonempty]; simpa using last)

/-- What the separators at the end do not change. -/
theorem core_spec (path : Text) :
    (core path = [] ∧ ∀ char ∈ path, char = '/') ∨
      core path ≠ [] ∧ (core path).getLast? ≠ some '/' ∧
        isAbsolute (core path) = isAbsolute path ∧ reduced (core path) = reduced path ∧
        trimTrailingSeparators path = core path := by
  induction path using List.reverseRecOn with
  | nil => exact Or.inl ⟨rfl, by simp⟩
  | append_singleton path char ih =>
      by_cases separator : char = '/'
      · subst separator
        rw [core_append_separator]
        rcases ih with ⟨empty, separators⟩ | ⟨nonempty, last, absolute, same, trimmed⟩
        · refine Or.inl ⟨empty, fun char member => ?_⟩
          rcases List.mem_append.mp member with inside | last
          · exact separators char inside
          · exact List.mem_singleton.mp last
        · have whole : path ≠ [] := by
            rintro rfl
            exact nonempty rfl
          refine Or.inr ⟨nonempty, last, ?_, ?_, ?_⟩
          · rw [isAbsolute_append_of_ne_nil whole, absolute]
          · rw [reduced_append_separator whole, same]
          · rw [trimTrailingSeparators_append whole, trimmed]
      · have last : (path ++ [char]).getLast? ≠ some '/' := by
          simpa using separator
        rw [core_of_last last]
        exact Or.inr ⟨by simp, last, rfl, rfl, trimTrailingSeparators_of_last (Or.inl last)⟩

theorem trimTrailingSeparators_of_separators (nonempty : path ≠ [])
    (separators : ∀ char ∈ path, char = '/') : trimTrailingSeparators path = ['/'] := by
  induction path using List.reverseRecOn with
  | nil => exact absurd rfl nonempty
  | append_singleton path char ih =>
      obtain rfl := separators char (by simp)
      by_cases empty : path = []
      · subst empty
        rfl
      · rw [trimTrailingSeparators_append empty]
        exact ih empty fun other member => separators other (by simp [member])

/-! ## The last component -/

/-- What is before the last component, with the separators in between. -/
def directory (path : Text) : Text := path.rdropWhile (· ≠ '/')

theorem directory_append_filename (path : Text) : directory path ++ filename path = path := by
  rw [directory, List.rdropWhile, filename, ← List.reverse_append, List.takeWhile_append_dropWhile,
    List.reverse_reverse]

theorem separator_not_mem_filename (path : Text) : '/' ∉ filename path := by
  intro member
  have inside := List.mem_takeWhile_imp (List.mem_reverse.mp member)
  simp at inside

theorem directory_last (path : Text) :
    directory path = [] ∨ (directory path).getLast? = some '/' := by
  by_cases empty : directory path = []
  · exact Or.inl empty
  · have last := List.rdropWhile_last_not _ _ empty
    rw [decide_eq_true_eq, not_not] at last
    exact Or.inr ((List.getLast?_eq_some_getLast empty).trans (congrArg some last))

theorem isAbsolute_of_not_mem {name : Text} (separator : '/' ∉ name) :
    isAbsolute name = false := by
  cases name with
  | nil => rfl
  | cons char name =>
      have other : char ≠ '/' := fun first => separator (by simp [first])
      simpa [isAbsolute] using other

/-- A path is its last component appended to what is before it. -/
theorem append_directory_filename (path : Text) :
    append (directory path) (filename path) = path := by
  have relative := isAbsolute_of_not_mem (separator_not_mem_filename path)
  rw [append, if_neg (Bool.eq_false_iff.mp relative), if_pos (directory_last path),
    directory_append_filename]

theorem parentPath_eq (nonempty : path ≠ []) (last : path.getLast? ≠ some '/') :
    parentPath path =
      if core (directory path) = [] ∧ isAbsolute path then ['/'] else core (directory path) := by
  have someName : ¬ path.all (· = '/') = true := by
    rw [List.all_eq_true]
    intro separators
    have final := separators _ (List.getLast_mem nonempty)
    exact last ((List.getLast?_eq_some_getLast nonempty).trans
      (congrArg some (of_decide_eq_true final)))
  have reversed : (core (directory path)).reverse =
      (path.reverse.dropWhile (· ≠ '/')).dropWhile (· = '/') := by
    rw [core, directory, List.rdropWhile, List.rdropWhile, List.reverse_reverse,
      List.reverse_reverse]
  unfold parentPath
  dsimp only
  rw [← reversed, if_neg someName, List.reverse_reverse]
  simp only [List.reverse_eq_nil_iff]

/-- `PathDirname` keeps the stack of what is before the last component. -/
theorem pathDirname_spec {clean : Text} (trimmed : trimTrailingSeparators path = clean)
    (nonempty : clean ≠ []) (last : clean.getLast? ≠ some '/') :
    isAbsolute (pathDirname path) = isAbsolute (directory clean) ∧
      reduced (pathDirname path) = reduced (directory clean) := by
  have notRoot : clean ≠ ['/'] := by
    rintro rfl
    exact last rfl
  have absolute : isAbsolute clean = isAbsolute (directory clean) := by
    have relative := isAbsolute_of_not_mem (separator_not_mem_filename clean)
    have joined : isAbsolute (append (directory clean) (filename clean)) = _ :=
      isAbsolute_append relative
    rwa [append_directory_filename] at joined
  unfold pathDirname
  rw [trimmed]
  dsimp only
  rw [if_neg notRoot, parentPath_eq nonempty last, absolute]
  rcases core_spec (directory clean) with ⟨empty, separators⟩ | ⟨named, -, same, sameStack, -⟩
  · rw [empty, reduced_of_separators separators]
    cases isAbsolute (directory clean) <;> exact ⟨rfl, rfl⟩
  · have parent : (if core (directory clean) = [] ∧ isAbsolute (directory clean) then ['/']
        else core (directory clean)) = core (directory clean) := if_neg fun both => named both.1
    rw [parent, if_neg (genericString_ne_nil named), isAbsolute_genericString,
      reduced_genericString]
    exact ⟨same, sameStack⟩

/-- `PathBasename` is the last component. -/
theorem pathBasename_eq {clean : Text} (trimmed : trimTrailingSeparators path = clean)
    (last : clean.getLast? ≠ some '/') : pathBasename path = filename clean := by
  have notRoot : clean ≠ ['/'] := by
    rintro rfl
    exact last rfl
  unfold pathBasename
  rw [trimmed]
  dsimp only
  rw [if_neg notRoot, genericString_of_not_mem (separator_not_mem_filename clean)]

/-! ## Putting a path together again -/

/-- The last component of a path, whatever separators follow it. -/
def lastComponent (path : Text) : Text := filename (core path)

theorem stripSeparators_of_head {name : Text} (separator : '/' ∉ name)
    (backslash : name.head? ≠ some '\\') : stripSeparators name = name := by
  cases name with
  | nil => rfl
  | cons char name =>
      have other : ¬ (char = '/' ∨ char = '\\') := by
        rintro (rfl | rfl)
        · exact separator (List.mem_cons_self ..)
        · exact backslash rfl
      rw [stripSeparators, if_neg other]

/-- A component that has been shortened is not taken up as the whole one. -/
theorem reduce_ne_of_shorter {rooted : Bool} {names : List Text} {name shorter : Text}
    (valid : IsName name) (separator : '/' ∉ shorter) (less : shorter.length < name.length) :
    reduce rooted names shorter ≠ name :: names := by
  intro same
  rcases component_cases separator with rfl | rfl | rfl | shorterName
  · exact List.cons_ne_self name names same.symm
  · exact List.cons_ne_self name names same.symm
  · cases names with
    | nil =>
        cases rooted with
        | true => cases same
        | false => exact valid.dots (List.cons.inj same).1.symm
    | cons last earlier =>
        by_cases dots : last = ['.', '.']
        · subst dots
          exact valid.dots (List.cons.inj same).1.symm
        · have dropped : earlier = name :: last :: earlier := (if_neg dots).symm.trans same
          have lengths := congrArg List.length dropped
          simp only [List.length_cons] at lengths
          omega
  · rw [reduce_name shorterName] at same
    obtain ⟨rfl, -⟩ := List.cons.inj same
    exact Nat.lt_irrefl _ less

/-- Appending a component takes it up. -/
theorem lexicalPath_append_component (path : Text) {component : Text}
    (separator : '/' ∉ component) :
    lexicalPath (append path component) =
      display (isAbsolute path) (reduce (isAbsolute path) (reduced path) component) := by
  have relative := isAbsolute_of_not_mem separator
  rw [lexicalPath_eq, isAbsolute_append relative, reduced_append relative,
    List.splitOn_eq_singleton separator]
  rfl

/-- A name that begins with a backslash, and what is left of it. -/
theorem backslash_name {name : Text} (separator : '/' ∉ name)
    (backslash : name.head? = some '\\') :
    IsName name ∧ '/' ∉ stripSeparators name ∧ (stripSeparators name).length < name.length := by
  cases name with
  | nil => cases backslash
  | cons char name =>
      obtain rfl := Option.some.inj backslash
      have rest : stripSeparators ('\\' :: name) = name.dropWhile isStripped := by
        rw [stripSeparators, if_pos (Or.inr rfl), stripSeparators_eq]
      have suffix := List.dropWhile_suffix (p := isStripped) (l := name)
      refine ⟨⟨by simp, separator, by simp, by simp⟩, ?_, ?_⟩
      · rw [rest]
        exact fun member => separator (List.mem_cons_of_mem _ (suffix.subset member))
      · rw [rest, List.length_cons]
        exact Nat.lt_succ_of_le suffix.length_le

/-- A path of separators only. -/
theorem join_of_separators (separators : ∀ char ∈ path, char = '/') :
    join [pathDirname path, pathBasename path] = normalize path := by
  by_cases empty : path = []
  · subst empty
    decide
  · have trimmed := trimTrailingSeparators_of_separators empty separators
    have absolute : isAbsolute path = true := by
      cases path with
      | nil => exact absurd rfl empty
      | cons char path => simp [isAbsolute, separators char (List.mem_cons_self ..)]
    have root : pathDirname path = ['/'] ∧ pathBasename path = ['/'] := by
      unfold pathDirname pathBasename
      rw [trimmed]
      exact ⟨rfl, rfl⟩
    rw [root.1, root.2, normalize, lexicalPath_eq path, absolute, reduced_of_separators separators]
    decide

/-- Joining the directory and the base name of a path gives its normal form back exactly if
its last component does not begin with a backslash. -/
theorem join_dirname_basename_iff (path : Text) :
    join [pathDirname path, pathBasename path] = normalize path ↔
      (lastComponent path).head? ≠ some '\\' := by
  rcases core_spec path with ⟨empty, separators⟩ | ⟨nonempty, last, absolute, stack, trimmed⟩
  · refine iff_of_true (join_of_separators separators) ?_
    rw [lastComponent, empty]
    exact fun first => nomatch first
  · have separator := separator_not_mem_filename (core path)
    have normal := isReduced_reduced (directory (core path))
    have before := pathDirname_spec trimmed nonempty last
    have whole : normalize path =
        lexicalPath (append (directory (core path)) (filename (core path))) := by
      rw [append_directory_filename]
      exact lexicalPath_eq_iff.mpr ⟨absolute.symm, stack.symm⟩
    have joined : join [pathDirname path, pathBasename path] = lexicalPath
        (append (pathDirname path) (stripSeparators (filename (core path)))) := by
      rw [join_cons, pathBasename_eq trimmed last]
      rfl
    rw [joined, whole, lastComponent, lexicalPath_append_component _ separator]
    by_cases backslash : (filename (core path)).head? = some '\\'
    · obtain ⟨valid, clean, less⟩ := backslash_name separator backslash
      refine iff_of_false (fun same => ?_) fun other => other backslash
      rw [lexicalPath_append_component _ clean, before.1, before.2] at same
      have sameNames := congrArg reduced same
      rw [reduced_display (normal.reduce clean), reduced_display (normal.reduce separator),
        reduce_name valid] at sameNames
      exact reduce_ne_of_shorter valid clean less sameNames
    · refine iff_of_true ?_ backslash
      rw [stripSeparators_of_head separator backslash, lexicalPath_append_component _ separator,
        before.1, before.2]

/-- The backslash at the start of a name is lost. -/
theorem backslash_lost :
    ¬ ∀ path : Text, '\x00' ∉ path →
      join [pathDirname path, pathBasename path] = normalize path := by
  intro always
  exact absurd (always "\\a".toList (by decide)) (by decide)

end Kode.Paths
