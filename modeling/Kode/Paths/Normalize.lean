/-
# `path.normalize`

`lexically_normal` keeps a separator at the end of a path that ends in one, in `.` or in
`..`. `LexicalPath` trims it, and the result is the text of the stack of components alone:
one text for each lexical location.
-/

import Kode.Library.LexicalPath
import Kode.Paths.Path

namespace Kode.Paths

open Kode.Library
open Kode.Library.PosixPath

variable {path : Text}

/-! ## Trimming -/

theorem trimEnd_append (more : Text) {position : ℕ} (inside : position ≤ path.length) :
    trimEnd (path ++ more) position = trimEnd path position := by
  fun_induction trimEnd path position with
  | case1 => rfl
  | case2 => rfl
  | case3 position separator ih =>
      rw [trimEnd, List.getElem?_append_left (by omega), if_pos separator]
      exact ih (by omega)
  | case4 position other =>
      rw [trimEnd, List.getElem?_append_left (by omega), if_neg other]

theorem trimEnd_le (path : Text) (position : ℕ) : trimEnd path position ≤ position := by
  fun_induction trimEnd path position with
  | case1 => exact Nat.le_refl _
  | case2 => exact Nat.le_refl _
  | case3 position separator ih => omega
  | case4 position other => exact Nat.le_refl _

/-- A separator at the end is trimmed. -/
theorem trimTrailingSeparators_append (nonempty : path ≠ []) :
    trimTrailingSeparators (path ++ ['/']) = trimTrailingSeparators path := by
  obtain ⟨last, length⟩ : ∃ last, path.length = last + 1 :=
    ⟨path.length - 1, by have := List.length_pos_of_ne_nil nonempty; omega⟩
  have final : (path ++ ['/'])[last + 1]? = some '/' := by
    rw [← length, List.getElem?_concat_length]
  have step : trimEnd (path ++ ['/']) (path ++ ['/']).length = trimEnd path path.length := by
    rw [List.length_append, List.length_singleton, length, trimEnd, if_pos final, ← length,
      trimEnd_append _ (Nat.le_refl _)]
  rw [trimTrailingSeparators, step, List.take_append_of_le_length (trimEnd_le _ _)]
  rfl

/-- Nothing is trimmed from another end, nor from the root. -/
theorem trimTrailingSeparators_of_last
    (kept : path.getLast? ≠ some '/' ∨ path.length ≤ 1) :
    trimTrailingSeparators path = path := by
  have whole : trimEnd path path.length = path.length := by
    cases length : path.length with
    | zero => rfl
    | succ last =>
        cases last with
        | zero => rfl
        | succ last =>
            have other : ¬ path[last + 1]? = some '/' := by
              have final := List.getLast?_eq_getElem? (l := path)
              rw [length] at final kept
              rw [← show last + 1 + 1 - 1 = last + 1 from rfl, ← final]
              exact kept.resolve_right (by omega)
            rw [trimEnd, if_neg other]
  rw [trimTrailingSeparators, whole, List.take_length]

/-! ## The result is the text of the stack -/

section

variable {rooted : Bool} {names : List Text}

theorem getLast?_intercalate {components : List Text} (some_component : components ≠ [])
    (clean : ∀ component ∈ components, component ≠ [] ∧ '/' ∉ component) (front : Text) :
    (front ++ ['/'].intercalate components).getLast? ≠ some '/' := by
  induction components generalizing front with
  | nil => exact absurd rfl some_component
  | cons component components ih =>
      cases components with
      | nil =>
          obtain ⟨nonempty, separator⟩ := clean component (List.mem_cons_self ..)
          rw [List.intercalate_singleton, List.getLast?_append_of_ne_nil _ nonempty]
          exact fun last => separator (List.mem_of_getLast? last)
      | cons next components =>
          rw [List.intercalate_cons_cons, ← List.append_assoc]
          exact ih (by simp) (fun other member => clean other (List.mem_cons_of_mem _ member)) _

/-- `lexically_normal` adds at most a separator to the text of the stack. -/
theorem render_eq (rooted : Bool) (normal : Normal) :
    ∃ rest, normal.render rooted = display rooted normal.names ++ rest ∧
      (rest = [] ∨ rest = ['/'] ∧ normal.names ≠ []) := by
  unfold Normal.render display
  cases normal.names with
  | nil =>
      refine ⟨[], ?_, Or.inl rfl⟩
      rw [List.append_nil]
      cases rooted <;> rfl
  | cons last earlier =>
      refine ⟨_, rfl, ?_⟩
      split_ifs
      · exact Or.inr ⟨rfl, by simp⟩
      · exact Or.inl rfl

/-- The separator is trimmed again. -/
theorem trimTrailingSeparators_display (normal : IsReduced rooted names) {rest : Text}
    (ends : rest = [] ∨ rest = ['/'] ∧ names ≠ []) :
    trimTrailingSeparators (genericString (display rooted names ++ rest)) =
      display rooted names := by
  cases names with
  | nil =>
      obtain rfl := ends.resolve_right fun both => both.2 rfl
      cases rooted <;> rfl
  | cons last earlier =>
      have clean := normal.clean
      have some_component : (last :: earlier).reverse ≠ [] := by simp
      have slash : rest = [] ∨ rest = ['/'] := ends.imp_right And.left
      have generic : genericString (display rooted (last :: earlier) ++ rest) =
          display rooted (last :: earlier) ++ rest := by
        have joined := genericString_intercalate some_component clean slash
        cases rooted with
        | false => exact joined
        | true =>
            have first := head?_intercalate some_component clean rest
            show genericString ('/' :: (['/'].intercalate (last :: earlier).reverse ++ rest)) = _
            rw [genericString_cons fun both => first both.2, joined]
            rfl
      have trimmed : trimTrailingSeparators (display rooted (last :: earlier)) =
          display rooted (last :: earlier) :=
        trimTrailingSeparators_of_last
          (Or.inl (getLast?_intercalate some_component clean (if rooted then ['/'] else [])))
      rw [generic]
      rcases slash with rfl | rfl
      · rw [List.append_nil, trimmed]
      · rw [trimTrailingSeparators_append (display_ne_nil normal), trimmed]

/-- `LexicalPath` is the text of the stack of components. -/
theorem lexicalPath_eq (path : Text) :
    lexicalPath path = display (isAbsolute path) (reduced path) := by
  have normal := isReduced_reduced path
  unfold lexicalPath lexicallyNormal
  by_cases empty : path = []
  · subst empty
    rfl
  · rw [if_neg empty]
    have names : ((path.splitOn '/').foldl (Normal.push (isAbsolute path)) ⟨[], false⟩).names =
        reduced path := names_foldl_push ..
    obtain ⟨rest, render, ends⟩ := render_eq (isAbsolute path)
      ((path.splitOn '/').foldl (Normal.push (isAbsolute path)) ⟨[], false⟩)
    rw [names] at render ends
    rw [render]
    dsimp only
    rw [trimTrailingSeparators_display normal ends, if_neg (display_ne_nil normal)]

end

/-! ## Normal forms -/

/-- The components of a path behind its root. -/
def components (path : Text) : List Text :=
  let behind := if isAbsolute path then path.tail else path
  if behind = [] then [] else behind.splitOn '/'

/-- A lexical normal form. -/
structure IsNormalForm (path : Text) : Prop where
  nonempty : path ≠ []
  names : path = ['.'] ∨ ∀ component ∈ components path, component ≠ [] ∧ component ≠ ['.']
  climbs_first : ∀ front back, components path = front ++ ['.', '.'] :: back →
    ∀ component ∈ front, component = ['.', '.']
  rooted : isAbsolute path = true → ['.', '.'] ∉ components path
  trailing : path.getLast? = some '/' → path = ['/']

theorem components_display {rooted : Bool} {last : Text} {earlier : List Text}
    (normal : IsReduced rooted (last :: earlier)) :
    components (display rooted (last :: earlier)) = (last :: earlier).reverse := by
  have behind : (if isAbsolute (display rooted (last :: earlier)) then
      (display rooted (last :: earlier)).tail else display rooted (last :: earlier)) =
        ['/'].intercalate (last :: earlier).reverse := by
    rw [isAbsolute_display normal]
    cases rooted <;> rfl
  have nonempty : ['/'].intercalate (last :: earlier).reverse ≠ [] :=
    intercalate_ne_nil (by simp) normal.clean
  have separators : ∀ component ∈ (last :: earlier).reverse, '/' ∉ component :=
    fun component member => (normal.clean component member).2
  rw [components, behind, if_neg nonempty, List.splitOn_intercalate '/' separators (by simp)]

theorem isNormalForm_root : IsNormalForm ['/'] where
  nonempty := by decide
  names := Or.inr (by decide)
  climbs_first := by
    intro front back split
    simp [components, isAbsolute] at split
  rooted := by decide
  trailing _ := rfl

theorem isNormalForm_dot : IsNormalForm ['.'] where
  nonempty := by decide
  names := Or.inl rfl
  climbs_first := by
    intro front back split
    have member : ['.', '.'] ∈ components ['.'] := by simp [split]
    exact absurd member (by decide)
  rooted := by decide
  trailing := by decide

theorem isNormalForm_display {rooted : Bool} {names : List Text}
    (normal : IsReduced rooted names) : IsNormalForm (display rooted names) := by
  cases names with
  | nil =>
      cases rooted with
      | true => exact isNormalForm_root
      | false => exact isNormalForm_dot
  | cons last earlier =>
      refine ⟨display_ne_nil normal, Or.inr ?_, ?_, ?_, ?_⟩
      · intro component member
        rw [components_display normal] at member
        have inside := normal.mem (List.mem_reverse.mp member)
        exact ⟨inside.1, inside.2.1⟩
      · intro front back split component member
        rw [components_display normal, List.reverse_eq_iff, List.reverse_append,
          List.reverse_cons, List.append_assoc, List.singleton_append] at split
        rw [split] at normal
        exact normal.below_dots component (List.mem_reverse.mpr member)
      · intro absolute member
        rw [isAbsolute_display normal] at absolute
        subst absolute
        rw [components_display normal] at member
        exact normal.dots_not_mem (List.mem_reverse.mp member)
      · intro separator
        exact absurd separator (getLast?_intercalate (by simp) normal.clean _)

theorem isAbsolute_lexicalPath (path : Text) :
    isAbsolute (lexicalPath path) = isAbsolute path := by
  rw [lexicalPath_eq, isAbsolute_display (isReduced_reduced path)]

theorem reduced_lexicalPath (path : Text) : reduced (lexicalPath path) = reduced path := by
  rw [lexicalPath_eq, reduced_display (isReduced_reduced path)]

/-- Two results are the same exactly if the stacks are, and the paths are both absolute or
both relative. -/
theorem lexicalPath_eq_iff {other : Text} :
    lexicalPath path = lexicalPath other ↔
      isAbsolute path = isAbsolute other ∧ reduced path = reduced other := by
  constructor
  · intro same
    rw [← isAbsolute_lexicalPath path, ← reduced_lexicalPath path, same, isAbsolute_lexicalPath,
      reduced_lexicalPath]
    exact ⟨rfl, rfl⟩
  · rintro ⟨absolute, same⟩
    rw [lexicalPath_eq, lexicalPath_eq, absolute, same]

theorem lexicalPath_lexicalPath (path : Text) :
    lexicalPath (lexicalPath path) = lexicalPath path :=
  lexicalPath_eq_iff.mpr ⟨isAbsolute_lexicalPath path, reduced_lexicalPath path⟩

theorem isNormalForm_lexicalPath (path : Text) : IsNormalForm (lexicalPath path) := by
  rw [lexicalPath_eq]
  exact isNormalForm_display (isReduced_reduced path)

/-- `path.normalize` computes the lexical normal form: one text for each location, and for
absolute and relative paths apart. -/
theorem lexicalPath_normal_form (path : Text) :
    IsNormalForm (lexicalPath path) ∧
      isAbsolute (lexicalPath path) = isAbsolute path ∧
      (∀ base, locate base (lexicalPath path) = locate base path) ∧
      lexicalPath (lexicalPath path) = lexicalPath path ∧
      ∀ other, lexicalPath path = lexicalPath other ↔
        isAbsolute path = isAbsolute other ∧ ∀ base, locate base path = locate base other := by
  refine ⟨isNormalForm_lexicalPath path, isAbsolute_lexicalPath path,
    locate_congr (isAbsolute_lexicalPath path) (reduced_lexicalPath path),
    lexicalPath_lexicalPath path, fun other => ?_⟩
  rw [lexicalPath_eq_iff]
  exact and_congr_right fun absolute => reduced_eq_iff absolute

end Kode.Paths
