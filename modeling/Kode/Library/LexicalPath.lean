/-
# Lexical locations and normal forms

A path leads from a base directory to a location, component by component: a name goes
down, `..` goes up and stays at the root, `.` and the empty component go nowhere. No file
system is looked at, so there are no symbolic links.

Taking up the components of a path on a stack leaves some `..` and then names. This stack
and whether the path is absolute decide where the path leads from every base. For a
relative path the converse is seen from a base that is deep enough and made of a name that
does not occur in the path.
-/

import Kode.Library.PosixPath
import Kode.Library.Substring
import Mathlib.Data.List.TakeWhile

namespace Kode.Library.PosixPath

/-! ## Directories -/

/-- A name in a directory. -/
structure IsName (component : Text) : Prop where
  nonempty : component ≠ []
  separator : '/' ∉ component
  dot : component ≠ ['.']
  dots : component ≠ ['.', '.']

instance (component : Text) : Decidable (IsName component) :=
  decidable_of_iff
    (component ≠ [] ∧ '/' ∉ component ∧ component ≠ ['.'] ∧ component ≠ ['.', '.'])
    ⟨fun ⟨nonempty, separator, dot, dots⟩ => ⟨nonempty, separator, dot, dots⟩,
      fun name => ⟨name.nonempty, name.separator, name.dot, name.dots⟩⟩

/-- A directory: the names on the way from the root, last one first. -/
@[ext]
structure Directory where
  names : List Text
  valid : ∀ name ∈ names, IsName name

namespace Directory

/-- The root directory. -/
def root : Directory := ⟨[], fun _ none => nomatch none⟩

/-- The directory above; the root is above itself. -/
def parent (directory : Directory) : Directory :=
  ⟨directory.names.tail, fun name member => directory.valid name (List.mem_of_mem_tail member)⟩

/-- An entry of a directory. -/
def child (directory : Directory) (name : Text) (valid : IsName name) : Directory :=
  ⟨name :: directory.names, fun _ member =>
    (List.mem_cons.mp member).elim (fun same => same ▸ valid) (directory.valid _)⟩

/-- Follow one component. -/
def enter (directory : Directory) (component : Text) : Directory :=
  if component = ['.', '.'] then directory.parent
  else if valid : IsName component then directory.child component valid
  else directory

theorem names_enter_dots (directory : Directory) :
    (directory.enter ['.', '.']).names = directory.names.tail := by
  rw [enter, if_pos rfl]
  rfl

theorem names_enter_name (directory : Directory) {name : Text} (valid : IsName name) :
    (directory.enter name).names = name :: directory.names := by
  rw [enter, if_neg valid.dots, dif_pos valid]
  rfl

theorem enter_dot (directory : Directory) : directory.enter ['.'] = directory := by
  rw [enter, if_neg (by decide), dif_neg (by decide)]

theorem enter_nil (directory : Directory) : directory.enter [] = directory := by
  rw [enter, if_neg (by decide), dif_neg (by decide)]

end Directory

/-- Where a path leads from a base directory. -/
def locate (base : Directory) (path : Text) : Directory :=
  (path.splitOn '/').foldl Directory.enter (if isAbsolute path then .root else base)

/-! ## The stack of components -/

/-- The names of a path under normalization after one more component. -/
def reduce (rooted : Bool) (names : List Text) (component : Text) : List Text :=
  if component = ['.', '.'] then
    match names with
    | [] => if rooted then [] else [component]
    | last :: earlier => if last = ['.', '.'] then component :: last :: earlier else earlier
  else if component = ['.'] ∨ component = [] then names
  else component :: names

theorem names_push (rooted : Bool) (normal : Normal) (component : Text) :
    (normal.push rooted component).names = reduce rooted normal.names component := by
  unfold Normal.push reduce
  split_ifs <;> cases normal.names <;> simp only <;> split_ifs <;> rfl

/-- The names of a path, last one first. -/
def reduced (path : Text) : List Text :=
  (path.splitOn '/').foldl (reduce (isAbsolute path)) []

theorem names_foldl_push (rooted : Bool) (components : List Text) (normal : Normal) :
    (components.foldl (Normal.push rooted) normal).names =
      components.foldl (reduce rooted) normal.names := by
  induction components generalizing normal with
  | nil => rfl
  | cons component components ih =>
      rw [List.foldl_cons, List.foldl_cons, ih, names_push]

/-- What a stack of components looks like: names behind some `..`, of which there are none
in an absolute path. -/
def IsReduced (rooted : Bool) (names : List Text) : Prop :=
  ∃ named climbs, names = named ++ List.replicate climbs ['.', '.'] ∧
    (∀ name ∈ named, IsName name) ∧ (rooted = true → climbs = 0)

section

variable {rooted : Bool} {names : List Text} {component path : Text}

theorem reduce_nil (rooted : Bool) (names : List Text) : reduce rooted names [] = names := rfl

theorem reduce_dot (rooted : Bool) (names : List Text) : reduce rooted names ['.'] = names := rfl

theorem reduce_name (valid : IsName component) :
    reduce rooted names component = component :: names := by
  unfold reduce
  rw [if_neg valid.dots, if_neg (not_or.mpr ⟨valid.dot, valid.nonempty⟩)]

/-- A component is ignored, goes up or is a name. -/
theorem component_cases (separator : '/' ∉ component) :
    component = [] ∨ component = ['.'] ∨ component = ['.', '.'] ∨ IsName component := by
  by_cases nonempty : component = []
  · exact Or.inl nonempty
  by_cases dot : component = ['.']
  · exact Or.inr (Or.inl dot)
  by_cases dots : component = ['.', '.']
  · exact Or.inr (Or.inr (Or.inl dots))
  · exact Or.inr (Or.inr (Or.inr ⟨nonempty, separator, dot, dots⟩))

theorem splitOn_separator (path : Text) :
    ('/' :: path).splitOn '/' = [] :: path.splitOn '/' := by
  rw [List.splitOn_cons_eq_if_modifyHead, if_pos (beq_self_eq_true _)]

theorem splitOn_char {char : Char} (other : char ≠ '/') (path : Text) :
    (char :: path).splitOn '/' = (path.splitOn '/').modifyHead (char :: ·) := by
  rw [List.splitOn_cons_eq_if_modifyHead, if_neg (by simpa using other)]

theorem reduce_dots_name (valid : IsName component) :
    reduce rooted (component :: names) ['.', '.'] = names :=
  if_neg valid.dots

theorem reduce_dots_dots :
    reduce rooted (['.', '.'] :: names) ['.', '.'] = ['.', '.'] :: ['.', '.'] :: names := rfl

theorem IsReduced.nil : IsReduced rooted [] := ⟨[], 0, rfl, by simp, fun _ => rfl⟩

theorem IsReduced.reduce (normal : IsReduced rooted names) (separator : '/' ∉ component) :
    IsReduced rooted (reduce rooted names component) := by
  obtain ⟨named, climbs, rfl, valid, absolute⟩ := normal
  rcases component_cases separator with rfl | rfl | rfl | name
  · exact ⟨named, climbs, rfl, valid, absolute⟩
  · exact ⟨named, climbs, rfl, valid, absolute⟩
  · cases named with
    | cons last named =>
        have lastValid := valid last (List.mem_cons_self ..)
        rw [List.cons_append, reduce_dots_name lastValid]
        exact ⟨named, climbs, rfl, fun name later => valid name (List.mem_cons_of_mem _ later),
          absolute⟩
    | nil =>
        cases climbs with
        | succ climbs =>
            have relative : rooted ≠ true := fun isRooted => nomatch absolute isRooted
            rw [List.nil_append, List.replicate_succ, reduce_dots_dots]
            exact ⟨[], climbs + 2, rfl, valid, fun isRooted => absurd isRooted relative⟩
        | zero =>
            cases rooted with
            | true => exact .nil
            | false => exact ⟨[], 1, rfl, valid, fun isRooted => nomatch isRooted⟩
  · rw [reduce_name name]
    exact ⟨component :: named, climbs, rfl, by simpa using ⟨name, valid⟩, absolute⟩

theorem IsReduced.foldl (normal : IsReduced rooted names) {components : List Text}
    (separators : ∀ component ∈ components, '/' ∉ component) :
    IsReduced rooted (components.foldl (PosixPath.reduce rooted) names) := by
  induction components generalizing names with
  | nil => exact normal
  | cons component components ih =>
      exact ih (normal.reduce (separators component (List.mem_cons_self ..)))
        fun other later => separators other (List.mem_cons_of_mem _ later)

theorem isReduced_reduced (path : Text) : IsReduced (isAbsolute path) (reduced path) :=
  IsReduced.nil.foldl fun _ => not_mem_of_mem_splitOn

/-- The last component of a stack is a name, or there are only `..`. -/
theorem IsReduced.cons (normal : IsReduced rooted (component :: names)) :
    IsReduced rooted names ∧ (IsName component ∨ component = ['.', '.'] ∧ rooted = false ∧
      ∃ climbs, names = List.replicate climbs ['.', '.']) := by
  obtain ⟨named, climbs, same, valid, absolute⟩ := normal
  cases named with
  | cons last named =>
      obtain ⟨rfl, rfl⟩ := List.cons.inj same
      exact ⟨⟨named, climbs, rfl, fun name later => valid name (List.mem_cons_of_mem _ later),
        absolute⟩, Or.inl (valid component (List.mem_cons_self ..))⟩
  | nil =>
      cases climbs with
      | zero => cases same
      | succ climbs =>
          obtain ⟨rfl, rfl⟩ := List.cons.inj same
          have relative : rooted ≠ true := fun isRooted => nomatch absolute isRooted
          exact ⟨⟨[], climbs, rfl, valid, fun isRooted => absurd isRooted relative⟩,
            Or.inr ⟨rfl, Bool.eq_false_iff.mpr relative, climbs, rfl⟩⟩

/-- Below a `..` there are only `..`. -/
theorem IsReduced.below_dots {front : List Text}
    (normal : IsReduced rooted (front ++ ['.', '.'] :: names)) :
    ∀ other ∈ names, other = ['.', '.'] := by
  induction front with
  | nil =>
      rcases normal.cons.2 with name | ⟨-, -, climbs, rfl⟩
      · exact absurd rfl name.dots
      · exact fun other member => List.eq_of_mem_replicate member
  | cons component front ih => exact ih normal.cons.1

theorem IsReduced.dots_not_mem (normal : IsReduced true names) : ['.', '.'] ∉ names := by
  obtain ⟨named, climbs, rfl, valid, absolute⟩ := normal
  rw [absolute rfl, List.replicate_zero, List.append_nil]
  exact fun member => (valid _ member).dots rfl

/-- Taking up the components of a stack gives the stack. -/
theorem IsReduced.foldl_reverse (normal : IsReduced rooted names) :
    names.reverse.foldl (PosixPath.reduce rooted) [] = names := by
  induction names with
  | nil => rfl
  | cons component names ih =>
      obtain ⟨earlier, last⟩ := normal.cons
      rw [List.reverse_cons, List.foldl_append, ih earlier, List.foldl_cons, List.foldl_nil]
      rcases last with name | ⟨rfl, rfl, climbs, rfl⟩
      · exact reduce_name name
      · cases climbs with
        | zero => rfl
        | succ climbs => exact reduce_dots_dots

/-- The components of a stack have no separators and are not empty. -/
theorem IsReduced.mem (normal : IsReduced rooted names) (member : component ∈ names) :
    component ≠ [] ∧ component ≠ ['.'] ∧ '/' ∉ component := by
  obtain ⟨named, climbs, rfl, valid, -⟩ := normal
  rcases List.mem_append.mp member with name | dots
  · have isName := valid component name
    exact ⟨isName.nonempty, isName.dot, isName.separator⟩
  · rw [List.eq_of_mem_replicate dots]
    decide

theorem IsReduced.clean (normal : IsReduced rooted names) :
    ∀ component ∈ names.reverse, component ≠ [] ∧ '/' ∉ component := by
  intro component member
  have inside := normal.mem (List.mem_reverse.mp member)
  exact ⟨inside.1, inside.2.2⟩

/-! ## The text of a normal form -/

/-- The text of a stack. -/
def display (rooted : Bool) (names : List Text) : Text :=
  match names with
  | [] => if rooted then ['/'] else ['.']
  | last :: earlier =>
      (if rooted then ['/'] else []) ++ ['/'].intercalate (last :: earlier).reverse

/-- A text that joins components begins with the first of them. -/
theorem intercalate_eq_append (component : Text) (components : List Text) :
    ∃ rest, ['/'].intercalate (component :: components) = component ++ rest := by
  cases components with
  | nil => exact ⟨[], by simp⟩
  | cons next components =>
      exact ⟨_, List.intercalate_cons_cons.trans (List.append_assoc ..)⟩

theorem intercalate_ne_nil {components : List Text} (some_component : components ≠ [])
    (clean : ∀ component ∈ components, component ≠ [] ∧ '/' ∉ component) :
    ['/'].intercalate components ≠ [] := by
  cases components with
  | nil => exact absurd rfl some_component
  | cons component components =>
      obtain ⟨behind, same⟩ := intercalate_eq_append component components
      rw [same]
      exact List.append_ne_nil_of_left_ne_nil (clean component (List.mem_cons_self ..)).1 _

theorem head?_intercalate {components : List Text} (some_component : components ≠ [])
    (clean : ∀ component ∈ components, component ≠ [] ∧ '/' ∉ component) (rest : Text) :
    (['/'].intercalate components ++ rest).head? ≠ some '/' := by
  cases components with
  | nil => exact absurd rfl some_component
  | cons component components =>
      obtain ⟨behind, same⟩ := intercalate_eq_append component components
      obtain ⟨nonempty, separator⟩ := clean component (List.mem_cons_self ..)
      rw [same]
      cases component with
      | nil => exact absurd rfl nonempty
      | cons char component =>
          intro first
          exact separator (by simp [Option.some.inj first])

theorem display_ne_nil (normal : IsReduced rooted names) : display rooted names ≠ [] := by
  cases names with
  | nil => cases rooted <;> exact List.cons_ne_nil _ _
  | cons last earlier =>
      exact List.append_ne_nil_of_right_ne_nil _ (intercalate_ne_nil (by simp) normal.clean)

theorem isAbsolute_display (normal : IsReduced rooted names) :
    isAbsolute (display rooted names) = rooted := by
  cases names with
  | nil => cases rooted <;> rfl
  | cons last earlier =>
      cases rooted with
      | true => rfl
      | false =>
          have first := head?_intercalate (by simp) normal.clean []
          rw [List.append_nil] at first
          exact beq_eq_false_iff_ne.mpr first

/-- A function that ignores `.` and the empty component sees the same in the text of a
stack as in the stack. -/
theorem foldl_splitOn_display {α : Type*} {f : α → Text → α} (ignoresNil : ∀ a, f a [] = a)
    (ignoresDot : ∀ a, f a ['.'] = a) (normal : IsReduced rooted names) (start : α) :
    ((display rooted names).splitOn '/').foldl f start = names.reverse.foldl f start := by
  cases names with
  | nil =>
      cases rooted with
      | true => exact (ignoresNil _).trans (ignoresNil _)
      | false => exact ignoresDot _
  | cons last earlier =>
      have separators : ∀ component ∈ (last :: earlier).reverse, '/' ∉ component :=
        fun component member => (normal.clean component member).2
      have split := List.splitOn_intercalate '/' separators (by simp)
      cases rooted with
      | false => exact congrArg (List.foldl f start) split
      | true =>
          show (('/' :: ['/'].intercalate (last :: earlier).reverse).splitOn '/').foldl f start = _
          rw [splitOn_separator, split, List.foldl_cons, ignoresNil]

/-- The text of a stack has this stack. -/
theorem reduced_display (normal : IsReduced rooted names) :
    reduced (display rooted names) = names := by
  rw [reduced, isAbsolute_display normal,
    foldl_splitOn_display (reduce_nil rooted) (reduce_dot rooted) normal, normal.foldl_reverse]

/-! ## Locations -/

/-- Taking up a component first and following the stack then leads to the same place. -/
theorem foldl_enter_reduce (normal : IsReduced rooted names) (separator : '/' ∉ component)
    {start : Directory} (atRoot : rooted = true → start = .root) :
    (reduce rooted names component).reverse.foldl Directory.enter start =
      (names.reverse.foldl Directory.enter start).enter component := by
  rcases component_cases separator with rfl | rfl | rfl | name
  · exact (Directory.enter_nil _).symm
  · exact (Directory.enter_dot _).symm
  · cases names with
    | nil =>
        cases rooted with
        | true =>
            rw [atRoot rfl]
            rfl
        | false => rfl
    | cons last earlier =>
        rcases normal.cons.2 with lastName | ⟨rfl, rfl, -⟩
        · rw [reduce_dots_name lastName, List.reverse_cons, List.foldl_append]
          refine Directory.ext ?_
          rw [Directory.names_enter_dots, List.foldl_cons, List.foldl_nil,
            Directory.names_enter_name _ lastName]
          rfl
        · rw [reduce_dots_dots, List.reverse_cons, List.foldl_append]
          rfl
  · rw [reduce_name name, List.reverse_cons, List.foldl_append]
    rfl

theorem foldl_enter_foldl_reduce {components : List Text}
    (separators : ∀ component ∈ components, '/' ∉ component) {start : Directory}
    (atRoot : rooted = true → start = .root) (normal : IsReduced rooted names) :
    (components.foldl (reduce rooted) names).reverse.foldl Directory.enter start =
      components.foldl Directory.enter (names.reverse.foldl Directory.enter start) := by
  induction components generalizing names with
  | nil => rfl
  | cons component components ih =>
      have here := separators component (List.mem_cons_self ..)
      rw [List.foldl_cons, List.foldl_cons, ← foldl_enter_reduce normal here atRoot]
      exact ih (fun other later => separators other (List.mem_cons_of_mem _ later))
        (normal.reduce here)

/-- A path leads where its stack leads. -/
theorem locate_eq (base : Directory) (path : Text) :
    locate base path =
      (reduced path).reverse.foldl Directory.enter (if isAbsolute path then .root else base) := by
  have atRoot : isAbsolute path = true →
      (if isAbsolute path then Directory.root else base) = .root := fun absolute =>
    if_pos absolute
  exact (foldl_enter_foldl_reduce (fun _ => not_mem_of_mem_splitOn) atRoot .nil).symm

theorem locate_congr {other : Text} (absolute : isAbsolute path = isAbsolute other)
    (same : reduced path = reduced other) (base : Directory) :
    locate base path = locate base other := by
  rw [locate_eq, locate_eq, absolute, same]

/-- Names go down from where the `..` have gone up. -/
theorem names_foldl_enter {named : List Text} (valid : ∀ name ∈ named, IsName name)
    (climbs : ℕ) (start : Directory) :
    ((named ++ List.replicate climbs ['.', '.']).reverse.foldl Directory.enter start).names =
      named ++ start.names.drop climbs := by
  induction named with
  | nil =>
      induction climbs with
      | zero => rfl
      | succ climbs ih =>
          rw [List.nil_append, List.nil_append] at ih ⊢
          rw [List.replicate_succ, List.reverse_cons, List.foldl_append, List.foldl_cons,
            List.foldl_nil, Directory.names_enter_dots, ih, List.tail_drop]
  | cons name named ih =>
      have here := valid name (List.mem_cons_self ..)
      have later := ih fun other member => valid other (List.mem_cons_of_mem _ member)
      rw [List.cons_append, List.reverse_cons, List.foldl_append, List.foldl_cons, List.foldl_nil,
        Directory.names_enter_name _ here, later, List.cons_append]

/-- There is a name that is not among given ones. -/
theorem exists_fresh_name (texts : List Text) : ∃ name, IsName name ∧ name ∉ texts := by
  refine ⟨List.replicate (texts.flatten.length + 1) 'a', ⟨?_, ?_, ?_, ?_⟩, ?_⟩
  · simp
  · simp [List.mem_replicate]
  · simp [List.replicate_succ]
  · simp [List.replicate_succ]
  · intro member
    have shorter := (List.sublist_flatten_of_mem member).length_le
    rw [List.length_replicate] at shorter
    omega

/-- From a deep base of a name that occurs in neither, two relative stacks lead to the same
place only if they are the same. -/
theorem IsReduced.eq_of_foldl_enter {others : List Text} (normal : IsReduced rooted names)
    (otherNormal : IsReduced rooted others)
    (same : ∀ start, (rooted = true → start = .root) →
      names.reverse.foldl Directory.enter start = others.reverse.foldl Directory.enter start) :
    names = others := by
  obtain ⟨named, climbs, rfl, valid, absolute⟩ := normal
  obtain ⟨otherNamed, otherClimbs, rfl, otherValid, otherAbsolute⟩ := otherNormal
  cases rooted with
  | true =>
      have atRoot := congrArg Directory.names (same .root fun _ => rfl)
      rw [names_foldl_enter valid, names_foldl_enter otherValid, absolute rfl,
        otherAbsolute rfl] at atRoot
      rw [absolute rfl, otherAbsolute rfl]
      exact atRoot
  | false =>
      obtain ⟨fresh, freshName, notIn⟩ := exists_fresh_name (named ++ otherNamed)
      let deep : Directory := ⟨List.replicate (climbs + otherClimbs) fresh, fun name member =>
        List.eq_of_mem_replicate member ▸ freshName⟩
      have fromDeep := congrArg Directory.names (same deep fun isRooted => nomatch isRooted)
      rw [names_foldl_enter valid, names_foldl_enter otherValid] at fromDeep
      have before : ∀ {list : List Text} {count : ℕ}, (∀ name ∈ list, name ∈ named ++ otherNamed) →
          (list ++ List.replicate count fresh).takeWhile (· ≠ fresh) = list := by
        intro list count subset
        have other : ∀ name ∈ list, decide (name ≠ fresh) = true := fun name member =>
          decide_eq_true fun isFresh => notIn (isFresh ▸ subset name member)
        rw [List.takeWhile_append_of_pos other]
        cases count <;> simp [List.replicate_succ]
      have down : named ++ List.replicate otherClimbs fresh =
          otherNamed ++ List.replicate climbs fresh := by
        simpa [deep] using fromDeep
      have sameNamed := congrArg (List.takeWhile (· ≠ fresh)) down
      rw [before fun name member => List.mem_append_left _ member,
        before fun name member => List.mem_append_right _ member] at sameNamed
      have lengths := congrArg List.length down
      rw [sameNamed, List.length_append, List.length_append, List.length_replicate,
        List.length_replicate] at lengths
      rw [sameNamed, Nat.add_left_cancel lengths]

/-- Two paths lead to the same place from every base exactly if they have the same stack,
provided both are absolute or both relative. -/
theorem reduced_eq_iff {other : Text} (absolute : isAbsolute path = isAbsolute other) :
    reduced path = reduced other ↔ ∀ base, locate base path = locate base other := by
  constructor
  · exact locate_congr absolute
  · intro same
    have otherNormal := isReduced_reduced other
    rw [← absolute] at otherNormal
    refine (isReduced_reduced path).eq_of_foldl_enter otherNormal fun start atRoot => ?_
    have here := same start
    rw [locate_eq, locate_eq, ← absolute] at here
    by_cases rooted : isAbsolute path = true
    · rw [if_pos rooted] at here
      rw [atRoot rooted]
      exact here
    · rw [if_neg rooted] at here
      exact here

/-! ## Generic strings -/

theorem genericString_cons {char : Char} {rest : Text}
    (single : ¬ (char = '/' ∧ rest.head? = some '/')) :
    genericString (char :: rest) = char :: genericString rest := by
  rw [genericString]
  rintro behind rfl rfl
  exact single ⟨rfl, rfl⟩

theorem genericString_append {name : Text} (separator : '/' ∉ name) (rest : Text) :
    genericString (name ++ rest) = name ++ genericString rest := by
  induction name with
  | nil => rfl
  | cons char name ih =>
      have other : char ≠ '/' := fun first => separator (by simp [first])
      rw [List.cons_append, genericString_cons fun both => other both.1,
        ih fun later => separator (List.mem_cons_of_mem _ later), List.cons_append]

theorem genericString_of_not_mem {name : Text} (separator : '/' ∉ name) :
    genericString name = name := by
  have whole := genericString_append separator []
  rwa [List.append_nil, genericString, List.append_nil] at whole

/-- Components that are not empty are joined by single separators already. -/
theorem genericString_intercalate {components : List Text} (some_component : components ≠ [])
    (clean : ∀ component ∈ components, component ≠ [] ∧ '/' ∉ component) {rest : Text}
    (ends : rest = [] ∨ rest = ['/']) :
    genericString (['/'].intercalate components ++ rest) =
      ['/'].intercalate components ++ rest := by
  induction components with
  | nil => exact absurd rfl some_component
  | cons component components ih =>
      obtain ⟨-, separator⟩ := clean component (List.mem_cons_self ..)
      cases components with
      | nil =>
          rw [List.intercalate_singleton, genericString_append separator]
          rcases ends with rfl | rfl <;> rfl
      | cons next components =>
          have cleanLater : ∀ other ∈ next :: components, other ≠ [] ∧ '/' ∉ other :=
            fun other member => clean other (List.mem_cons_of_mem _ member)
          have later := ih (by simp) cleanLater
          have first := head?_intercalate (by simp) cleanLater rest
          rw [List.intercalate_cons_cons, List.append_assoc, List.append_assoc,
            genericString_append separator, List.singleton_append,
            genericString_cons fun both => first both.2, later]

/-- Only empty components are lost. -/
theorem splitOn_genericString (path : Text) :
    ∃ first later laterGeneric, path.splitOn '/' = first :: later ∧
      (genericString path).splitOn '/' = first :: laterGeneric ∧
        laterGeneric.filter (· ≠ []) = later.filter (· ≠ []) := by
  fun_induction genericString path with
  | case1 rest ih =>
      obtain ⟨first, later, laterGeneric, split, splitGeneric, same⟩ := ih
      rw [splitOn_separator] at split
      obtain ⟨rfl, rfl⟩ := List.cons.inj split
      refine ⟨[], [] :: rest.splitOn '/', laterGeneric, ?_, splitGeneric, ?_⟩
      · rw [splitOn_separator, splitOn_separator]
      · rw [same]
        rfl
  | case2 char rest _ ih =>
      obtain ⟨first, later, laterGeneric, split, splitGeneric, same⟩ := ih
      by_cases separator : char = '/'
      · subst separator
        refine ⟨[], first :: later, first :: laterGeneric, ?_, ?_, ?_⟩
        · rw [splitOn_separator, split]
        · rw [splitOn_separator, splitGeneric]
        · rw [List.filter_cons, List.filter_cons, same]
      · refine ⟨char :: first, later, laterGeneric, ?_, ?_, same⟩
        · rw [splitOn_char separator, split]
          rfl
        · rw [splitOn_char separator, splitGeneric]
          rfl
  | case3 => exact ⟨[], [], [], rfl, rfl, rfl⟩

theorem foldl_filter_nil {α : Type*} {f : α → Text → α} (ignoresNil : ∀ a, f a [] = a)
    (components : List Text) (start : α) :
    (components.filter (· ≠ [])).foldl f start = components.foldl f start := by
  induction components generalizing start with
  | nil => rfl
  | cons component components ih =>
      by_cases empty : component = []
      · subst empty
        rw [List.filter_cons_of_neg (by simp), ih, List.foldl_cons, ignoresNil]
      · rw [List.filter_cons_of_pos (by simpa using empty), List.foldl_cons, List.foldl_cons, ih]

theorem genericString_ne_nil (nonempty : path ≠ []) : genericString path ≠ [] := by
  fun_induction genericString path with
  | case1 rest ih => exact ih (List.cons_ne_nil _ _)
  | case2 char rest _ ih => exact List.cons_ne_nil _ _
  | case3 => exact nonempty

theorem isAbsolute_genericString (path : Text) :
    isAbsolute (genericString path) = isAbsolute path := by
  fun_induction genericString path with
  | case1 rest ih => exact ih
  | case2 char rest _ ih => rfl
  | case3 => rfl

theorem reduced_genericString (path : Text) : reduced (genericString path) = reduced path := by
  obtain ⟨first, later, laterGeneric, split, splitGeneric, same⟩ := splitOn_genericString path
  have ignoresNil := reduce_nil (isAbsolute path)
  rw [reduced, reduced, isAbsolute_genericString, split, splitGeneric, List.foldl_cons,
    List.foldl_cons, ← foldl_filter_nil ignoresNil, same, foldl_filter_nil ignoresNil]


/-! ## Joining -/

theorem isAbsolute_append {left right : Text} (relative : isAbsolute right = false) :
    isAbsolute (append left right) = isAbsolute left := by
  rw [append, if_neg (Bool.eq_false_iff.mp relative)]
  cases left with
  | nil =>
      rw [if_pos (Or.inl rfl)]
      exact relative
  | cons char left => split_ifs <;> rfl

/-- A function that ignores the empty component sees the components of the left side and
then those of the right one. -/
theorem foldl_splitOn_append {α : Type*} {f : α → Text → α} (ignoresNil : ∀ a, f a [] = a)
    {left right : Text} (relative : isAbsolute right = false) (start : α) :
    ((append left right).splitOn '/').foldl f start =
      (right.splitOn '/').foldl f ((left.splitOn '/').foldl f start) := by
  rw [append, if_neg (Bool.eq_false_iff.mp relative)]
  by_cases ended : left = [] ∨ left.getLast? = some '/'
  · rw [if_pos ended]
    rcases ended with rfl | last
    · exact congrArg (fun a => List.foldl f a _) (ignoresNil start).symm
    · obtain ⟨front, rfl⟩ := List.getLast?_eq_some_iff.mp last
      rw [List.append_assoc, List.singleton_append, List.splitOn_append_cons_self,
        List.splitOn_append_cons_self, List.foldl_append, List.foldl_append]
      exact congrArg (fun a => List.foldl f a _) (ignoresNil _).symm
  · rw [if_neg ended, List.splitOn_append_cons_self, List.foldl_append]

theorem reduced_append {left right : Text} (relative : isAbsolute right = false) :
    reduced (append left right) =
      (right.splitOn '/').foldl (reduce (isAbsolute left)) (reduced left) := by
  rw [reduced, isAbsolute_append relative, foldl_splitOn_append (reduce_nil _) relative]
  rfl

end

end Kode.Library.PosixPath
