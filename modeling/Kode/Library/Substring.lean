/-
# Occurrences of a pattern

The first occurrence of a pattern in a list, as a search for a substring finds it, and
what is left of a list that is cut there. A pattern without a certain item occurs in a
list if and only if it occurs before or behind any place where that item stands.
-/

import Mathlib.Data.List.Infix
import Mathlib.Data.List.TakeWhile

namespace Kode.Library

universe u

variable {α : Type u} [DecidableEq α]

/-- The position of the first occurrence of a pattern. -/
def find (pattern : List α) : List α → Option ℕ
  | [] => if pattern = [] then some 0 else none
  | item :: text =>
      if pattern.isPrefixOf (item :: text) then some 0 else (find pattern text).map (· + 1)

/-- The position of the first occurrence at a position or behind it. -/
def findFrom (pattern text : List α) (position : ℕ) : Option ℕ :=
  (find pattern (text.drop position)).map (· + position)

/-- The position of the last occurrence of an item. -/
def findLast (item : α) (text : List α) : Option ℕ :=
  (find [item] text.reverse).map (text.length - 1 - ·)

/-- What stands before the first occurrence of a pattern, or everything. -/
def cutAt (pattern : List α) : List α → List α
  | [] => []
  | item :: text =>
      if pattern.isPrefixOf (item :: text) then [] else item :: cutAt pattern text

variable {pattern text : List α}

theorem find_eq_none_iff : find pattern text = none ↔ ¬ pattern <:+: text := by
  induction text with
  | nil => simp [find, List.infix_nil]
  | cons item text ih =>
      rw [find, List.infix_cons_iff]
      by_cases here : pattern <+: item :: text
      · simp [List.isPrefixOf_iff_prefix.mpr here, here]
      · have test : ¬ pattern.isPrefixOf (item :: text) = true :=
          fun found => here (List.isPrefixOf_iff_prefix.mp found)
        rw [if_neg test, Option.map_eq_none_iff, ih]
        simp [here]

/-- The first occurrence divides the list. -/
theorem find_eq_some {position : ℕ} (found : find pattern text = some position) :
    ∃ back, text = cutAt pattern text ++ pattern ++ back ∧
      (cutAt pattern text).length = position := by
  induction text generalizing position with
  | nil =>
      rw [find] at found
      split_ifs at found with empty
      obtain rfl := Option.some.inj found
      exact ⟨[], by simp [cutAt, empty], rfl⟩
  | cons item text ih =>
      rw [find] at found
      rw [cutAt]
      split_ifs at found ⊢ with here
      · obtain rfl := Option.some.inj found
        obtain ⟨back, split⟩ := List.isPrefixOf_iff_prefix.mp here
        exact ⟨back, by simp [split], rfl⟩
      · obtain ⟨earlier, later, rfl⟩ := Option.map_eq_some_iff.mp found
        obtain ⟨back, split, length⟩ := ih later
        refine ⟨back, ?_, by rw [List.length_cons, length]⟩
        rw [List.cons_append, List.cons_append, ← split]

/-- Searching from a position passes over what stands before the next occurrence. -/
theorem findFrom_eq_some {position index : ℕ} (some_item : pattern ≠ [])
    (found : findFrom pattern text position = some index) :
    ∃ back, text.drop index = pattern ++ back ∧ position ≤ index ∧ index < text.length ∧
      text.take index = text.take position ++ cutAt pattern (text.drop position) := by
  obtain ⟨distance, first, rfl⟩ := Option.map_eq_some_iff.mp found
  obtain ⟨back, split, rfl⟩ := find_eq_some first
  have remaining : text.drop ((cutAt pattern (text.drop position)).length + position) =
      pattern ++ back := by
    rw [Nat.add_comm, ← List.drop_drop]
    nth_rewrite 2 [split]
    rw [List.append_assoc, List.drop_left]
  refine ⟨back, remaining, Nat.le_add_left _ _, ?_, ?_⟩
  · have longer := congrArg List.length remaining
    have positive := List.length_pos_iff.mpr some_item
    rw [List.length_drop, List.length_append] at longer
    omega
  · rw [Nat.add_comm, List.take_add]
    nth_rewrite 2 [split]
    rw [List.append_assoc, List.take_left]

theorem find_singleton {item : α} {front : List α} (absent : item ∉ front) (back : List α) :
    find [item] (front ++ item :: back) = some front.length := by
  induction front with
  | nil => simp [find, List.isPrefixOf]
  | cons first front ih =>
      rw [List.mem_cons, not_or] at absent
      have here : ¬ [item].isPrefixOf (first :: (front ++ item :: back)) = true := by
        simpa [List.isPrefixOf] using absent.1
      rw [List.cons_append, find, if_neg here, ih absent.2]
      rfl

theorem findLast_eq {item : α} (front : List α) {back : List α} (absent : item ∉ back) :
    findLast item (front ++ item :: back) = some front.length := by
  have reversed : (front ++ item :: back).reverse = back.reverse ++ item :: front.reverse := by
    simp
  rw [findLast, reversed, find_singleton (by simpa using absent), Option.map_some]
  congr 1
  simp only [List.length_append, List.length_cons, List.length_reverse]
  omega

/-! ## Cutting -/

theorem prefix_cutAt (pattern text : List α) : cutAt pattern text <+: text := by
  induction text with
  | nil => exact List.prefix_rfl
  | cons item text ih =>
      rw [cutAt]
      split
      · exact List.nil_prefix
      · exact (List.prefix_cons_inj item).mpr ih

theorem cutAt_of_not_infix (absent : ¬ pattern <:+: text) : cutAt pattern text = text := by
  induction text with
  | nil => rfl
  | cons item text ih =>
      rw [List.infix_cons_iff, not_or] at absent
      have test : ¬ pattern.isPrefixOf (item :: text) = true :=
        fun found => absent.1 (List.isPrefixOf_iff_prefix.mp found)
      rw [cutAt, if_neg test, ih absent.2]

/-- No occurrence is left. -/
theorem not_infix_cutAt (some_item : pattern ≠ []) (text : List α) :
    ¬ pattern <:+: cutAt pattern text := by
  induction text with
  | nil => simpa [cutAt, List.infix_nil] using some_item
  | cons item text ih =>
      rw [cutAt]
      split_ifs with here
      · simpa [List.infix_nil] using some_item
      · rw [List.infix_cons_iff, not_or]
        refine ⟨fun found => here (List.isPrefixOf_iff_prefix.mpr (found.trans ?_)), ih⟩
        exact (List.prefix_cons_inj item).mpr (prefix_cutAt pattern text)

/-- Cutting at a single item is taking what comes before it. -/
theorem dropWhile_eq_drop_of_find {item : α} {position : ℕ}
    (found : find [item] text = some position) :
    text.dropWhile (· ≠ item) = text.drop position := by
  obtain ⟨back, split, rfl⟩ := find_eq_some found
  have absent : ∀ other ∈ cutAt [item] text, decide (other ≠ item) = true := by
    rintro other member
    refine decide_eq_true fun same => not_infix_cutAt (List.cons_ne_nil item []) text ?_
    exact (List.singleton_infix_iff item _).mpr (same ▸ member)
  have dropped : (cutAt [item] text ++ [item] ++ back).dropWhile (· ≠ item) = item :: back := by
    rw [List.append_assoc, List.dropWhile_append_of_pos absent]
    simp
  have remaining : (cutAt [item] text ++ [item] ++ back).drop (cutAt [item] text).length =
      item :: back := by
    rw [List.append_assoc, List.drop_left, List.singleton_append]
  rw [← split] at dropped remaining
  rw [dropped, remaining]

theorem dropWhile_eq_nil_of_find {item : α} (absent : find [item] text = none) :
    text.dropWhile (· ≠ item) = [] := by
  rw [find_eq_none_iff, List.singleton_infix_iff] at absent
  rw [List.dropWhile_eq_nil_iff]
  intro other member
  exact decide_eq_true fun same => absent (same ▸ member)

/-! ## Separators -/

omit [DecidableEq α] in
/-- A pattern without the separator does not reach over it. -/
theorem infix_append_cons_iff {item : α} {front back : List α} (free : item ∉ pattern) :
    pattern <:+: front ++ item :: back ↔ pattern <:+: front ∨ pattern <:+: back := by
  constructor
  · rintro ⟨before, behind, split⟩
    rw [List.append_assoc] at split
    rcases List.append_eq_append_iff.mp split with ⟨more, rfl, rest⟩ | ⟨more, rfl, rest⟩
    · -- the pattern starts inside the front
      rcases List.append_eq_append_iff.mp rest with ⟨part, rfl, last⟩ | ⟨part, rfl, last⟩
      · exact Or.inl ⟨before, part, List.append_assoc ..⟩
      · cases part with
        | nil => exact Or.inl ⟨before, [], by simp⟩
        | cons first part =>
            obtain ⟨rfl, -⟩ := List.cons.inj last
            exact absurd (by simp) free
    · cases more with
      | nil =>
          cases pattern with
          | nil => exact Or.inl (List.nil_infix)
          | cons first pattern =>
              obtain ⟨rfl, -⟩ := List.cons.inj rest
              exact absurd List.mem_cons_self free
      | cons first more =>
          obtain ⟨-, rfl⟩ := List.cons.inj rest
          exact Or.inr ⟨more, behind, by simp⟩
  · rintro (before | behind)
    · exact before.trans (List.prefix_append front _).isInfix
    · exact behind.trans ((List.suffix_cons item back).trans (List.suffix_append front _)).isInfix

/-- No piece contains the separator. -/
theorem not_mem_of_mem_splitOn {item : α} {piece : List α} (member : piece ∈ text.splitOn item) :
    item ∉ piece := by
  induction text generalizing piece with
  | nil =>
      rw [List.splitOn_nil, List.mem_singleton] at member
      simp [member]
  | cons first text ih =>
      rw [List.splitOn_cons_eq_if_modifyHead] at member
      split_ifs at member with separator
      · rcases List.mem_cons.mp member with rfl | later
        · exact List.not_mem_nil
        · exact ih later
      · cases split : text.splitOn item with
        | nil => exact absurd split (List.splitOn_ne_nil _ _)
        | cons front others =>
            rw [split, List.modifyHead_cons] at member
            rcases List.mem_cons.mp member with rfl | later
            · have other : item ≠ first := fun same => separator (by simp [same])
              have rest : item ∉ front := ih (by simp [split])
              simp [other, rest]
            · exact ih (by simp [split, later])

omit [DecidableEq α] in
theorem infix_intercalate_iff {item : α} {pieces : List (List α)} (some_item : pattern ≠ [])
    (free : item ∉ pattern) :
    pattern <:+: [item].intercalate pieces ↔ ∃ piece ∈ pieces, pattern <:+: piece := by
  induction pieces with
  | nil => simp [List.infix_nil, some_item]
  | cons piece pieces ih =>
      cases pieces with
      | nil => simp
      | cons next pieces =>
          rw [List.intercalate_cons_cons, List.append_assoc, List.singleton_append,
            infix_append_cons_iff free, ih]
          simp

/-! ## Quoted parts -/

/-- A list of plain items in which lists stand between quotes. -/
inductive Quoted (quote : α) (plain : α → Prop) : List (List α) → List α → Prop
  | nil : Quoted quote plain [] []
  | plain {item : α} {parts : List (List α)} {text : List α} (here : plain item)
      (later : Quoted quote plain parts text) : Quoted quote plain parts (item :: text)
  | quoted (part : List α) {parts : List (List α)} {text : List α}
      (later : Quoted quote plain parts text) :
      Quoted quote plain (part :: parts) (quote :: (part ++ quote :: text))

namespace Quoted

variable {quote : α} {plain : α → Prop} {parts : List (List α)}

omit [DecidableEq α] in
theorem append {others : List (List α)} {back : List α} (first : Quoted quote plain parts text)
    (second : Quoted quote plain others back) :
    Quoted quote plain (parts ++ others) (text ++ back) := by
  induction first with
  | nil => exact second
  | plain here later ih => exact .plain here ih
  | quoted part later ih =>
      rw [List.cons_append, List.cons_append, List.append_assoc, List.cons_append]
      exact ih.quoted part

omit [DecidableEq α] in
theorem of_plain (all : ∀ item ∈ text, plain item) : Quoted quote plain [] text := by
  induction text with
  | nil => exact .nil
  | cons item text ih =>
      exact .plain (all item List.mem_cons_self)
        (ih fun other member => all other (List.mem_cons_of_mem _ member))

omit [DecidableEq α] in
theorem infix_of_mem {part : List α} (quoting : Quoted quote plain parts text)
    (member : part ∈ parts) : part <:+: text := by
  induction quoting with
  | nil => cases member
  | plain here later ih => exact (ih member).trans (List.suffix_cons _ _).isInfix
  | @quoted first parts text later ih =>
      rcases List.mem_cons.mp member with rfl | other
      · exact ⟨[quote], quote :: text, by simp⟩
      · refine (ih other).trans (List.IsSuffix.isInfix ?_)
        exact (List.suffix_cons quote text).trans
          ((List.suffix_append first _).trans (List.suffix_cons quote _))

omit [DecidableEq α] in
/-- A pattern without the quote and with an item that is not plain occurs inside quotes,
or it begins in front of the list and ends before the first quote. -/
theorem infix_append {front : List α} {item : α} (quoting : Quoted quote plain parts text)
    (free : quote ∉ pattern) (member : item ∈ pattern) (other : ¬ plain item)
    (found : pattern <:+: front ++ text) :
    (∃ part ∈ parts, pattern <:+: part) ∨
      ∃ more, (∀ item ∈ more, plain item) ∧ pattern <:+: front ++ more := by
  induction quoting generalizing front with
  | nil => exact Or.inr ⟨[], by simp, found⟩
  | @plain first parts text here later ih =>
      rw [List.append_cons] at found
      rcases ih found with inside | ⟨more, all, before⟩
      · exact Or.inl inside
      · refine Or.inr ⟨first :: more, ?_, by rwa [List.append_cons]⟩
        exact List.forall_mem_cons.mpr ⟨here, all⟩
  | @quoted part parts text later ih =>
      rw [infix_append_cons_iff free, infix_append_cons_iff free] at found
      rcases found with before | here | behind
      · exact Or.inr ⟨[], by simp, by rwa [List.append_nil]⟩
      · exact Or.inl ⟨part, List.mem_cons_self, here⟩
      · have rest : pattern <:+: [] ++ text := behind
        rcases ih rest with ⟨last, inside, occurs⟩ | ⟨more, all, occurs⟩
        · exact Or.inl ⟨last, List.mem_cons_of_mem _ inside, occurs⟩
        · exact absurd (all item (occurs.subset member)) other

end Quoted

end Kode.Library
