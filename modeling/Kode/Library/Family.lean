/-
# Counting over a finite family

A system of finitely many parties is a function on a finite index type, and a
step changes one member. Two facts about sums of natural numbers are enough to
follow how often something occurs in such a family: what the sum becomes when one
member changes, and what a sum of one says about the members.
-/

import Mathlib.Algebra.BigOperators.Group.Finset.Piecewise
import Mathlib.Algebra.GroupWithZero.Nat
import Mathlib.Algebra.Order.BigOperators.Group.Finset
import Mathlib.Data.Fintype.BigOperators

namespace Kode.Library

universe u v

variable {ι : Type u} [Fintype ι] [DecidableEq ι] {α : Type v}

/-- Changing one member exchanges its weight in the sum. -/
theorem sum_update_add (weight : α → ℕ) (family : ι → α) (index : ι) (value : α) :
    (∑ i, weight (Function.update family index value i)) + weight (family index) =
      (∑ i, weight (family i)) + weight value := by
  have split (g : ι → α) : ∑ i, weight (g i) =
      weight (g index) + ∑ i ∈ Finset.univ.erase index, weight (g i) :=
    (Finset.add_sum_erase _ _ (Finset.mem_univ index)).symm
  have others : ∑ i ∈ Finset.univ.erase index, weight (Function.update family index value i) =
      ∑ i ∈ Finset.univ.erase index, weight (family i) := by
    apply Finset.sum_congr rfl
    intro i mem
    rw [Function.update_of_ne (Finset.ne_of_mem_erase mem)]
  rw [split (Function.update family index value), split family, others, Function.update_self]
  omega

omit [DecidableEq ι] in
/-- Every member is at most the sum. -/
theorem le_sum_family (weight : ι → ℕ) (index : ι) : weight index ≤ ∑ i, weight i :=
  Finset.single_le_sum (fun _ _ => Nat.zero_le _) (Finset.mem_univ index)

/-- A sum of one is one at exactly one index. -/
theorem exists_of_sum_eq_one {weight : ι → ℕ} (one : ∑ i, weight i = 1) :
    ∃ index, weight index = 1 ∧ ∀ other, other ≠ index → weight other = 0 := by
  obtain ⟨index, _, nonzero⟩ : ∃ index ∈ Finset.univ, weight index ≠ 0 :=
    Finset.exists_ne_zero_of_sum_ne_zero (by omega)
  have rest : weight index + ∑ i ∈ Finset.univ.erase index, weight i = 1 := by
    rw [Finset.add_sum_erase _ _ (Finset.mem_univ index), one]
  refine ⟨index, by omega, fun other different => ?_⟩
  have zero : ∑ i ∈ Finset.univ.erase index, weight i = 0 := by omega
  exact Finset.sum_eq_zero_iff.mp zero other (Finset.mem_erase.mpr ⟨different, Finset.mem_univ _⟩)

omit [Fintype ι] [DecidableEq ι] in
/-- Changing one entry of a list exchanges its weight in the sum. -/
theorem sum_map_set {items : List α} {index : ℕ} {item : α} (found : items[index]? = some item)
    (weight : α → ℕ) (value : α) :
    ((items.set index value).map weight).sum + weight item =
      (items.map weight).sum + weight value := by
  induction items generalizing index with
  | nil => cases found
  | cons first rest ih =>
      cases index with
      | zero =>
          obtain rfl := Option.some.inj found
          simp only [List.set_cons_zero, List.map_cons, List.sum_cons]
          omega
      | succ index =>
          have changed := ih found
          simp only [List.set_cons_succ, List.map_cons, List.sum_cons]
          omega

end Kode.Library
