/-
# Linearizability

Callers that use one object at the same time see a history of calls and answers. It is
linearizable when it can be explained by an object that serves one operation at a time: the
operations that were answered can be put into an order in which that object gives each of
them its answer, and in which an operation that was answered before another was called
comes first. Operations without an answer have had no effect.

The rule proved here is for objects that take each operation at the moment of its answer.
The order of the answers is then the order that is needed.
-/

import Kode.Library.StepSystem

namespace Kode.Library

universe u v w

/-- An entry of a history. Operations are numbered. -/
inductive Entry (ο : Type u) (α : Type v)
  | call (id : ℕ) (op : ο)
  | answer (id : ℕ) (answer : α)
  deriving DecidableEq, Repr

/-- An operation that was answered. -/
structure Completed (ο : Type u) (α : Type v) where
  id : ℕ
  op : ο
  answer : α
  deriving DecidableEq, Repr

variable {σ : Type w} {ο : Type u} {α : Type v}

/-- The object serves the operations in this order and is then in the last state. -/
def Serves (object : σ → ο → Option (σ × α)) : σ → List (Completed ο α) → σ → Prop
  | state, [], final => final = state
  | state, done :: order, final =>
      ∃ next, object state done.op = some (next, done.answer) ∧ Serves object next order final

/-- The histories of callers whose operations are each served at the moment of the answer,
with the operations in that order and the state of the object. -/
inductive ServedAtAnswer (object : σ → ο → Option (σ × α)) (init : σ) :
    List (Entry ο α) → List (Completed ο α) → σ → Prop
  | nil : ServedAtAnswer object init [] [] init
  | call {history : List (Entry ο α)} {order : List (Completed ο α)} {state : σ} (id : ℕ) (op : ο)
      (prior : ServedAtAnswer object init history order state)
      (fresh : ∀ other, .call id other ∉ history) :
      ServedAtAnswer object init (history ++ [.call id op]) order state
  | answer {history : List (Entry ο α)} {order : List (Completed ο α)} {state next : σ}
      (done : Completed ο α) (prior : ServedAtAnswer object init history order state)
      (called : .call done.id done.op ∈ history)
      (unanswered : ∀ other, .answer done.id other ∉ history)
      (served : object state done.op = some (next, done.answer)) :
      ServedAtAnswer object init (history ++ [.answer done.id done.answer]) (order ++ [done]) next

/-- One more operation is served. -/
theorem Serves.snoc {object : σ → ο → Option (σ × α)} {start state next : σ}
    {order : List (Completed ο α)} {done : Completed ο α} (serves : Serves object start order state)
    (served : object state done.op = some (next, done.answer)) :
    Serves object start (order ++ [done]) next := by
  induction order generalizing start with
  | nil =>
      obtain rfl : state = start := serves
      exact ⟨next, served, rfl⟩
  | cons first rest ih =>
      obtain ⟨middle, taken, remaining⟩ := serves
      exact ⟨middle, taken, ih remaining⟩

namespace ServedAtAnswer

variable {object : σ → ο → Option (σ × α)} {init state : σ} {history : List (Entry ο α)}
  {order : List (Completed ο α)}

theorem serves (served : ServedAtAnswer object init history order state) :
    Serves object init order state := by
  induction served with
  | nil => rfl
  | call id op prior fresh ih => exact ih
  | answer done prior called unanswered taken ih => exact ih.snoc taken

/-- What is served was called and has its answer. -/
theorem of_mem (served : ServedAtAnswer object init history order state) {done : Completed ο α}
    (member : done ∈ order) :
    .call done.id done.op ∈ history ∧ .answer done.id done.answer ∈ history := by
  induction served with
  | nil => cases member
  | call id op prior fresh ih =>
      obtain ⟨called, answered⟩ := ih member
      exact ⟨List.mem_append_left _ called, List.mem_append_left _ answered⟩
  | answer last prior called unanswered taken ih =>
      rcases List.mem_append.mp member with old | new
      · obtain ⟨called, answered⟩ := ih old
        exact ⟨List.mem_append_left _ called, List.mem_append_left _ answered⟩
      · obtain rfl := List.mem_singleton.mp new
        exact ⟨List.mem_append_left _ called, List.mem_append_right _ (List.mem_singleton_self _)⟩

/-- No operation is called twice. -/
theorem op_unique (served : ServedAtAnswer object init history order state) {id : ℕ}
    {one two : ο} (first : .call id one ∈ history) (second : .call id two ∈ history) :
    one = two := by
  induction served with
  | nil => cases first
  | call new op prior fresh ih =>
      simp only [List.mem_append, List.mem_singleton, Entry.call.injEq] at first second
      rcases first with old | ⟨same, now⟩ <;> rcases second with before | ⟨again, later⟩
      · exact ih old before
      · exact absurd (again ▸ old) (fresh _)
      · exact absurd (same ▸ before) (fresh _)
      · exact now.trans later.symm
  | answer done prior called unanswered taken ih =>
      exact ih (by simpa using first) (by simpa using second)

/-- An answer is that of an operation that was served. -/
theorem exists_of_answer (served : ServedAtAnswer object init history order state) {id : ℕ}
    {answer : α} (answered : .answer id answer ∈ history) :
    ∃ done ∈ order, done.id = id ∧ done.answer = answer := by
  induction served with
  | nil => cases answered
  | call new op prior fresh ih => exact ih (by simpa using answered)
  | answer done prior called unanswered taken ih =>
      rcases List.mem_append.mp answered with old | new
      · obtain ⟨earlier, member, same⟩ := ih old
        exact ⟨earlier, List.mem_append_left _ member, same⟩
      · obtain ⟨rfl, rfl⟩ := Entry.answer.inj (List.mem_singleton.mp new)
        exact ⟨done, List.mem_append_right _ (List.mem_singleton_self _), rfl, rfl⟩

theorem distinct (served : ServedAtAnswer object init history order state) :
    (order.map Completed.id).Nodup := by
  induction served with
  | nil => exact List.nodup_nil
  | call id op prior fresh ih => exact ih
  | answer done prior called unanswered taken ih =>
      rw [List.map_append, List.map_singleton, List.nodup_append]
      refine ⟨ih, List.pairwise_singleton _ _, fun id old other new same => ?_⟩
      obtain rfl := List.mem_singleton.mp new
      obtain ⟨earlier, member, rfl⟩ := List.mem_map.mp old
      exact unanswered earlier.answer (same ▸ (prior.of_mem member).2)

/-- An operation is in the order once it has an answer. -/
theorem mem_iff (served : ServedAtAnswer object init history order state)
    (done : Completed ο α) : done ∈ order ↔
      .call done.id done.op ∈ history ∧ .answer done.id done.answer ∈ history := by
  refine ⟨served.of_mem, fun ⟨called, answered⟩ => ?_⟩
  obtain ⟨⟨id, op, answer⟩, member, rfl, rfl⟩ := served.exists_of_answer answered
  obtain rfl := served.op_unique called (served.of_mem member).1
  exact member

end ServedAtAnswer

/-- The callers' side: what has been called and answered so far, which calls are open, and in
which state the object is. Calls are numbered from zero. -/
structure Account (object : σ → ο → Option (σ × α)) (init : σ) (history : List (Entry ο α))
    (made : ℕ) (active : List (ℕ × ο)) (state : σ) : Prop where
  served : ∃ order, ServedAtAnswer object init history order state
  numbered : ∀ id op, .call id op ∈ history → id < made
  called : ∀ call ∈ active, .call call.1 call.2 ∈ history
  unanswered : ∀ call ∈ active, ∀ answer, .answer call.1 answer ∉ history
  distinct : (active.map Prod.fst).Nodup
  complete : ∀ id op, .call id op ∈ history →
    (∃ answer, .answer id answer ∈ history) ∨ (id, op) ∈ active

namespace Account

variable {object : σ → ο → Option (σ × α)} {init state : σ} {history : List (Entry ο α)}
  {made : ℕ} {active : List (ℕ × ο)}

theorem nil (object : σ → ο → Option (σ × α)) (init : σ) : Account object init [] 0 [] init where
  served := ⟨[], .nil⟩
  numbered _ _ called := by cases called
  called _ member := by cases member
  unanswered _ member := by cases member
  distinct := List.Pairwise.nil
  complete _ _ called := by cases called

theorem answered_lt (account : Account object init history made active state) {id : ℕ}
    {answer : α} (answered : .answer id answer ∈ history) : id < made := by
  obtain ⟨order, served⟩ := account.served
  obtain ⟨done, member, rfl, -⟩ := served.exists_of_answer answered
  exact account.numbered _ _ (served.of_mem member).1

/-- The next operation is called. -/
theorem call (account : Account object init history made active state) (op : ο) :
    Account object init (history ++ [.call made op]) (made + 1) ((made, op) :: active) state where
  served := by
    obtain ⟨order, served⟩ := account.served
    exact ⟨order, served.call made op fun other called =>
      Nat.lt_irrefl _ (account.numbered _ _ called)⟩
  numbered id other called := by
    rcases List.mem_append.mp called with old | new
    · exact Nat.lt_succ_of_lt (account.numbered _ _ old)
    · obtain ⟨rfl, -⟩ := Entry.call.inj (List.mem_singleton.mp new)
      exact Nat.lt_succ_self _
  called call member := by
    rcases List.mem_cons.mp member with rfl | old
    · exact List.mem_append_right _ (List.mem_singleton_self _)
    · exact List.mem_append_left _ (account.called _ old)
  unanswered call member answer answered := by
    have old : .answer call.1 answer ∈ history := by simpa using answered
    rcases List.mem_cons.mp member with rfl | active
    · exact Nat.lt_irrefl _ (account.answered_lt old)
    · exact account.unanswered _ active _ old
  distinct := by
    rw [List.map_cons, List.nodup_cons]
    refine ⟨fun member => ?_, account.distinct⟩
    obtain ⟨call, old, same⟩ := List.mem_map.mp member
    exact Nat.ne_of_lt (account.numbered _ _ (account.called _ old)) same
  complete id other called := by
    rcases List.mem_append.mp called with old | new
    · rcases account.complete _ _ old with ⟨answer, answered⟩ | waits
      · exact Or.inl ⟨answer, List.mem_append_left _ answered⟩
      · exact Or.inr (List.mem_cons_of_mem _ waits)
    · obtain ⟨rfl, rfl⟩ := Entry.call.inj (List.mem_singleton.mp new)
      exact Or.inr (List.mem_cons_self ..)

/-- An open call is served and answered. -/
theorem answer (account : Account object init history made active state) {id : ℕ} {op : ο}
    {rest : List (ℕ × ο)} (opened : active.Perm ((id, op) :: rest)) {next : σ} {answer : α}
    (taken : object state op = some (next, answer)) :
    Account object init (history ++ [.answer id answer]) made rest next where
  served := by
    obtain ⟨order, served⟩ := account.served
    have member := opened.mem_iff.mpr (List.mem_cons_self ..)
    exact ⟨order ++ [⟨id, op, answer⟩], served.answer ⟨id, op, answer⟩ (account.called _ member)
      (account.unanswered _ member) taken⟩
  numbered other made called := account.numbered other made (by simpa using called)
  called call member :=
    List.mem_append_left _ (account.called _ (opened.mem_iff.mpr (List.mem_cons_of_mem _ member)))
  unanswered call member other answered := by
    have distinct := (opened.map Prod.fst).nodup_iff.mp account.distinct
    have old := account.unanswered _ (opened.mem_iff.mpr (List.mem_cons_of_mem _ member)) other
    have others : call.1 ∈ rest.map Prod.fst := List.mem_map_of_mem member
    have apart : call.1 ≠ id := fun same => (List.nodup_cons.mp distinct).1 (same ▸ others)
    simp [old, apart] at answered
  distinct := (List.nodup_cons.mp ((opened.map Prod.fst).nodup_iff.mp account.distinct)).2
  complete other otherOp called := by
    rcases account.complete other otherOp (by simpa using called) with ⟨result, answered⟩ | waits
    · exact Or.inl ⟨result, List.mem_append_left _ answered⟩
    · rcases List.mem_cons.mp (opened.mem_iff.mp waits) with same | left
      · obtain ⟨rfl, rfl⟩ := Prod.mk.inj same
        exact Or.inl ⟨answer, List.mem_append_right _ (List.mem_singleton_self _)⟩
      · exact Or.inr left

/-- The order in which the open calls are listed does not matter. -/
theorem perm (account : Account object init history made active state) {other : List (ℕ × ο)}
    (same : active.Perm other) : Account object init history made other state where
  served := account.served
  numbered := account.numbered
  called call member := account.called call (same.mem_iff.mpr member)
  unanswered call member := account.unanswered call (same.mem_iff.mpr member)
  distinct := (same.map Prod.fst).nodup_iff.mp account.distinct
  complete id op called :=
    (account.complete id op called).imp_right same.mem_iff.mp

end Account

end Kode.Library
