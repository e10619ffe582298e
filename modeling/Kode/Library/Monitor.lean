/-
# Condition variables of a monitor

A thread that waits on a condition variable gives up the monitor's lock and
sleeps. A notification only makes it runnable again: it re-takes the lock later,
in an order nobody controls, and must then test its predicate once more. So a
condition variable is two lists of waiting calls, those still asleep and those
woken but not yet running. What a waiting call carries is a parameter.

Which sleeper a notification picks is not specified; the operation takes the
choice as an argument, and every sleeper is the result of some choice.
-/

import Mathlib.Data.List.Perm.Basic

namespace Kode.Library

universe u

variable {α : Type u}

/-- The calls waiting on one condition variable. -/
structure CondVar (α : Type u) where
  /-- Calls that have not been notified. -/
  asleep : List α
  /-- Calls that were notified and have not re-taken the lock. -/
  woken : List α
  deriving DecidableEq, Repr

namespace CondVar

/-- Nobody waits. -/
def empty : CondVar α := ⟨[], []⟩

/-- The calling thread goes to sleep. -/
def wait (cond : CondVar α) (call : α) : CondVar α :=
  { cond with asleep := cond.asleep ++ [call] }

/-- Make the sleeper at a position runnable, if there is one. -/
def rouse (cond : CondVar α) (position : ℕ) : CondVar α :=
  match cond.asleep[position]? with
  | some call => ⟨cond.asleep.eraseIdx position, cond.woken ++ [call]⟩
  | none => cond

/-- Wake one sleeper if any is asleep. Reducing the choice modulo the number of
sleepers leaves no choice that would lose the notification. -/
def notifyOne (cond : CondVar α) (choice : ℕ) : CondVar α :=
  cond.rouse (choice % cond.asleep.length)

/-- Wake every sleeper. -/
def notifyAll (cond : CondVar α) : CondVar α :=
  ⟨[], cond.woken ++ cond.asleep⟩

/-- The woken call at a position re-takes the lock and leaves the variable. -/
def resume (cond : CondVar α) (position : ℕ) : Option (α × CondVar α) :=
  cond.woken[position]?.map fun call =>
    (call, { cond with woken := cond.woken.eraseIdx position })

/-- The calls inside their wait, asleep or not. -/
def calls (cond : CondVar α) : List α := cond.asleep ++ cond.woken

/-- How many calls are inside their wait, asleep or not. -/
def waiters (cond : CondVar α) : ℕ := cond.asleep.length + cond.woken.length

@[simp]
theorem wait_woken (cond : CondVar α) (call : α) : (cond.wait call).woken = cond.woken := rfl

@[simp]
theorem notifyAll_asleep (cond : CondVar α) : cond.notifyAll.asleep = [] := rfl

/-- Rousing someone moves one call from the sleepers to the woken calls. -/
theorem rouse_cases (cond : CondVar α) (position : ℕ) :
    cond.rouse position = cond ∧ cond.asleep.length ≤ position ∨
      (cond.rouse position).asleep.length + 1 = cond.asleep.length ∧
        (cond.rouse position).woken.length = cond.woken.length + 1 := by
  unfold rouse
  split
  · rename_i call found
    obtain ⟨inside, _⟩ := List.getElem?_eq_some_iff.mp found
    right
    simp only [List.length_eraseIdx, inside, if_true, List.length_append, List.length_singleton,
      and_true]
    omega
  · rename_i missing
    exact Or.inl ⟨rfl, List.getElem?_eq_none_iff.mp missing⟩

@[simp]
theorem waiters_wait (cond : CondVar α) (call : α) :
    (cond.wait call).waiters = cond.waiters + 1 := by
  simp only [waiters, wait, List.length_append, List.length_singleton]
  omega

@[simp]
theorem waiters_rouse (cond : CondVar α) (position : ℕ) :
    (cond.rouse position).waiters = cond.waiters := by
  rcases cond.rouse_cases position with ⟨same, _⟩ | ⟨fewer, more⟩
  · rw [same]
  · simp only [waiters]
    omega

@[simp]
theorem waiters_notifyOne (cond : CondVar α) (choice : ℕ) :
    (cond.notifyOne choice).waiters = cond.waiters :=
  cond.waiters_rouse _

@[simp]
theorem waiters_notifyAll (cond : CondVar α) : cond.notifyAll.waiters = cond.waiters := by
  simp only [waiters, notifyAll, List.length_append, List.length_nil]
  omega

/-- A notification is lost only when nobody sleeps. -/
theorem notifyOne_cases (cond : CondVar α) (choice : ℕ) :
    cond.notifyOne choice = cond ∧ cond.asleep = [] ∨
      (cond.notifyOne choice).asleep.length + 1 = cond.asleep.length ∧
        (cond.notifyOne choice).woken.length = cond.woken.length + 1 := by
  rcases cond.rouse_cases (choice % cond.asleep.length) with ⟨same, outside⟩ | moved
  · left
    refine ⟨same, List.length_eq_zero_iff.mp ?_⟩
    by_contra nonempty
    have := Nat.mod_lt choice (Nat.pos_of_ne_zero nonempty)
    omega
  · exact Or.inr moved

/-- A call that re-takes the lock leaves the sleepers alone and is no longer
among the woken calls. -/
theorem resume_eq_some {cond rest : CondVar α} {position : ℕ} {call : α}
    (resumed : cond.resume position = some (call, rest)) :
    rest.asleep = cond.asleep ∧ rest.woken.length + 1 = cond.woken.length := by
  unfold resume at resumed
  obtain ⟨found, present, same⟩ := Option.map_eq_some_iff.mp resumed
  obtain ⟨rfl, rfl⟩ := Prod.mk.inj same
  obtain ⟨inside, _⟩ := List.getElem?_eq_some_iff.mp present
  refine ⟨rfl, ?_⟩
  simp only [List.length_eraseIdx, inside, if_true]
  omega

theorem waiters_of_resume {cond rest : CondVar α} {position : ℕ} {call : α}
    (resumed : cond.resume position = some (call, rest)) :
    rest.waiters + 1 = cond.waiters := by
  obtain ⟨asleep, fewer⟩ := resume_eq_some resumed
  simp only [waiters, asleep]
  omega

/-! ## The calls inside their wait -/

theorem mem_calls_of_asleep {cond : CondVar α} {call : α} (sleeps : call ∈ cond.asleep) :
    call ∈ cond.calls :=
  List.mem_append_left _ sleeps

theorem calls_wait (cond : CondVar α) (call : α) :
    (cond.wait call).calls.Perm (call :: cond.calls) := by
  simp only [calls, wait, List.append_assoc, List.singleton_append]
  exact List.perm_middle

/-- Nobody enters or leaves the wait by being woken. -/
theorem calls_rouse (cond : CondVar α) (position : ℕ) :
    (cond.rouse position).calls.Perm cond.calls := by
  unfold rouse
  split
  · rename_i call found
    obtain ⟨inside, rfl⟩ := List.getElem?_eq_some_iff.mp found
    have parted := List.getElem_cons_eraseIdx_perm inside
    have moved : (cond.asleep.eraseIdx position ++ (cond.woken ++ [cond.asleep[position]])).Perm
        (cond.asleep[position] :: (cond.asleep.eraseIdx position ++ cond.woken)) := by
      rw [← List.append_assoc]
      exact List.perm_append_singleton _ _
    exact moved.trans (parted.append_right cond.woken)
  · exact List.Perm.refl _

theorem calls_notifyOne (cond : CondVar α) (choice : ℕ) :
    (cond.notifyOne choice).calls.Perm cond.calls :=
  cond.calls_rouse _

theorem calls_notifyAll (cond : CondVar α) : cond.notifyAll.calls.Perm cond.calls := by
  simp only [calls, notifyAll, List.nil_append]
  exact List.perm_append_comm

/-- The call that re-takes the lock is the one that leaves. -/
theorem calls_resume {cond rest : CondVar α} {position : ℕ} {call : α}
    (resumed : cond.resume position = some (call, rest)) :
    cond.calls.Perm (call :: rest.calls) := by
  unfold resume at resumed
  obtain ⟨found, present, same⟩ := Option.map_eq_some_iff.mp resumed
  obtain ⟨rfl, rfl⟩ := Prod.mk.inj same
  obtain ⟨inside, rfl⟩ := List.getElem?_eq_some_iff.mp present
  have parted := List.getElem_cons_eraseIdx_perm inside
  exact (parted.symm.append_left cond.asleep).trans List.perm_middle

end CondVar

end Kode.Library
