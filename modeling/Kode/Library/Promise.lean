/-
# Promises and the microtask queue

The part of the ECMAScript semantics that orders promise callbacks: a promise is
pending with the reactions registered on it, or settled; settling it queues a job
for each reaction; a promise resolved with another promise adopts its state through
two more jobs; one resolved with an object that has a `then` method calls that
method from a job. Jobs run in the order in which they were queued.

The values a program computes with and the callbacks it registers are parameters.
Running a callback is left to the program; what its completion does to the promise
derived from it is `complete`. A promise is a number, and numbers from `next` on
have not been given out.
-/

import Mathlib.Data.List.Basic
import Mathlib.Logic.Function.Basic

namespace Kode.Library.Promise

universe u v

variable {C : Type u} {V : Type v}

/-- A value: a promise, an object with a `then` method, or anything else. -/
inductive Value (V : Type v)
  | plain (value : V)
  | promise (id : ℕ)
  | thenable (object : V)
  deriving DecidableEq, Repr

/-- The final state of a promise. A promise is fulfilled only with a value that is
neither a promise nor a thenable. -/
inductive Settlement (V : Type v)
  | fulfilled (value : V)
  | rejected (reason : Value V)
  deriving DecidableEq, Repr

/-- How a call ended. -/
inductive Completion (V : Type v)
  | returned (value : Value V)
  | threw (reason : Value V)
  deriving DecidableEq, Repr

/-- The value is not a promise, or one below a bound. -/
def Value.Below (bound : ℕ) : Value V → Prop
  | .promise id => id < bound
  | .plain _ | .thenable _ => True

/-- The reason of a rejection is below a bound. -/
def Settlement.Below (bound : ℕ) : Settlement V → Prop
  | .fulfilled _ => True
  | .rejected reason => reason.Below bound

/-- What a completion carries. -/
def Completion.value : Completion V → Value V
  | .returned value => value
  | .threw reason => reason

theorem Value.Below.mono {bound larger : ℕ} (le : bound ≤ larger) {value : Value V}
    (below : value.Below bound) : value.Below larger := by
  cases value with
  | promise id => exact Nat.lt_of_lt_of_le below le
  | plain value => trivial
  | thenable object => trivial

theorem Settlement.Below.mono {bound larger : ℕ} (le : bound ≤ larger) {result : Settlement V}
    (below : result.Below bound) : result.Below larger := by
  cases result with
  | fulfilled value => trivial
  | rejected reason => exact Value.Below.mono le below

/-- The function a reaction calls. `identity` and `thrower` stand for a missing
callback, `resolve` and `reject` for the resolving functions of a promise that
adopts another, and the two thunks for the closures made by `finally`. -/
inductive Handler (C : Type u) (V : Type v)
  | identity
  | thrower
  | resolve (target : ℕ)
  | reject (target : ℕ)
  | valueThunk (value : Value V)
  | throwThunk (reason : Value V)
  | callback (code : C)
  deriving DecidableEq, Repr

/-- The two handlers of one `then`, with the promise derived from it, if any. -/
structure Reaction (C : Type u) (V : Type v) where
  onFulfilled : Handler C V
  onRejected : Handler C V
  capability : Option ℕ
  deriving DecidableEq, Repr

/-- A queued microtask. -/
inductive Job (C : Type u) (V : Type v)
  /-- Call a handler because `source` has settled. -/
  | reaction (source : ℕ) (handler : Handler C V) (argument : Value V) (capability : Option ℕ)
  /-- Make `target` adopt the state of the promise `source`. -/
  | adopt (target source : ℕ)
  /-- Call the `then` method of an object with the resolving functions of `target`. -/
  | callThen (target : ℕ) (object : V)
  deriving DecidableEq, Repr

/-- The job of a reaction once its promise has settled. -/
def Reaction.trigger (reaction : Reaction C V) (source : ℕ) : Settlement V → Job C V
  | .fulfilled value =>
      .reaction source reaction.onFulfilled (.plain value) reaction.capability
  | .rejected reason => .reaction source reaction.onRejected reason reaction.capability

/-- The job hands what `source` settled with on to `target`. -/
def Job.derives (source target : ℕ) : Job C V → Bool
  | .reaction settled _ _ capability => settled = source && capability = some target
  | .adopt _ _ | .callThen _ _ => false

@[simp]
theorem Reaction.derives_trigger (reaction : Reaction C V) (settled source target : ℕ)
    (result : Settlement V) : (reaction.trigger settled result).derives source target =
      (settled = source && reaction.capability = some target : Bool) := by
  cases result <;> rfl

/-- The state of one promise. -/
inductive PromiseState (C : Type u) (V : Type v)
  | pending (reactions : List (Reaction C V))
  | settled (outcome : Settlement V)
  deriving DecidableEq, Repr

/-- All promises, and the microtask queue with its oldest job first. -/
structure Heap (C : Type u) (V : Type v) where
  state : ℕ → PromiseState C V
  next : ℕ
  jobs : List (Job C V)

namespace Heap

/-- No promise exists. -/
def empty : Heap C V where
  state := fun _ => .pending []
  next := 0
  jobs := []

/-- How a promise has settled, if it has. -/
def outcome (heap : Heap C V) (promise : ℕ) : Option (Settlement V) :=
  match heap.state promise with
  | .pending _ => none
  | .settled outcome => some outcome

/-- The reactions that wait for a promise to settle. -/
def reactions (heap : Heap C V) (promise : ℕ) : List (Reaction C V) :=
  match heap.state promise with
  | .pending reactions => reactions
  | .settled _ => []

/-- The promise is fulfilled or rejected. -/
def Settled (heap : Heap C V) (promise : ℕ) : Prop := (heap.outcome promise).isSome

instance (heap : Heap C V) (promise : ℕ) : Decidable (heap.Settled promise) :=
  inferInstanceAs (Decidable (_ = true))

/-- The promise is rejected. -/
def Rejected (heap : Heap C V) (promise : ℕ) : Prop :=
  match heap.outcome promise with
  | some (.rejected _) => True
  | _ => False

instance (heap : Heap C V) (promise : ℕ) : Decidable (heap.Rejected promise) := by
  unfold Rejected
  exact match heap.outcome promise with
    | some (.rejected _) => .isTrue trivial
    | some (.fulfilled _) => .isFalse not_false
    | none => .isFalse not_false

/-- A new pending promise; it gets the number `next`. -/
def create (heap : Heap C V) : Heap C V :=
  { heap with
    state := Function.update heap.state heap.next (.pending [])
    next := heap.next + 1 }

/-- Put a job at the end of the queue. -/
def enqueue (heap : Heap C V) (job : Job C V) : Heap C V :=
  { heap with jobs := heap.jobs ++ [job] }

/-- Fulfil or reject a pending promise and queue the jobs of its reactions, in the
order in which they were registered. -/
def settle (heap : Heap C V) (promise : ℕ) (outcome : Settlement V) : Heap C V :=
  match heap.state promise with
  | .pending reactions =>
      { heap with
        state := Function.update heap.state promise (.settled outcome)
        jobs := heap.jobs ++ reactions.map fun reaction => reaction.trigger promise outcome }
  | .settled _ => heap

/-- Register a reaction, or queue its job at once if the promise has settled. -/
def performThen (heap : Heap C V) (promise : ℕ) (reaction : Reaction C V) : Heap C V :=
  match heap.state promise with
  | .pending reactions =>
      { heap with
        state := Function.update heap.state promise (.pending (reactions ++ [reaction])) }
  | .settled outcome => heap.enqueue (reaction.trigger promise outcome)

/-- Resolve a promise with a value. One resolved with itself is rejected with the
value `typeError`. -/
def resolve (heap : Heap C V) (typeError : V) (promise : ℕ) : Value V → Heap C V
  | .plain value => heap.settle promise (.fulfilled value)
  | .promise source =>
      if source = promise then heap.settle promise (.rejected (.plain typeError))
      else heap.enqueue (.adopt promise source)
  | .thenable object => heap.enqueue (.callThen promise object)

/-- Hand the completion of a call to the promise derived from it. -/
def complete (heap : Heap C V) (typeError : V) (capability : Option ℕ)
    (completion : Completion V) : Heap C V :=
  match capability, completion with
  | none, _ => heap
  | some promise, .returned value => heap.resolve typeError promise value
  | some promise, .threw reason => heap.settle promise (.rejected reason)

/-! ### What the operations change -/

variable {heap older middle newer : Heap C V} {typeError : V} {promise other : ℕ}
  {result : Settlement V} {reaction : Reaction C V} {job : Job C V} {value : Value V}
  {capability : Option ℕ} {completion : Completion V}

theorem settled_iff : heap.Settled promise ↔ ∃ result, heap.outcome promise = some result :=
  Option.isSome_iff_exists

theorem rejected_iff :
    heap.Rejected promise ↔ ∃ reason, heap.outcome promise = some (.rejected reason) := by
  unfold Rejected
  split
  · simp_all
  · rename_i not_rejected
    simpa using not_rejected

@[simp]
theorem outcome_create :
    heap.create.outcome promise = if promise = heap.next then none else heap.outcome promise := by
  unfold create outcome
  by_cases same : promise = heap.next <;> simp [same]

@[simp]
theorem outcome_settle : (heap.settle promise result).outcome other =
    if other = promise then some ((heap.outcome promise).getD result) else heap.outcome other := by
  unfold settle
  split <;> rename_i found <;> by_cases same : other = promise <;> simp [outcome, found, same]

theorem settled_settle : (heap.settle promise result).Settled promise :=
  settled_iff.mpr ⟨_, by rw [outcome_settle, if_pos rfl]⟩

@[simp]
theorem outcome_performThen :
    (heap.performThen promise reaction).outcome other = heap.outcome other := by
  unfold performThen
  split
  · rename_i found
    by_cases same : other = promise
    · subst same
      simp [outcome, found]
    · simp [outcome, same]
  · rfl

@[simp]
theorem next_create : heap.create.next = heap.next + 1 := rfl

@[simp]
theorem next_settle : (heap.settle promise result).next = heap.next := by
  unfold settle
  split <;> rfl

@[simp]
theorem next_performThen : (heap.performThen promise reaction).next = heap.next := by
  unfold performThen
  split <;> rfl

@[simp]
theorem next_resolve : (heap.resolve typeError promise value).next = heap.next := by
  unfold resolve
  split
  · exact next_settle
  · split_ifs
    · exact next_settle
    · rfl
  · rfl

@[simp]
theorem next_complete : (heap.complete typeError capability completion).next = heap.next := by
  unfold complete
  split
  · rfl
  · exact next_resolve
  · exact next_settle

theorem resolve_promise : heap.resolve typeError promise (.promise other) =
    if other = promise then heap.settle promise (.rejected (.plain typeError))
    else heap.enqueue (.adopt promise other) := rfl

/-! ### Heaps grow -/

/-- Promises are added, and a promise that has settled keeps its outcome. -/
structure Grows (older newer : Heap C V) : Prop where
  next_le : older.next ≤ newer.next
  keeps : ∀ promise < older.next, ∀ result, older.outcome promise = some result →
    newer.outcome promise = some result

namespace Grows

theorem refl (heap : Heap C V) : Grows heap heap := ⟨Nat.le_refl _, fun _ _ _ known => known⟩

theorem trans (first : Grows older middle) (second : Grows middle newer) : Grows older newer where
  next_le := Nat.le_trans first.next_le second.next_le
  keeps := fun promise below result known =>
    second.keeps promise (Nat.lt_of_lt_of_le below first.next_le) result
      (first.keeps promise below result known)

theorem settled (grows : Grows older newer) (below : promise < older.next)
    (known : older.Settled promise) : newer.Settled promise := by
  obtain ⟨result, outcome⟩ := settled_iff.mp known
  exact settled_iff.mpr ⟨result, grows.keeps promise below result outcome⟩

theorem rejected (grows : Grows older newer) (below : promise < older.next)
    (known : older.Rejected promise) : newer.Rejected promise := by
  obtain ⟨reason, outcome⟩ := rejected_iff.mp known
  exact rejected_iff.mpr ⟨reason, grows.keeps promise below _ outcome⟩

end Grows

theorem grows_create : Grows heap heap.create where
  next_le := Nat.le_succ _
  keeps := by
    intro promise below result known
    rw [outcome_create, if_neg (Nat.ne_of_lt below), known]

theorem grows_enqueue : Grows heap (heap.enqueue job) := ⟨Nat.le_refl _, fun _ _ _ known => known⟩

theorem grows_settle : Grows heap (heap.settle promise result) where
  next_le := Nat.le_of_eq next_settle.symm
  keeps := by
    intro other _ known outcome
    rw [outcome_settle]
    split
    · next same =>
        subst same
        rw [outcome, Option.getD_some]
    · exact outcome

theorem grows_performThen : Grows heap (heap.performThen promise reaction) where
  next_le := Nat.le_of_eq next_performThen.symm
  keeps := by
    intro other _ known outcome
    rw [outcome_performThen, outcome]

/-! ### Conditions on everything a heap holds -/

/-- Every settled promise, every waiting reaction and every queued job meets its
condition. -/
structure Meets (settles : ℕ → Settlement V → Prop) (waits : ℕ → Reaction C V → Prop)
    (queues : Job C V → Prop) (heap : Heap C V) : Prop where
  settled : ∀ promise result, heap.outcome promise = some result → settles promise result
  waiting : ∀ promise, ∀ reaction ∈ heap.reactions promise, waits promise reaction
  queued : ∀ job ∈ heap.jobs, queues job

namespace Meets

variable {settles settles' : ℕ → Settlement V → Prop} {waits waits' : ℕ → Reaction C V → Prop}
  {queues queues' : Job C V → Prop}

theorem weaken (meets : heap.Meets settles waits queues)
    (settles_weaker : ∀ promise result, settles promise result → settles' promise result)
    (waits_weaker : ∀ promise reaction, waits promise reaction → waits' promise reaction)
    (queues_weaker : ∀ job ∈ heap.jobs, queues job → queues' job) :
    heap.Meets settles' waits' queues' where
  settled := fun promise result known =>
    settles_weaker promise result (meets.settled promise result known)
  waiting := fun promise reaction mem =>
    waits_weaker promise reaction (meets.waiting promise reaction mem)
  queued := fun job mem => queues_weaker job mem (meets.queued job mem)

theorem empty : (Heap.empty : Heap C V).Meets settles waits queues where
  settled := by
    intro promise result known
    exact absurd known (by simp [outcome, Heap.empty])
  waiting := by
    intro promise reaction mem
    exact absurd mem (by simp [reactions, Heap.empty])
  queued := by
    intro job mem
    exact absurd mem (by simp [Heap.empty])

theorem create (meets : heap.Meets settles waits queues) :
    heap.create.Meets settles waits queues where
  settled := by
    intro promise result known
    rw [outcome_create] at known
    split at known
    · exact absurd known (by simp)
    · exact meets.settled promise result known
  waiting := by
    intro promise reaction mem
    by_cases same : promise = heap.next
    · subst same
      exact absurd mem (by simp [reactions, Heap.create])
    · apply meets.waiting
      simpa [reactions, Heap.create, same] using mem
  queued := meets.queued

theorem enqueue (meets : heap.Meets settles waits queues) (allowed : queues job) :
    (heap.enqueue job).Meets settles waits queues where
  settled := meets.settled
  waiting := meets.waiting
  queued := by
    intro other mem
    rcases List.mem_append.mp mem with old | new
    · exact meets.queued other old
    · rw [List.mem_singleton.mp new]
      exact allowed

/-- Settling needs the condition on the promise, and turns the condition on each
waiting reaction into the one on its job. -/
theorem settle (meets : heap.Meets settles waits queues) (allowed : settles promise result)
    (fires : ∀ reaction, waits promise reaction → queues (reaction.trigger promise result)) :
    (heap.settle promise result).Meets settles waits queues := by
  unfold Heap.settle
  split
  · rename_i registered found
    refine ⟨?_, ?_, ?_⟩
    · intro other known outcome
      by_cases same : other = promise
      · subst same
        obtain rfl : result = known := by simpa [Heap.outcome] using outcome
        exact allowed
      · apply meets.settled
        simpa [Heap.outcome, same] using outcome
    · intro other reaction mem
      by_cases same : other = promise
      · subst same
        exact absurd mem (by simp [reactions])
      · apply meets.waiting
        simpa [reactions, same] using mem
    · intro job mem
      rcases List.mem_append.mp mem with old | new
      · exact meets.queued job old
      · obtain ⟨reaction, waiting, rfl⟩ := List.mem_map.mp new
        apply fires
        apply meets.waiting
        simpa [reactions, found] using waiting
  · exact meets

/-- Registering needs the condition on the reaction, and the one on its job if the
promise has settled already. -/
theorem performThen (meets : heap.Meets settles waits queues) (allowed : waits promise reaction)
    (fires : ∀ result, heap.outcome promise = some result →
      queues (reaction.trigger promise result)) :
    (heap.performThen promise reaction).Meets settles waits queues := by
  unfold Heap.performThen
  split
  · rename_i registered found
    refine ⟨?_, ?_, meets.queued⟩
    · intro other known outcome
      by_cases same : other = promise
      · subst same
        exact absurd outcome (by simp [Heap.outcome])
      · apply meets.settled
        simpa [Heap.outcome, same] using outcome
    · intro other waiting mem
      by_cases same : other = promise
      · subst same
        simp only [reactions, Function.update_self, List.mem_append, List.mem_singleton] at mem
        rcases mem with old | new
        · apply meets.waiting
          simpa [reactions, found] using old
        · exact new ▸ allowed
      · apply meets.waiting
        simpa [reactions, same] using mem
  · rename_i result found
    exact meets.enqueue (fires result (by simp [outcome, found]))

/-- Registering on a promise that is known to have settled only queues a job. -/
theorem performThen_settled (meets : heap.Meets settles waits queues)
    (known : heap.outcome promise = some result)
    (fires : queues (reaction.trigger promise result)) :
    (heap.performThen promise reaction).Meets settles waits queues := by
  unfold Heap.performThen
  split
  · rename_i registered found
    exact absurd known (by simp [outcome, found])
  · rename_i other found
    obtain rfl : other = result := by simpa [outcome, found] using known
    exact meets.enqueue fires

/-- The oldest job leaves the queue and meets its condition. -/
theorem pop {rest : List (Job C V)} (meets : heap.Meets settles waits queues)
    (queue : heap.jobs = job :: rest) :
    queues job ∧ ({ heap with jobs := rest } : Heap C V).Meets settles waits queues := by
  refine ⟨meets.queued job (by simp [queue]), ⟨meets.settled, meets.waiting, ?_⟩⟩
  intro other mem
  exact meets.queued other (by simp [queue, mem])

end Meets

/-! ### What is on its way

A reaction is registered on a promise, then its job is queued, then the job runs. Until
it has run, it is on its way. -/

/-- The reaction waits for the promise, or its job is queued. -/
def OnItsWay (heap : Heap C V) (source : ℕ) (reaction : Reaction C V) : Prop :=
  reaction ∈ heap.reactions source ∨ ∃ result, reaction.trigger source result ∈ heap.jobs

/-- How many handlers are on their way from `source` to `target`. -/
def derivations (heap : Heap C V) (source target : ℕ) : ℕ :=
  (heap.reactions source).countP (fun reaction => reaction.capability = some target) +
    heap.jobs.countP (Job.derives source target)

theorem reactions_of_outcome (known : heap.outcome promise = some result) :
    heap.reactions promise = [] := by
  unfold outcome at known
  unfold reactions
  split at known
  · cases known
  · rfl

/-- Nothing waits for a promise that has settled. -/
theorem pending_of_reactions (waits : reaction ∈ heap.reactions promise) :
    ¬ heap.Settled promise := by
  intro settled
  obtain ⟨result, known⟩ := settled_iff.mp settled
  rw [reactions_of_outcome known] at waits
  cases waits

theorem reactions_create (below : promise < heap.next) :
    heap.create.reactions promise = heap.reactions promise := by
  simp [reactions, create, Nat.ne_of_lt below]

theorem reactions_performThen (heap : Heap C V) (promise other : ℕ) (reaction : Reaction C V) :
    (heap.performThen promise reaction).reactions other =
      if other = promise ∧ heap.outcome promise = none then heap.reactions promise ++ [reaction]
      else heap.reactions other := by
  unfold performThen
  split
  · rename_i found
    by_cases same : other = promise
    · subst same
      simp [reactions, outcome, found]
    · simp [reactions, same]
  · rename_i found
    rw [if_neg]
    · rfl
    · rintro ⟨rfl, pending⟩
      simp [outcome, found] at pending

theorem jobs_performThen (heap : Heap C V) (promise : ℕ) (reaction : Reaction C V) :
    (heap.performThen promise reaction).jobs =
      heap.jobs ++ ((heap.outcome promise).map (reaction.trigger promise)).toList := by
  unfold performThen
  split <;> rename_i found <;> simp [outcome, found, enqueue]

theorem reactions_settle (heap : Heap C V) (promise other : ℕ) (result : Settlement V) :
    (heap.settle promise result).reactions other =
      if other = promise then [] else heap.reactions other := by
  unfold settle
  split <;> rename_i found <;> by_cases same : other = promise <;> simp [reactions, found, same]

theorem jobs_settle (heap : Heap C V) (promise : ℕ) (result : Settlement V) :
    (heap.settle promise result).jobs =
      heap.jobs ++ (heap.reactions promise).map fun reaction =>
        reaction.trigger promise result := by
  unfold settle
  split <;> rename_i found <;> simp [reactions, found]

/-- An operation that loses nothing that is on its way, and puts nothing on its way to a
promise that existed before. -/
structure Carries (older newer : Heap C V) : Prop extends older.Grows newer where
  jobs : ∀ job ∈ older.jobs, job ∈ newer.jobs
  onItsWay : ∀ source < older.next, ∀ reaction, older.OnItsWay source reaction →
    newer.OnItsWay source reaction
  derivations : ∀ source < older.next, ∀ target < older.next,
    newer.derivations source target = older.derivations source target

theorem Carries.refl (heap : Heap C V) : heap.Carries heap :=
  ⟨.refl heap, fun _ mem => mem, fun _ _ _ way => way, fun _ _ _ _ => rfl⟩

theorem Carries.trans (first : older.Carries middle) (second : middle.Carries newer) :
    older.Carries newer where
  toGrows := first.toGrows.trans second.toGrows
  jobs job mem := second.jobs job (first.jobs job mem)
  onItsWay source below reaction way :=
    second.onItsWay source (Nat.lt_of_lt_of_le below first.next_le) reaction
      (first.onItsWay source below reaction way)
  derivations source below target target_lt :=
    (second.derivations source (Nat.lt_of_lt_of_le below first.next_le) target
      (Nat.lt_of_lt_of_le target_lt first.next_le)).trans
        (first.derivations source below target target_lt)

theorem carries_create : heap.Carries heap.create where
  toGrows := grows_create
  jobs _ mem := mem
  onItsWay source below reaction way := by
    rwa [OnItsWay, reactions_create below]
  derivations source below target _ := by
    rw [Heap.derivations, reactions_create below]
    rfl

theorem carries_enqueue (apart : ∀ source target, job.derives source target = false) :
    heap.Carries (heap.enqueue job) where
  toGrows := grows_enqueue
  jobs _ mem := List.mem_append_left _ mem
  onItsWay _ _ _ way := way.imp_right fun ⟨result, mem⟩ => ⟨result, List.mem_append_left _ mem⟩
  derivations source _ target _ := by
    simp [Heap.derivations, enqueue, apart, reactions]

theorem derivations_settle (source target : ℕ) :
    (heap.settle promise result).derivations source target =
      heap.derivations source target := by
  rw [Heap.derivations, Heap.derivations, reactions_settle, jobs_settle, List.countP_append,
    List.countP_map]
  by_cases same : source = promise
  · subst same
    simp [Function.comp_def]
    omega
  · have apart : promise ≠ source := fun equal => same equal.symm
    simp [Function.comp_def, same, apart]

theorem carries_settle : heap.Carries (heap.settle promise result) where
  toGrows := grows_settle
  jobs job mem := by
    rw [jobs_settle]
    exact List.mem_append_left _ mem
  onItsWay source below reaction way := by
    rcases way with waits | ⟨earlier, queued⟩
    · by_cases same : source = promise
      · subst same
        right
        refine ⟨result, ?_⟩
        rw [jobs_settle]
        exact List.mem_append_right _ (List.mem_map.mpr ⟨reaction, waits, rfl⟩)
      · left
        rwa [reactions_settle, if_neg same]
    · right
      refine ⟨earlier, ?_⟩
      rw [jobs_settle]
      exact List.mem_append_left _ queued
  derivations source _ target _ := derivations_settle source target

/-- Registering a reaction keeps what is on its way. -/
theorem OnItsWay.performThen {source : ℕ} {other : Reaction C V}
    (way : heap.OnItsWay source other) :
    (heap.performThen promise reaction).OnItsWay source other := by
  rcases way with waits | ⟨earlier, queued⟩
  · left
    rw [reactions_performThen]
    split_ifs with same
    · rw [← same.1]
      exact List.mem_append_left _ waits
    · exact waits
  · right
    refine ⟨earlier, ?_⟩
    rw [jobs_performThen]
    exact List.mem_append_left _ queued

theorem derivations_performThen {source target : ℕ}
    (apart : ¬ (promise = source ∧ reaction.capability = some target)) :
    (heap.performThen promise reaction).derivations source target =
      heap.derivations source target := by
  rw [Heap.derivations, Heap.derivations, reactions_performThen, jobs_performThen,
    List.countP_append]
  cases known : heap.outcome promise with
  | none =>
      split_ifs with same
      · have other : reaction.capability ≠ some target := fun equal => apart ⟨same.1.symm, equal⟩
        simp [same.1, other]
      · simp
  | some result =>
      have other : (reaction.trigger promise result).derives source target = false := by
        simpa using apart
      simp [other]

/-- A new promise has no handlers, so making one adds none. -/
theorem derivations_create_le (heap : Heap C V) (source target : ℕ) :
    heap.create.derivations source target ≤ heap.derivations source target := by
  refine Nat.add_le_add ?_ (Nat.le_refl _)
  by_cases same : source = heap.next
  · subst same
    simp [reactions, create]
  · simp [reactions, create, same]

/-- The handler that is registered is the one more on its way. -/
theorem derivations_performThen_self {target : ℕ} (hands : reaction.capability = some target) :
    (heap.performThen promise reaction).derivations promise target =
      heap.derivations promise target + 1 := by
  rw [Heap.derivations, Heap.derivations, reactions_performThen, jobs_performThen,
    List.countP_append]
  cases known : heap.outcome promise with
  | none => simp [hands, Nat.add_right_comm]
  | some result => simp [hands, Nat.add_assoc]

/-- A handler whose promise is new, or which has none. -/
theorem Carries.performThen (carries : older.Carries heap)
    (fresh : ∀ target, reaction.capability = some target → older.next ≤ target) :
    older.Carries (heap.performThen promise reaction) where
  toGrows := carries.toGrows.trans grows_performThen
  jobs job mem := by
    rw [jobs_performThen]
    exact List.mem_append_left _ (carries.jobs job mem)
  onItsWay source below other way := (carries.onItsWay source below other way).performThen
  derivations source below target target_lt := by
    rw [derivations_performThen, carries.derivations source below target target_lt]
    rintro ⟨_, same⟩
    exact absurd (fresh target same) (Nat.not_le_of_lt target_lt)

theorem Carries.performThen_new (carries : older.Carries heap)
    {onFulfilled onRejected : Handler C V} {target : ℕ} (fresh : older.next ≤ target) :
    older.Carries (heap.performThen promise ⟨onFulfilled, onRejected, some target⟩) := by
  refine carries.performThen ?_
  rintro other same
  exact Option.some.inj same ▸ fresh

theorem carries_resolve : heap.Carries (heap.resolve typeError promise value) := by
  cases value with
  | plain value => exact carries_settle
  | promise source =>
      rw [resolve_promise]
      split_ifs
      · exact carries_settle
      · exact carries_enqueue fun _ _ => rfl
  | thenable object => exact carries_enqueue fun _ _ => rfl

theorem carries_complete : heap.Carries (heap.complete typeError capability completion) := by
  cases capability with
  | none => exact .refl heap
  | some promise =>
      cases completion with
      | returned value => exact carries_resolve
      | threw reason => exact carries_settle

/-- A reaction is on its way from the moment it is registered. -/
theorem onItsWay_performThen (heap : Heap C V) (promise : ℕ) (reaction : Reaction C V) :
    (heap.performThen promise reaction).OnItsWay promise reaction := by
  cases known : heap.outcome promise with
  | none =>
      left
      simp [reactions_performThen, known]
  | some result =>
      right
      exact ⟨result, by simp [jobs_performThen, known]⟩

/-- Until its job is the one that leaves the queue. -/
theorem OnItsWay.pop {rest : List (Job C V)} {source : ℕ} (way : heap.OnItsWay source reaction)
    (queue : heap.jobs = job :: rest) :
    ({ heap with jobs := rest } : Heap C V).OnItsWay source reaction ∨
      ∃ result, job = reaction.trigger source result := by
  rcases way with waits | ⟨result, queued⟩
  · exact Or.inl (Or.inl waits)
  · rw [queue, List.mem_cons] at queued
    rcases queued with here | behind
    · exact Or.inr ⟨result, here.symm⟩
    · exact Or.inl (Or.inr ⟨result, behind⟩)

/-- With an empty queue a reaction on its way still waits. -/
theorem pending_of_onItsWay {source : ℕ} (idle : heap.jobs = [])
    (way : heap.OnItsWay source reaction) : ¬ heap.Settled source := by
  rcases way with waits | ⟨result, queued⟩
  · exact pending_of_reactions waits
  · rw [idle] at queued
    cases queued

/-- With an empty queue nothing is on its way from a promise that has settled. -/
theorem derivations_of_idle (idle : heap.jobs = []) (settled : heap.Settled promise)
    (target : ℕ) : heap.derivations promise target = 0 := by
  obtain ⟨result, known⟩ := settled_iff.mp settled
  simp [derivations, idle, reactions_of_outcome known]

theorem derivations_pop {rest : List (Job C V)} (queue : heap.jobs = job :: rest)
    (source target : ℕ) :
    heap.derivations source target =
      ({ heap with jobs := rest } : Heap C V).derivations source target +
        if job.derives source target then 1 else 0 := by
  simp only [derivations, queue, List.countP_cons]
  exact (Nat.add_assoc _ _ _).symm

end Heap

end Kode.Library.Promise
