/-
# The two counters are exact

`activeScopes` and `activeTasks` go up when a call is accepted and down in the callback
of its `.finally`. They are exact because of each accepted call exactly one `.finally`
handler is on its way until its callback runs, and none after that: no other code can
register one, and none is lost.

They come back to zero because nothing else on the way of a call is lost either. With
an empty queue, a handler that still waits does so for a function that is not over.
-/

import Kode.Scope.Tracking
import Mathlib.Data.Finset.Card

namespace Kode.Scope.Host

open Kode.Library Kode.Library.Promise

variable {host old middle new : Host} {mayStart : ℕ → Prop}

/-! ### Parts of a step that count nothing -/

/-- A part of a step that accepts no call and releases none. -/
structure Counts (old new : Host) : Prop where
  operations : new.activeOperations = old.activeOperations
  counted : ∀ call, (new.calls call).counted = (old.calls call).counted

theorem Counts.refl (host : Host) : Counts host host := ⟨rfl, fun _ => rfl⟩

theorem Counts.trans (first : Counts old middle) (second : Counts middle new) : Counts old new :=
  ⟨second.operations.trans first.operations,
    fun call => (second.counted call).trans (first.counted call)⟩

theorem record_operations (capability : Option ℕ) (completion : JsCompletion) :
    (host.record capability completion).activeOperations = host.activeOperations := by
  unfold Host.record
  split <;> rfl

theorem counts_conclude (capability : Option ℕ) (completion : JsCompletion) :
    Counts host (host.conclude capability completion) where
  operations := record_operations capability completion
  counted call := by
    show ((host.record capability completion).calls call).counted = _
    rcases record_calls capability completion call with same | ⟨_, _, _, handed⟩
    · rw [same]
    · rw [handed]

/-- The call whose `.finally` the handler is. -/
def finallyOf : Handler Callback Plain → Option ℕ
  | .callback (.thenFinally call) | .callback (.catchFinally call) => some call
  | _ => none

theorem counts_modifyCall {call : ℕ} {change : Call → Call}
    (counted : (change (host.calls call)).counted = (host.calls call).counted) :
    Counts host (host.modifyCall call change) where
  operations := rfl
  counted other := by
    by_cases same : other = call
    · subst same
      rw [modifyCall_calls_self, counted]
    · exact congrArg Call.counted (Function.update_of_ne same _ _)

theorem counts_markFailed (call : ℕ) : Counts host (host.markFailed call) := by
  unfold Host.markFailed
  split
  · exact .refl host
  · exact counts_modifyCall rfl

theorem counts_runFinally (call : ℕ) (thunk : Handler Callback Plain)
    (capability : Option ℕ) :
    Counts (host.release call) (host.runFinally call thunk capability) := by
  have waited : Counts (host.release call) ((host.release call).promiseResolve.andThen
      (host.release call).heap.next thunk .thrower .internal) := ⟨rfl, fun _ => rfl⟩
  exact waited.trans (counts_conclude _ _)

/-- Only the callback of a `.finally` changes a counter. -/
theorem counts_runHandler {handler : Handler Callback Plain} (argument : JsValue)
    (capability : Option ℕ) (other : finallyOf handler = none) :
    Counts host (host.runHandler handler argument capability) := by
  cases handler with
  | resolve target =>
      exact Counts.trans (⟨rfl, fun _ => rfl⟩ : Counts host { host with
        heap := host.heap.resolve .typeError target argument }) (counts_conclude _ _)
  | reject target =>
      exact Counts.trans (⟨rfl, fun _ => rfl⟩ : Counts host { host with
        heap := host.heap.settle target (.rejected argument) }) (counts_conclude _ _)
  | callback code =>
      cases code with
      | program => exact ⟨rfl, fun _ => rfl⟩
      | run call =>
          have entered : Counts host (host.modifyCall call fun record =>
              { record with entered := true }) := counts_modifyCall rfl
          exact ⟨rfl, entered.counted⟩
      | markFailed call => exact (counts_markFailed call).trans (counts_conclude _ _)
      | thenFinally call => cases other
      | catchFinally call => cases other
  | _ => exact counts_conclude _ _

theorem counts_useResolver (promise : ℕ) (completion : JsCompletion) :
    Counts host (host.useResolver promise completion) :=
  Counts.trans (⟨rfl, fun _ => rfl⟩ : Counts host { host with
    resolvers := Function.update host.resolvers promise false }) (counts_conclude _ _)

theorem counts_leave (frame : Frame) (completion : JsCompletion) :
    Counts host (host.leave frame completion) := by
  have left : Counts host { host with frame := none } := ⟨rfl, fun _ => rfl⟩
  unfold Host.leave
  dsimp only
  split
  · exact left.trans (counts_conclude _ _)
  · split_ifs
    · exact left.trans (counts_useResolver _ _)
    · exact left
  · exact left

/-! ### The counters -/

/-- The accepted calls whose `.finally` callback has not run: the `scope.async` calls or
the `Kode.scope` calls. -/
def countedCalls (host : Host) (tasks : Bool) : Finset ℕ :=
  (Finset.range host.nextCall).filter fun call =>
    (host.calls call).owner.isSome = tasks ∧ (host.calls call).counted = true

theorem mem_countedCalls {tasks : Bool} {call : ℕ} : call ∈ host.countedCalls tasks ↔
    call < host.nextCall ∧ (host.calls call).owner.isSome = tasks ∧
      (host.calls call).counted = true := by
  simp [countedCalls]

/-- The counters are exact, and of each call the handler of its `.finally` is on its way
once while it is counted, and not any more after that. -/
structure Tallied (host : Host) : Prop where
  scopes : host.activeScopes = (host.countedCalls false).card
  tasks : host.activeTasks = (host.countedCalls true).card
  finallies : ∀ call < host.nextCall,
    host.heap.derivations (host.calls call).guarded (host.calls call).result =
      if (host.calls call).counted then 1 else 0

theorem countedCalls_congr (moves : Moves old new) (counts : Counts old new) (tasks : Bool) :
    new.countedCalls tasks = old.countedCalls tasks := by
  ext call
  rw [mem_countedCalls, mem_countedCalls, moves.nextCall, (moves.call call).owner,
    counts.counted call]

/-- A step that neither accepts nor releases a call. -/
theorem Tallied.counts (tallied : old.Tallied) (chain : Chain mayStart old)
    (moves : Moves old new) (counts : Counts old new) : new.Tallied := by
  have operations := Prod.mk.inj counts.operations
  refine ⟨?_, ?_, ?_⟩
  · rw [operations.1, countedCalls_congr moves counts, tallied.scopes]
  · rw [operations.2, countedCalls_congr moves counts, tallied.tasks]
  · intro call call_lt
    rw [moves.nextCall] at call_lt
    have known := chain.calls call call_lt
    rw [(moves.call call).guarded, (moves.call call).result, counts.counted call,
      moves.heap.derivations _ known.guarded_lt _ known.result_lt, tallied.finallies call call_lt]

/-- The promise that a call returned names the call. -/
theorem Chain.call_of_result (chain : Chain mayStart host) {call other : ℕ}
    (call_lt : call < host.nextCall) (other_lt : other < host.nextCall)
    (same : (host.calls other).result = (host.calls call).result) : other = call := by
  have origin := (chain.calls call call_lt).origin_result
  rw [← same, (chain.calls other other_lt).origin_result] at origin
  exact Origin.result.inj origin

/-- The promise that a call returned is derived by the handler of `.finally` only. -/
theorem Chain.finally_of_handler (chain : Chain mayStart host) {source call : ℕ}
    {handler : Handler Callback Plain} (call_lt : call < host.nextCall)
    (fits : host.HandlerOk source handler (some (host.calls call).result)) :
    finallyOf handler = some call := by
  have underived : ¬ host.DerivesAll source (some (host.calls call).result) := by
    intro derives
    have derived := (derives _ rfl).2
    unfold Derives at derived
    rwa [(chain.calls call call_lt).origin_result] at derived
  cases handler with
  | identity => exact absurd fits underived
  | thrower => exact absurd fits underived
  | valueThunk value => exact absurd fits.2 underived
  | throwThunk reason => exact absurd fits.2 underived
  | resolve target => exact absurd fits.2.2 (by simp)
  | reject target => exact absurd fits.2.2 (by simp)
  | callback code =>
      cases code with
      | program => exact absurd fits underived
      | run other => exact fits.elim
      | markFailed other => exact absurd fits underived
      | thenFinally other =>
          exact congrArg some (chain.call_of_result call_lt fits.1 (Option.some.inj fits.2.2).symm)
      | catchFinally other =>
          exact congrArg some (chain.call_of_result call_lt fits.1 (Option.some.inj fits.2.2).symm)

/-- The call whose `.finally` the job runs. -/
def finallyOfJob : Job Callback Plain → Option ℕ
  | .reaction _ handler _ _ => finallyOf handler
  | .adopt _ _ | .callThen _ _ => none

theorem Chain.finally_of_derives (chain : Chain mayStart host) {job : Job Callback Plain}
    (queued : JobOk mayStart host job) {call : ℕ} (call_lt : call < host.nextCall)
    (derives : job.derives (host.calls call).guarded (host.calls call).result = true) :
    finallyOfJob job = some call := by
  cases job with
  | adopt target source => cases derives
  | callThen target object => cases derives
  | reaction source handler argument capability =>
      obtain ⟨rfl, rfl⟩ : source = (host.calls call).guarded ∧
          capability = some (host.calls call).result := by simpa [Job.derives] using derives
      obtain ⟨_, _, _, fits | ⟨other, other_lt, _, _, isBody⟩⟩ := queued
      · exact chain.finally_of_handler call_lt fits
      · have origin := (chain.calls call call_lt).origin_result
        rw [Option.some.inj isBody, (chain.calls other other_lt).origin_body] at origin
        cases origin

/-! ### The release of a call -/

theorem release_calls_of_ne {call other : ℕ} (different : other ≠ call) :
    (host.release call).calls other = host.calls other := by
  unfold Host.release
  split <;> exact Function.update_of_ne different _ _

theorem countedCalls_release (call : ℕ) (tasks : Bool) :
    (host.release call).countedCalls tasks = (host.countedCalls tasks).erase call := by
  ext other
  rw [Finset.mem_erase, mem_countedCalls, mem_countedCalls, release_nextCall]
  by_cases same : other = call
  · subst same
    simp [release_counted]
  · simp [release_calls_of_ne same, same]

/-- The counter that goes down is the one that counts the call. -/
theorem release_operations {call : ℕ}
    (tallied : host.activeScopes = (host.countedCalls false).card ∧
      host.activeTasks = (host.countedCalls true).card)
    (call_lt : call < host.nextCall) (counted : (host.calls call).counted = true) :
    (host.release call).activeScopes = ((host.release call).countedCalls false).card ∧
      (host.release call).activeTasks = ((host.release call).countedCalls true).card := by
  rw [countedCalls_release, countedCalls_release]
  have mine : call ∈ host.countedCalls (host.calls call).owner.isSome :=
    mem_countedCalls.mpr ⟨call_lt, rfl, counted⟩
  have less := Finset.card_erase_add_one mine
  have others : call ∉ host.countedCalls (!(host.calls call).owner.isSome) := by
    intro other
    exact (Bool.eq_not_self _).mp (mem_countedCalls.mp other).2.1
  rw [← Finset.erase_eq_self] at others
  unfold Host.release
  split
  · next owner =>
      rw [owner] at less others
      simp only [Option.isSome_none, Bool.not_false] at less others
      dsimp only
      rw [others]
      exact ⟨by rw [tallied.1]; omega, tallied.2⟩
  · next owner =>
      rw [owner] at less others
      simp only [Option.isSome_some, Bool.not_true] at less others
      dsimp only
      rw [others]
      exact ⟨tallied.1, by rw [tallied.2]; omega⟩

/-- The one handler of a `.finally` runs: the call was counted and is released. -/
theorem Tallied.release (tallied : host.Tallied) (chain : Chain mayStart host) {call : ℕ}
    {oldest : Job Callback Plain} {rest : List (Job Callback Plain)}
    (queue : host.heap.jobs = oldest :: rest) (call_lt : call < host.nextCall)
    (runs : oldest.derives (host.calls call).guarded (host.calls call).result = true) :
    ((host.popped rest).release call).Tallied := by
  have queued : JobOk mayStart host oldest := chain.heap.queued oldest (by simp [queue])
  have once := tallied.finallies call call_lt
  rw [Heap.derivations_pop queue, if_pos runs] at once
  have counted : (host.calls call).counted = true := by
    by_contra released
    rw [if_neg released] at once
    omega
  have popped : (host.popped rest).activeScopes = ((host.popped rest).countedCalls false).card ∧
      (host.popped rest).activeTasks = ((host.popped rest).countedCalls true).card :=
    ⟨tallied.scopes, tallied.tasks⟩
  obtain ⟨scopes, tasks⟩ := release_operations popped call_lt counted
  refine ⟨scopes, tasks, ?_⟩
  intro other other_lt
  rw [release_nextCall] at other_lt
  have kept := (still_release (host.popped rest) call).call other
  have heap : ((host.popped rest).release call).heap = { host.heap with jobs := rest } := by
    unfold Host.release
    split <;> rfl
  rw [heap, kept.guarded, kept.result]
  by_cases same : other = call
  · subst same
    rw [if_pos counted] at once
    rw [release_counted]
    exact Nat.succ.inj once
  · rw [release_calls_of_ne same]
    have before := tallied.finallies other other_lt
    have apart : ¬ oldest.derives (host.calls other).guarded (host.calls other).result = true := by
      intro twice
      have first := chain.finally_of_derives queued call_lt runs
      have second := chain.finally_of_derives queued other_lt twice
      exact same (Option.some.inj (second.symm.trans first))
    rwa [Heap.derivations_pop queue, if_neg apart] at before

theorem Tallied.popped (tallied : host.Tallied) (chain : Chain mayStart host)
    {oldest : Job Callback Plain} {rest : List (Job Callback Plain)}
    (queue : host.heap.jobs = oldest :: rest) (other : finallyOfJob oldest = none) :
    (host.popped rest).Tallied := by
  have queued : JobOk mayStart host oldest := chain.heap.queued oldest (by simp [queue])
  refine ⟨tallied.scopes, tallied.tasks, ?_⟩
  intro call call_lt
  have before := tallied.finallies call call_lt
  have apart : ¬ oldest.derives (host.calls call).guarded (host.calls call).result = true := by
    intro derives
    rw [chain.finally_of_derives queued call_lt derives] at other
    cases other
  rwa [Heap.derivations_pop queue, if_neg apart] at before

theorem counts_runJob {job : Job Callback Plain} (other : finallyOfJob job = none) :
    Counts host (host.runJob job) := by
  cases job with
  | reaction source handler argument capability => exact counts_runHandler argument capability other
  | adopt target source => exact ⟨rfl, fun _ => rfl⟩
  | callThen target object => exact ⟨rfl, fun _ => rfl⟩

/-- The job of a `.finally` hands on from the guarded promise of its call to the promise
that the call returned. -/
theorem runs_finally {job : Job Callback Plain} (queued : JobOk mayStart host job) {call : ℕ}
    (found : finallyOfJob job = some call) :
    call < host.nextCall ∧
      job.derives (host.calls call).guarded (host.calls call).result = true ∧
        host.heap.Settled (host.calls call).guarded ∧
          ∃ thunk, ∀ other : Host,
            other.runJob job = other.runFinally call thunk (some (host.calls call).result) := by
  cases job with
  | adopt target source => cases found
  | callThen target object => cases found
  | reaction source handler argument capability =>
      obtain ⟨_, settled, _, fits⟩ := queued
      have shape : handler = .callback (.thenFinally call) ∨
          handler = .callback (.catchFinally call) := by
        have found : finallyOf handler = some call := found
        unfold finallyOf at found
        split at found <;> simp_all
      rcases shape with rfl | rfl
      · obtain ⟨call_lt, rfl, rfl⟩ := fits.resolve_right (by rintro ⟨_, _, run, _⟩; cases run)
        exact ⟨call_lt, by simp [Job.derives], settled, .valueThunk argument, fun _ => rfl⟩
      · obtain ⟨call_lt, rfl, rfl⟩ := fits.resolve_right (by rintro ⟨_, _, run, _⟩; cases run)
        exact ⟨call_lt, by simp [Job.derives], settled, .throwThunk argument, fun _ => rfl⟩

theorem Tallied.job (tallied : host.Tallied) (tracked : host.Tracked)
    (chain : Chain mayStart host) {oldest : Job Callback Plain}
    {rest : List (Job Callback Plain)} (queue : host.heap.jobs = oldest :: rest) :
    ((host.popped rest).runJob oldest).Tallied := by
  have queued : JobOk mayStart host oldest := chain.heap.queued oldest (by simp [queue])
  have popped : Chain mayStart (host.popped rest) := (chain.popJob queue).chain
  have bodies : (host.popped rest).OwnBodies := tracked.bodies
  cases found : finallyOfJob oldest with
  | none =>
      exact (tallied.popped chain queue found).counts popped (chain.moves_job tracked.bodies queue)
        (counts_runJob found)
  | some call =>
      obtain ⟨call_lt, derives, settled, thunk, runs⟩ := runs_finally queued found
      have result_lt : ∀ promise ∈ some (host.calls call).result,
          promise < (host.popped rest).heap.next := by
        intro promise mem
        obtain rfl : (host.calls call).result = promise := by simpa using mem
        exact (chain.calls call call_lt).result_lt
      rw [runs]
      exact (tallied.release chain queue call_lt derives).counts (popped.release settled).chain
        (moves_released bodies call thunk result_lt) (counts_runFinally call thunk _)

/-! ### The actions of a program -/

/-- An action is quiet, or it is one of the two calls and is accepted. -/
theorem act_quiet {frame : Frame} {action : Action} (bodies : host.OwnBodies)
    (chain : Chain mayStart host) (running : host.frame = some frame)
    (move : ActionMove host frame action new) :
    Moves host new ∧ Counts host new ∨ new = (host.scope true).1 ∨
      ∃ owner, (host.calls owner).failed = false ∧ new = (host.async owner true).1 := by
  cases move with
  | newPromise =>
      exact Or.inl ⟨((still_newPromise (by simp)).trans still_control).moves, rfl, fun _ => rfl⟩
  | useResolver held exposed =>
      exact Or.inl ⟨moves_useResolver bodies (chain.resolvers _ held).1 _, counts_useResolver _ _⟩
  | andThen exposed => exact Or.inl ⟨(still_andThen (by simp)).moves, rfl, fun _ => rfl⟩
  | await exposed => exact Or.inl ⟨(still_performThen rfl).moves, rfl, fun _ => rfl⟩
  | scope callable =>
      cases callable with
      | true => exact Or.inr (Or.inl rfl)
      | false => exact Or.inl ⟨still_control.moves, .refl host⟩
  | @async owner callable _ =>
      cases callable with
      | false => exact Or.inl ⟨still_control.moves, .refl host⟩
      | true =>
          cases flag : (host.calls owner).failed with
          | false => exact Or.inr (Or.inr ⟨owner, flag, rfl⟩)
          | true =>
              left
              have refused : (host.async owner true).1 = host.promiseReject
                  (runtimeError "ECANCELED" "Scope already failed" "scope.async") := by
                simp [Host.async, flag]
              rw [refused]
              exact ⟨still_promiseReject.moves, rfl, fun _ => rfl⟩
  | leave exposed =>
      exact Or.inl ⟨moves_leave bodies (chain.frame frame (by simp [running])) _, counts_leave _ _⟩

/-! ### Accepted calls -/

/-- A call is accepted: its promises are made and connected, and it is counted. -/
structure Accepts (host new : Host) (record : Call) : Prop where
  nextCall : new.nextCall = host.nextCall + 1
  calls : new.calls = Function.update host.calls host.nextCall record
  heap : host.heap.Carries new.heap
  origin : ∀ promise < new.heap.next, ∀ call, new.origin promise = .body call →
    promise < host.heap.next ∧ host.origin promise = .body call ∨
      call = host.nextCall ∧ promise = record.body
  ended : record.ended = []
  counted : record.counted = true
  once : new.heap.derivations record.guarded record.result = 1
  guards : record.guarded = record.body ∨
    new.heap.OnItsWay record.body (catchReaction host.nextCall record.guarded)
  scopes : new.activeScopes = host.activeScopes + if record.owner.isSome = false then 1 else 0
  tasks : new.activeTasks = host.activeTasks + if record.owner.isSome = true then 1 else 0

section

variable {record : Call}

theorem Accepts.call_self (accepts : Accepts host new record) :
    new.calls host.nextCall = record := by
  rw [accepts.calls, Function.update_self]

theorem Accepts.call_of_lt (accepts : Accepts host new record) {call : ℕ}
    (call_lt : call < host.nextCall) : new.calls call = host.calls call := by
  rw [accepts.calls, Function.update_of_ne (Nat.ne_of_lt call_lt)]

theorem Accepts.cases (accepts : Accepts host new record) {call : ℕ}
    (call_lt : call < new.nextCall) : call < host.nextCall ∨ call = host.nextCall := by
  rw [accepts.nextCall] at call_lt
  exact Nat.lt_succ_iff_lt_or_eq.mp call_lt

theorem Accepts.card_countedCalls (accepts : Accepts host new record) (tasks : Bool) :
    (new.countedCalls tasks).card =
      (host.countedCalls tasks).card + if record.owner.isSome = tasks then 1 else 0 := by
  have fresh : host.nextCall ∉ host.countedCalls tasks := by
    intro mem
    exact Nat.lt_irrefl _ (mem_countedCalls.mp mem).1
  split_ifs with mine
  · rw [← Finset.card_insert_of_notMem fresh]
    congr 1
    ext call
    rw [Finset.mem_insert, mem_countedCalls, mem_countedCalls]
    constructor
    · rintro ⟨call_lt, owner, counted⟩
      rcases accepts.cases call_lt with old_lt | rfl
      · rw [accepts.call_of_lt old_lt] at owner counted
        exact Or.inr ⟨old_lt, owner, counted⟩
      · exact Or.inl rfl
    · rintro (rfl | ⟨call_lt, owner, counted⟩)
      · rw [accepts.call_self, accepts.nextCall]
        exact ⟨Nat.lt_succ_self _, mine, accepts.counted⟩
      · rw [accepts.call_of_lt call_lt, accepts.nextCall]
        exact ⟨Nat.lt_succ_of_lt call_lt, owner, counted⟩
  · rw [Nat.add_zero]
    congr 1
    ext call
    rw [mem_countedCalls, mem_countedCalls]
    constructor
    · rintro ⟨call_lt, owner, counted⟩
      rcases accepts.cases call_lt with old_lt | rfl
      · rw [accepts.call_of_lt old_lt] at owner counted
        exact ⟨old_lt, owner, counted⟩
      · rw [accepts.call_self] at owner
        exact absurd owner mine
    · rintro ⟨call_lt, owner, counted⟩
      rw [accepts.call_of_lt call_lt, accepts.nextCall]
      exact ⟨Nat.lt_succ_of_lt call_lt, owner, counted⟩

theorem Tallied.accepts (tallied : host.Tallied) (chain : Chain mayStart host)
    (accepts : Accepts host new record) : new.Tallied := by
  refine ⟨?_, ?_, ?_⟩
  · rw [accepts.scopes, accepts.card_countedCalls, tallied.scopes]
    split_ifs <;> simp
  · rw [accepts.tasks, accepts.card_countedCalls, tallied.tasks]
    split_ifs <;> simp
  · intro call call_lt
    rcases accepts.cases call_lt with old_lt | rfl
    · have known := chain.calls call old_lt
      rw [accepts.call_of_lt old_lt, accepts.heap.derivations _ known.guarded_lt _ known.result_lt]
      exact tallied.finallies call old_lt
    · rw [accepts.call_self, accepts.once, accepts.counted]
      rfl

theorem Tracked.accepts (tracked : host.Tracked) (chain : Chain mayStart host)
    (accepts : Accepts host new record) : new.Tracked where
  bodies promise below call isBody := by
    rcases accepts.origin promise below call isBody with ⟨old_lt, before⟩ | ⟨rfl, same⟩
    · have call_lt := chain.origins promise old_lt
      rw [before] at call_lt
      rw [accepts.call_of_lt call_lt]
      exact tracked.bodies promise old_lt call before
    · rw [accepts.call_self]
      exact same
  guards call call_lt := by
    rcases accepts.cases call_lt with old_lt | rfl
    · have known := chain.calls call old_lt
      rw [accepts.call_of_lt old_lt]
      rcases tracked.guards call old_lt with settled | same | way
      · exact Or.inl (accepts.heap.settled known.guarded_lt settled)
      · exact Or.inr (Or.inl same)
      · exact Or.inr (Or.inr (accepts.heap.onItsWay _ known.body_lt _ way))
    · rw [accepts.call_self]
      exact Or.inr accepts.guards
  follows call call_lt completion mem := by
    rcases accepts.cases call_lt with old_lt | rfl
    · have known := chain.calls call old_lt
      rw [accepts.call_of_lt old_lt] at mem ⊢
      exact (tracked.follows call old_lt completion mem).carry accepts.heap known.body_lt
        (known.ended_below completion mem)
    · rw [accepts.call_self, accepts.ended] at mem
      cases mem

end

/-- Nothing is on its way to a promise that does not exist. -/
theorem Chain.derivations_fresh (chain : Chain mayStart host) {target : ℕ}
    (fresh : host.heap.next ≤ target) (source : ℕ) : host.heap.derivations source target = 0 := by
  refine Nat.add_eq_zero_iff.mpr ⟨List.countP_eq_zero.mpr ?_, List.countP_eq_zero.mpr ?_⟩
  · intro reaction waits hands
    have below := chain.capability_lt (chain.heap.waiting source reaction waits).2.1 target
      (by simpa using hands)
    exact absurd below (Nat.not_lt_of_le fresh)
  · intro job queued derives
    cases job with
    | adopt target source => cases derives
    | callThen target object => cases derives
    | reaction settled handler argument capability =>
        have hands : settled = source ∧ capability = some target := by
          simpa [Job.derives] using derives
        have below := chain.queued_capability_lt queued target hands.2
        exact absurd below (Nat.not_lt_of_le fresh)

theorem carries_startedHeap (heap : Heap Callback Plain) (call : ℕ) :
    heap.Carries (startedHeap heap call) :=
  ((Heap.carries_create.trans Heap.carries_settle).trans Heap.carries_create).performThen_new
    (Nat.le_succ _)

/-- Nothing is on its way to the promises that are chained on the body. -/
theorem Chain.derivations_startedHeap (chain : Chain mayStart host) {call target : ℕ}
    (fresh : host.heap.next + 1 < target) (source : ℕ) :
    (startedHeap host.heap call).derivations source target = 0 := by
  unfold startedHeap
  rw [Heap.derivations_performThen]
  · refine Nat.le_zero.mp ((Heap.derivations_create_le _ source target).trans ?_)
    rw [Heap.derivations_settle]
    refine (Heap.derivations_create_le _ source target).trans ?_
    exact (chain.derivations_fresh (by omega) source).le
  · rintro ⟨_, same⟩
    exact Nat.ne_of_lt fresh (Option.some.inj same)

theorem Chain.accepts_scope (chain : Chain mayStart host) :
    Accepts host (host.scope true).1
      { owner := none, body := host.heap.next + 1, guarded := host.heap.next + 1,
        result := host.heap.next + 2 } := by
  rw [scope_accepts]
  refine ⟨rfl, rfl, ?heap, ?origin, rfl, rfl, ?once, Or.inl rfl, rfl, (Int.add_zero _).symm⟩
  case heap =>
    have started := carries_startedHeap host.heap host.nextCall
    exact (started.trans Heap.carries_create).performThen_new (Nat.le_add_right _ _)
  case origin =>
    intro promise below call isBody
    simp only [Heap.next_performThen, Heap.next_create, startedHeap_next] at below
    rcases Nat.lt_or_ge promise host.heap.next with old_lt | added
    · simp (disch := omega) only [Function.update_of_ne] at isBody
      exact Or.inl ⟨old_lt, isBody⟩
    · obtain rfl | rfl | rfl : promise = host.heap.next ∨ promise = host.heap.next + 1 ∨
          promise = host.heap.next + 2 := by omega
      · simp at isBody
      · have named : host.nextCall = call := by simpa using isBody
        exact Or.inr ⟨named.symm, rfl⟩
      · simp at isBody
  case once =>
    rw [Heap.derivations_performThen_self rfl]
    refine congrArg (· + 1) (Nat.le_zero.mp ?_)
    refine (Heap.derivations_create_le _ _ _).trans ?_
    exact (chain.derivations_startedHeap (Nat.lt_succ_self _) _).le

theorem Chain.accepts_async (chain : Chain mayStart host) {owner : ℕ}
    (flag : (host.calls owner).failed = false) :
    Accepts host (host.async owner true).1
      { owner := some owner, body := host.heap.next + 1, guarded := host.heap.next + 2,
        result := host.heap.next + 3 } := by
  rw [async_accepts flag]
  refine ⟨rfl, rfl, ?heap, ?origin, rfl, rfl, ?once, Or.inr ?guards, (Int.add_zero _).symm, rfl⟩
  case heap =>
    have started := carries_startedHeap host.heap host.nextCall
    refine (Heap.Carries.trans ?_ Heap.carries_create).performThen_new (Nat.le_add_right _ _)
    exact (started.trans Heap.carries_create).performThen_new (Nat.le_add_right _ _)
  case origin =>
    intro promise below call isBody
    simp only [Heap.next_performThen, Heap.next_create, startedHeap_next] at below
    rcases Nat.lt_or_ge promise host.heap.next with old_lt | added
    · simp (disch := omega) only [Function.update_of_ne] at isBody
      exact Or.inl ⟨old_lt, isBody⟩
    · obtain rfl | rfl | rfl | rfl : promise = host.heap.next ∨ promise = host.heap.next + 1 ∨
          promise = host.heap.next + 2 ∨ promise = host.heap.next + 3 := by omega
      · simp at isBody
      · have named : host.nextCall = call := by simpa using isBody
        exact Or.inr ⟨named.symm, rfl⟩
      · simp at isBody
      · simp at isBody
  case once =>
    rw [Heap.derivations_performThen_self rfl]
    refine congrArg (· + 1) (Nat.le_zero.mp ?_)
    refine (Heap.derivations_create_le _ _ _).trans ?_
    rw [Heap.derivations_performThen (by simp)]
    refine (Heap.derivations_create_le _ _ _).trans ?_
    exact (chain.derivations_startedHeap (by simp) _).le
  case guards =>
    refine Heap.OnItsWay.performThen (Heap.carries_create.onItsWay _ ?_ _ ?_)
    · simp only [Heap.next_performThen, Heap.next_create, startedHeap_next]
      omega
    · exact Heap.onItsWay_performThen _ _ _

/-! ### Runs -/

theorem Tracked.initial : Host.initial.Tracked where
  bodies promise below := absurd below (Nat.not_lt_zero promise)
  guards call call_lt := absurd call_lt (Nat.not_lt_zero call)
  follows call call_lt := absurd call_lt (Nat.not_lt_zero call)

theorem Tallied.initial : Host.initial.Tallied where
  scopes := rfl
  tasks := rfl
  finallies call call_lt := absurd call_lt (Nat.not_lt_zero call)

/-- Every step keeps track of the calls and keeps the counters exact. -/
theorem tallied_step {event : Event} (chain : Chain mayStart host) (tracked : host.Tracked)
    (tallied : host.Tallied) (taken : host.step event = some new) :
    new.Tracked ∧ new.Tallied := by
  cases step_move taken with
  | enter =>
      have entered : Moves host { host with frame := some (.callback none) } := still_control.moves
      exact ⟨tracked.moves chain entered, tallied.counts chain entered ⟨rfl, fun _ => rfl⟩⟩
  | job queue =>
      have moves := chain.moves_job tracked.bodies queue
      exact ⟨tracked.job chain queue moves, tallied.job tracked chain queue⟩
  | act running move =>
      rcases act_quiet tracked.bodies chain running move with
        ⟨moves, counts⟩ | rfl | ⟨owner, flag, rfl⟩
      · exact ⟨tracked.moves chain moves, tallied.counts chain moves counts⟩
      · have accepts := chain.accepts_scope
        exact ⟨tracked.accepts chain accepts, tallied.accepts chain accepts⟩
      · have accepts := chain.accepts_async flag
        exact ⟨tracked.accepts chain accepts, tallied.accepts chain accepts⟩

theorem tallied_of_reachable (reached : Reachable Host.step Host.initial host) :
    host.Tracked ∧ host.Tallied := by
  apply reached.invariant_given fun _ => chain_of_reachable
  · exact ⟨.initial, .initial⟩
  · rintro state event target chain ⟨tracked, tallied⟩ _ taken
    exact tallied_step chain tracked tallied taken

/-- With an empty queue a call whose function is over is released. -/
theorem Tallied.released_of_idle (tallied : host.Tallied) (tracked : host.Tracked)
    (idle : host.heap.jobs = []) {call : ℕ} (call_lt : call < host.nextCall)
    (finished : host.Over call) : (host.calls call).counted = false := by
  have settled := tracked.settled_of_idle idle call_lt finished
  have none_left := tallied.finallies call call_lt
  rw [Heap.derivations_of_idle idle settled] at none_left
  by_contra counted
  rw [if_pos (Bool.not_eq_false _ ▸ counted)] at none_left
  cases none_left

/-- A released call is never counted again. -/
theorem Chain.released_later {later : Host} (chain : Chain (fun _ => True) host)
    (reached : Reachable Host.step host later) {call : ℕ} (call_lt : call < host.nextCall)
    (released : (host.calls call).counted = false) : (later.calls call).counted = false := by
  have extended : Chain (fun _ => True) later ∧ host.Extends later := by
    apply reached.invariant
    · exact ⟨chain, .refl host⟩
    · rintro state event target ⟨chain, extended⟩ _ taken
      have advances := chain.step trivial taken
      exact ⟨advances.chain, extended.trans advances.later⟩
  exact (extended.2.call call call_lt).counted released

/-! ### Refused calls -/

/-- The value is an error of the bootstrap with the code. -/
def hasCode (code : String) : JsValue → Bool
  | .plain (.error error) => error.code = code
  | _ => false

/-- What a call of the bootstrap completes with. -/
def answer (host : Host) : Action → Option JsCompletion
  | .scope callable => some (host.scope callable).2
  | .async owner callable => some (host.async owner callable).2
  | _ => none

/-- The completion refuses the call: it throws an `EINVAL` error, or it returns a promise
that is rejected with an `ECANCELED` error. -/
def Refuses (host : Host) : JsCompletion → Prop
  | .threw reason => hasCode "EINVAL" reason = true
  | .returned (.promise promise) =>
      ∃ reason, host.heap.outcome promise = some (.rejected reason) ∧
        hasCode "ECANCELED" reason = true
  | .returned _ => False

/-- A call that is accepted returns a pending promise, so a refused one is not counted. -/
theorem refused_operations {action : Action} {completion : JsCompletion}
    (taken : host.step (.act action) = some new) (answered : host.answer action = some completion)
    (refused : new.Refuses completion) : new.activeOperations = host.activeOperations := by
  obtain ⟨frame, _, acted⟩ := Option.bind_eq_some_iff.mp taken
  cases action with
  | scope callable =>
      cases acted
      cases answered
      cases callable with
      | false => rfl
      | true =>
          obtain ⟨reason, rejected, _⟩ := refused
          rw [scope_accepts] at rejected
          simp at rejected
  | async owner callable =>
      obtain ⟨_, acted⟩ := Option.ite_none_right_eq_some.mp acted
      cases acted
      cases answered
      cases callable with
      | false => rfl
      | true =>
          cases flag : (host.calls owner).failed with
          | true => simp [Host.async, flag, activeOperations, promiseReject, newPromise]
          | false =>
              have returned : (host.async owner true).2 =
                  .returned (.promise (host.heap.next + 3)) := by simp [Host.async, flag]
              rw [returned] at refused
              obtain ⟨reason, rejected, _⟩ := refused
              rw [async_accepts flag] at rejected
              simp at rejected
  | _ => cases answered

/-! ### The counters of all runs -/

/-- What `Kode.activeOperations()` says in a state. -/
structure OperationsExact (host : Host) : Prop where
  /-- The counters are the numbers of accepted calls whose `.finally` callback has not run. -/
  exact : host.activeScopes = (host.countedCalls false).card ∧
    host.activeTasks = (host.countedCalls true).card
  /-- Of such a call one handler of `.finally` waits or is queued, and of other calls none. -/
  finallies : ∀ call < host.nextCall,
    host.heap.derivations (host.calls call).guarded (host.calls call).result =
      if (host.calls call).counted then 1 else 0
  nonneg : 0 ≤ host.activeScopes ∧ 0 ≤ host.activeTasks
  /-- A refused call changes neither counter. -/
  refused : ∀ action new completion, host.step (.act action) = some new →
    host.answer action = some completion → new.Refuses completion →
      new.activeOperations = host.activeOperations
  /-- A call is not counted when a continuation of its promise is queued, nor later. -/
  continued : ∀ call < host.nextCall, ∀ handler argument capability,
    .reaction (host.calls call).result handler argument capability ∈ host.heap.jobs →
      ∀ later, Reachable Host.step host later → (later.calls call).counted = false
  /-- When every function is over and no microtask is left, nothing is counted. -/
  idle : host.heap.jobs = [] → (∀ call < host.nextCall, host.Over call) →
    host.activeOperations = (0, 0)

/-- In every state of every run the counters are exact. -/
theorem activeOperations_exact (reached : Reachable Host.step Host.initial host) :
    host.OperationsExact := by
  have chain := chain_of_reachable reached
  obtain ⟨tracked, tallied⟩ := tallied_of_reachable reached
  refine ⟨⟨tallied.scopes, tallied.tasks⟩, tallied.finallies, ⟨?_, ?_⟩,
    fun _ _ _ => refused_operations, ?_, ?_⟩
  · rw [tallied.scopes]
    exact Int.natCast_nonneg _
  · rw [tallied.tasks]
    exact Int.natCast_nonneg _
  · intro call call_lt handler argument capability queued later reached
    have released := chain.released_of_result call_lt (chain.settled_of_queued queued)
    exact chain.released_later reached call_lt released
  · intro idle finished
    have nothing (tasks : Bool) : host.countedCalls tasks = ∅ := by
      rw [Finset.eq_empty_iff_forall_notMem]
      intro call mem
      obtain ⟨call_lt, _, counted⟩ := mem_countedCalls.mp mem
      rw [tallied.released_of_idle tracked idle call_lt (finished call call_lt)] at counted
      cases counted
    refine Prod.ext ?_ ?_
    · exact tallied.scopes.trans (by rw [nothing]; rfl)
    · exact tallied.tasks.trans (by rw [nothing]; rfl)

/-- A scope with one task that it does not await: the task ends in an exception, and
every microtask runs. -/
theorem activeOperations_exact_unawaited :
    ∃ host, Reachable Host.step Host.initial host ∧ host.nextCall = 2 ∧
      (host.calls 1).owner = some 0 ∧ host.activeOperations = (0, 0) := by
  have evaluated : (runSteps Host.step Host.initial (List.flatten
      [enterScopeRun, [.act (.async 0 true), .act (.returns (.plain .undefined)), .job,
        .act (.throws (.plain (.other 1)))],
      List.replicate 9 .job])).map
      (fun host => (host.nextCall, (host.calls 1).owner, host.heap.jobs.length,
        decide (∀ call < host.nextCall, host.Over call))) = some (2, some 0, 0, true) := by
    decide
  obtain ⟨host, ran, facts⟩ := Option.map_eq_some_iff.mp evaluated
  simp only [Prod.mk.injEq, decide_eq_true_eq, List.length_eq_zero_iff] at facts
  obtain ⟨accepted, owned, idle, finished⟩ := facts
  have reached : Reachable Host.step Host.initial host := reachable_of_runSteps ran
  exact ⟨host, reached, accepted, owned, (activeOperations_exact reached).idle idle finished⟩

end Kode.Scope.Host
