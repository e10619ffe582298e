/-
# What settles the promises of a call

The promises of an accepted call form a chain, and each of them settles only after
something has happened: the body after the function of the call is over, the promise
of `.catch` after the body, and the promise returned to the program after the
callback of `.finally` has run. `Chain` states this for every settled promise,
together with the shapes of reactions, jobs and frames that keep it true; it is an
invariant of all runs.

The conditions refer to facts of the state that never become false again. `Extends`
collects these facts, so that a condition that held before a step holds after it.
The invariant carries a set of calls whose functions may still be queued to start;
it is a parameter, to follow where these jobs come from.
-/

import Kode.Scope.Bootstrap

namespace Kode.Scope

open Kode.Library.Promise

/-- The call that an origin names exists. -/
def Origin.Below (bound : ℕ) : Origin → Prop
  | .program | .internal => True
  | .body call | .guarded call | .result call => call < bound

theorem Origin.Below.mono {bound larger : ℕ} (le : bound ≤ larger) {origin : Origin}
    (below : origin.Below bound) : origin.Below larger := by
  cases origin with
  | program => trivial
  | internal => trivial
  | body call => exact Nat.lt_of_lt_of_le below le
  | guarded call => exact Nat.lt_of_lt_of_le below le
  | result call => exact Nat.lt_of_lt_of_le below le

/-- Nothing that is known of a call changes, except that its function may get further. -/
structure Call.Extends (old new : Call) : Prop where
  owner : new.owner = old.owner
  body : new.body = old.body
  guarded : new.guarded = old.guarded
  result : new.result = old.result
  counted : old.counted = false → new.counted = false
  entered : old.entered = true → new.entered = true
  ended : ∀ completion ∈ old.ended, completion ∈ new.ended

theorem Call.Extends.refl (call : Call) : call.Extends call :=
  ⟨rfl, rfl, rfl, rfl, id, id, fun _ mem => mem⟩

theorem Call.Extends.trans {old middle new : Call} (first : old.Extends middle)
    (second : middle.Extends new) : old.Extends new where
  owner := second.owner.trans first.owner
  body := second.body.trans first.body
  guarded := second.guarded.trans first.guarded
  result := second.result.trans first.result
  counted := second.counted ∘ first.counted
  entered := second.entered ∘ first.entered
  ended := fun completion mem => second.ended completion (first.ended completion mem)

namespace Host

/-- What the function of a call ended with is final: an exception, a value that is no
promise, or a promise that has settled. -/
def Decides (host : Host) : JsCompletion → Prop
  | .threw _ | .returned (.plain _) => True
  | .returned (.promise promise) => host.heap.Settled promise
  | .returned (.thenable _) => False

instance (host : Host) : DecidablePred host.Decides
  | .threw _ => .isTrue trivial
  | .returned (.plain _) => .isTrue trivial
  | .returned (.promise promise) => inferInstanceAs (Decidable (host.heap.Settled promise))
  | .returned (.thenable _) => .isFalse not_false

/-- The function of a call has come to its end: it has thrown or returned, and a
promise it returned has settled. -/
def Over (host : Host) (call : ℕ) : Prop :=
  ∃ completion ∈ (host.calls call).ended, host.Decides completion

instance (host : Host) (call : ℕ) : Decidable (host.Over call) :=
  inferInstanceAs (Decidable (∃ completion ∈ _, host.Decides completion))

/-- What must have happened before a promise settles. -/
def AllowsSettle (host : Host) (promise : ℕ) : Prop :=
  match host.origin promise with
  | .program | .internal => True
  | .body call => host.Over call
  | .guarded call => host.heap.Settled (host.calls call).body
  | .result call => (host.calls call).counted = false

section

variable {host : Host} {promise call : ℕ}

theorem allowsSettle_program (origin : host.origin promise = .program) :
    host.AllowsSettle promise := by
  simp [AllowsSettle, origin]

theorem allowsSettle_internal (origin : host.origin promise = .internal) :
    host.AllowsSettle promise := by
  simp [AllowsSettle, origin]

theorem allowsSettle_body (origin : host.origin promise = .body call) :
    host.AllowsSettle promise ↔ host.Over call := by
  simp [AllowsSettle, origin]

theorem allowsSettle_guarded (origin : host.origin promise = .guarded call) :
    host.AllowsSettle promise ↔ host.heap.Settled (host.calls call).body := by
  simp [AllowsSettle, origin]

theorem allowsSettle_result (origin : host.origin promise = .result call) :
    host.AllowsSettle promise ↔ (host.calls call).counted = false := by
  simp [AllowsSettle, origin]

end

/-- The promise may be handed a completion: handing it to the body of a call makes
the function of the call end. -/
def Receives (host : Host) (promise : ℕ) : Prop :=
  host.AllowsSettle promise ∨ ∃ call, host.origin promise = .body call

/-- The promise `target` may settle as `source` does. -/
def Adopts (host : Host) (target source : ℕ) : Prop :=
  host.AllowsSettle target ∨ ∃ call, host.origin target = .body call ∧
    .returned (.promise source) ∈ (host.calls call).ended

/-- A promise derived from `source` by a handler that completes at once or runs code of
the program. -/
def Derives (host : Host) (source promise : ℕ) : Prop :=
  match host.origin promise with
  | .program | .internal | .body _ => True
  | .guarded call => source = (host.calls call).body
  | .result _ => False

/-- The promise derived from `source`, if there is one, exists and may be derived. -/
def DerivesAll (host : Host) (source : ℕ) (capability : Option ℕ) : Prop :=
  ∀ promise ∈ capability, promise < host.heap.next ∧ host.Derives source promise

/-- A handler that waits for `source`, with the promise derived from it. The function
of a call never waits: its job is queued when the call is accepted. -/
def HandlerOk (host : Host) (source : ℕ) (handler : Handler Callback Plain)
    (capability : Option ℕ) : Prop :=
  match handler with
  | .identity | .thrower | .callback .program | .callback (.markFailed _) =>
      host.DerivesAll source capability
  | .valueThunk value | .throwThunk value =>
      value.Below host.heap.next ∧ host.DerivesAll source capability
  | .resolve target | .reject target =>
      target < host.heap.next ∧ host.Adopts target source ∧ capability = none
  | .callback (.run _) => False
  | .callback (.thenFinally call) | .callback (.catchFinally call) =>
      call < host.nextCall ∧ source = (host.calls call).guarded ∧
        capability = some (host.calls call).result

/-- A settled promise was allowed to settle. -/
def SettleOk (host : Host) (promise : ℕ) (result : Settlement Plain) : Prop :=
  promise < host.heap.next ∧ result.Below host.heap.next ∧ host.AllowsSettle promise

/-- Both handlers of a waiting reaction have the right shape. -/
def ReactionOk (host : Host) (source : ℕ) (reaction : Reaction Callback Plain) : Prop :=
  source < host.heap.next ∧ host.HandlerOk source reaction.onFulfilled reaction.capability ∧
    host.HandlerOk source reaction.onRejected reaction.capability

/-- The job that calls the function of a call. `mayStart` holds of the calls whose
functions may be queued. -/
def StartOk (mayStart : ℕ → Prop) (host : Host) (handler : Handler Callback Plain)
    (capability : Option ℕ) : Prop :=
  ∃ call < host.nextCall, handler = .callback (.run call) ∧ mayStart call ∧
    capability = some (host.calls call).body

/-- A queued job has the right shape, and its promise has settled. -/
def JobOk (mayStart : ℕ → Prop) (host : Host) : Job Callback Plain → Prop
  | .reaction source handler argument capability =>
      source < host.heap.next ∧ host.heap.Settled source ∧ argument.Below host.heap.next ∧
        (host.HandlerOk source handler capability ∨ StartOk mayStart host handler capability)
  | .adopt target source =>
      target < host.heap.next ∧ source < host.heap.next ∧ host.Adopts target source
  | .callThen target _ => target < host.heap.next ∧ host.Receives target

/-- The promises that the running code will complete. -/
def FrameOk (host : Host) : Frame → Prop
  | .callback capability =>
      ∀ promise ∈ capability, promise < host.heap.next ∧ host.Receives promise
  | .thenMethod target => target < host.heap.next

/-- The record of an accepted call. -/
structure CallOk (host : Host) (call : ℕ) : Prop where
  owner_lt : ∀ scope, (host.calls call).owner = some scope → scope < call
  body_lt : (host.calls call).body < host.heap.next
  guarded_lt : (host.calls call).guarded < host.heap.next
  result_lt : (host.calls call).result < host.heap.next
  origin_body : host.origin (host.calls call).body = .body call
  origin_guarded : host.origin (host.calls call).guarded = .guarded call ∨
    (host.calls call).guarded = (host.calls call).body
  origin_result : host.origin (host.calls call).result = .result call
  ended_below : ∀ completion ∈ (host.calls call).ended, completion.value.Below host.heap.next
  released : (host.calls call).counted = false → host.heap.Settled (host.calls call).guarded

/-- The invariant of all runs. -/
structure Chain (mayStart : ℕ → Prop) (host : Host) : Prop where
  heap : host.heap.Meets host.SettleOk host.ReactionOk (JobOk mayStart host)
  calls : ∀ call < host.nextCall, host.CallOk call
  origins : ∀ promise < host.heap.next, (host.origin promise).Below host.nextCall
  resolvers : ∀ promise, host.resolvers promise = true →
    promise < host.heap.next ∧ host.Receives promise
  frame : ∀ frame ∈ host.frame, host.FrameOk frame

/-- A later state: promises and calls are added, and what is known stays known. -/
structure Extends (old new : Host) : Prop where
  heap : old.heap.Grows new.heap
  nextCall_le : old.nextCall ≤ new.nextCall
  origin : ∀ promise < old.heap.next, new.origin promise = old.origin promise
  call : ∀ call < old.nextCall, (old.calls call).Extends (new.calls call)

theorem Extends.refl (host : Host) : host.Extends host :=
  ⟨Heap.Grows.refl _, Nat.le_refl _, fun _ _ => rfl, fun _ _ => .refl _⟩

theorem Extends.trans {old middle new : Host} (first : old.Extends middle)
    (second : middle.Extends new) : old.Extends new where
  heap := first.heap.trans second.heap
  nextCall_le := Nat.le_trans first.nextCall_le second.nextCall_le
  origin := by
    intro promise below
    rw [second.origin promise (Nat.lt_of_lt_of_le below first.heap.next_le),
      first.origin promise below]
  call := by
    intro call below
    exact (first.call call below).trans
      (second.call call (Nat.lt_of_lt_of_le below first.nextCall_le))

/-! ### What is known stays known -/

section Stable

variable {mayStart : ℕ → Prop} {old new host : Host} {promise source target call : ℕ}

theorem Decides.extend (grows : old.heap.Grows new.heap) {completion : JsCompletion}
    (below : completion.value.Below old.heap.next) (decides : old.Decides completion) :
    new.Decides completion := by
  cases completion with
  | threw reason => trivial
  | returned value =>
      cases value with
      | plain value => trivial
      | promise promise => exact grows.settled below decides
      | thenable object => exact decides

theorem Chain.over_extend (chain : Chain mayStart old) (later : old.Extends new)
    (below : call < old.nextCall) (finished : old.Over call) : new.Over call := by
  obtain ⟨completion, mem, decides⟩ := finished
  refine ⟨completion, (later.call call below).ended completion mem, ?_⟩
  exact decides.extend later.heap ((chain.calls call below).ended_below completion mem)

theorem Chain.allowsSettle_extend (chain : Chain mayStart old) (later : old.Extends new)
    (below : promise < old.heap.next) (allows : old.AllowsSettle promise) :
    new.AllowsSettle promise := by
  have bound := chain.origins promise below
  have same := later.origin promise below
  cases origin : old.origin promise with
  | program => exact allowsSettle_program (same.trans origin)
  | internal => exact allowsSettle_internal (same.trans origin)
  | body call =>
      rw [origin] at bound
      apply (allowsSettle_body (same.trans origin)).mpr
      exact chain.over_extend later bound ((allowsSettle_body origin).mp allows)
  | guarded call =>
      rw [origin] at bound
      apply (allowsSettle_guarded (same.trans origin)).mpr
      rw [(later.call call bound).body]
      exact later.heap.settled (chain.calls call bound).body_lt
        ((allowsSettle_guarded origin).mp allows)
  | result call =>
      rw [origin] at bound
      apply (allowsSettle_result (same.trans origin)).mpr
      exact (later.call call bound).counted ((allowsSettle_result origin).mp allows)

theorem Chain.receives_extend (chain : Chain mayStart old) (later : old.Extends new)
    (below : promise < old.heap.next) (receives : old.Receives promise) :
    new.Receives promise := by
  rcases receives with allows | ⟨call, origin⟩
  · exact .inl (chain.allowsSettle_extend later below allows)
  · exact .inr ⟨call, by rw [later.origin promise below, origin]⟩

theorem Chain.adopts_extend (chain : Chain mayStart old) (later : old.Extends new)
    (below : target < old.heap.next) (adopts : old.Adopts target source) :
    new.Adopts target source := by
  rcases adopts with allows | ⟨call, origin, mem⟩
  · exact .inl (chain.allowsSettle_extend later below allows)
  · have bound := chain.origins target below
    rw [origin] at bound
    refine .inr ⟨call, by rw [later.origin target below, origin], ?_⟩
    exact (later.call call bound).ended _ mem

theorem Chain.derives_extend (chain : Chain mayStart old) (later : old.Extends new)
    (below : promise < old.heap.next) (derives : old.Derives source promise) :
    new.Derives source promise := by
  have bound := chain.origins promise below
  unfold Derives at derives ⊢
  rw [later.origin promise below]
  cases found : old.origin promise with
  | program => trivial
  | internal => trivial
  | body call => trivial
  | guarded call =>
      rw [found] at derives bound
      exact derives.trans (later.call call bound).body.symm
  | result call =>
      rw [found] at derives
      exact derives

theorem Chain.derivesAll_extend (chain : Chain mayStart old) (later : old.Extends new)
    {capability : Option ℕ} (derives : old.DerivesAll source capability) :
    new.DerivesAll source capability := by
  intro promise mem
  obtain ⟨below, derived⟩ := derives promise mem
  exact ⟨Nat.lt_of_lt_of_le below later.heap.next_le,
    chain.derives_extend later below derived⟩

theorem Chain.handlerOk_extend (chain : Chain mayStart old) (later : old.Extends new)
    {handler : Handler Callback Plain} {capability : Option ℕ}
    (fits : old.HandlerOk source handler capability) :
    new.HandlerOk source handler capability := by
  have next_le := later.heap.next_le
  cases handler with
  | identity => exact chain.derivesAll_extend later fits
  | thrower => exact chain.derivesAll_extend later fits
  | valueThunk value => exact ⟨fits.1.mono next_le, chain.derivesAll_extend later fits.2⟩
  | throwThunk reason => exact ⟨fits.1.mono next_le, chain.derivesAll_extend later fits.2⟩
  | resolve target =>
      exact ⟨Nat.lt_of_lt_of_le fits.1 next_le, chain.adopts_extend later fits.1 fits.2.1,
        fits.2.2⟩
  | reject target =>
      exact ⟨Nat.lt_of_lt_of_le fits.1 next_le, chain.adopts_extend later fits.1 fits.2.1,
        fits.2.2⟩
  | callback code =>
      -- a call keeps the promises that `.finally` connects
      have finally_extend {call : ℕ} (fits : call < old.nextCall ∧
          source = (old.calls call).guarded ∧ capability = some (old.calls call).result) :
          call < new.nextCall ∧ source = (new.calls call).guarded ∧
            capability = some (new.calls call).result := by
        have kept := later.call call fits.1
        rw [kept.guarded, kept.result]
        exact ⟨Nat.lt_of_lt_of_le fits.1 later.nextCall_le, fits.2⟩
      cases code with
      | program => exact chain.derivesAll_extend later fits
      | run call => exact fits
      | markFailed call => exact chain.derivesAll_extend later fits
      | thenFinally call => exact finally_extend fits
      | catchFinally call => exact finally_extend fits

theorem Chain.settleOk_extend (chain : Chain mayStart old) (later : old.Extends new)
    {result : Settlement Plain} (settled : old.SettleOk promise result) :
    new.SettleOk promise result :=
  ⟨Nat.lt_of_lt_of_le settled.1 later.heap.next_le, settled.2.1.mono later.heap.next_le,
    chain.allowsSettle_extend later settled.1 settled.2.2⟩

theorem Chain.reactionOk_extend (chain : Chain mayStart old) (later : old.Extends new)
    {reaction : Reaction Callback Plain} (waiting : old.ReactionOk source reaction) :
    new.ReactionOk source reaction :=
  ⟨Nat.lt_of_lt_of_le waiting.1 later.heap.next_le, chain.handlerOk_extend later waiting.2.1,
    chain.handlerOk_extend later waiting.2.2⟩

theorem Chain.jobOk_extend (chain : Chain mayStart old) (later : old.Extends new)
    {job : Job Callback Plain} (queued : JobOk mayStart old job) : JobOk mayStart new job := by
  have next_le := later.heap.next_le
  cases job with
  | reaction source handler argument capability =>
      obtain ⟨below, settled, argument_below, fits⟩ := queued
      refine ⟨Nat.lt_of_lt_of_le below next_le, later.heap.settled below settled,
        argument_below.mono next_le, ?_⟩
      rcases fits with fits | ⟨call, call_lt, isRun, may, derived⟩
      · exact .inl (chain.handlerOk_extend later fits)
      · refine .inr ⟨call, Nat.lt_of_lt_of_le call_lt later.nextCall_le, isRun, may, ?_⟩
        rw [derived, (later.call call call_lt).body]
  | adopt target source =>
      obtain ⟨target_lt, source_lt, adopts⟩ := queued
      exact ⟨Nat.lt_of_lt_of_le target_lt next_le, Nat.lt_of_lt_of_le source_lt next_le,
        chain.adopts_extend later target_lt adopts⟩
  | callThen target object =>
      obtain ⟨target_lt, receives⟩ := queued
      exact ⟨Nat.lt_of_lt_of_le target_lt next_le, chain.receives_extend later target_lt receives⟩

theorem Chain.frameOk_extend (chain : Chain mayStart old) (later : old.Extends new)
    {frame : Frame} (running : old.FrameOk frame) : new.FrameOk frame := by
  cases frame with
  | callback capability =>
      intro promise mem
      obtain ⟨below, receives⟩ := running promise mem
      exact ⟨Nat.lt_of_lt_of_le below later.heap.next_le,
        chain.receives_extend later below receives⟩
  | thenMethod target => exact Nat.lt_of_lt_of_le running later.heap.next_le

theorem CallOk.extend (known : old.CallOk call) (later : old.Extends new)
    (below : call < old.nextCall)
    (ended : ∀ completion ∈ (new.calls call).ended,
      completion ∈ (old.calls call).ended ∨ completion.value.Below new.heap.next)
    (released : (new.calls call).counted = false →
      (old.calls call).counted = false ∨ old.heap.Settled (old.calls call).guarded) :
    new.CallOk call := by
  have kept := later.call call below
  have next_le := later.heap.next_le
  constructor
  · rw [kept.owner]
    exact known.owner_lt
  · rw [kept.body]
    exact Nat.lt_of_lt_of_le known.body_lt next_le
  · rw [kept.guarded]
    exact Nat.lt_of_lt_of_le known.guarded_lt next_le
  · rw [kept.result]
    exact Nat.lt_of_lt_of_le known.result_lt next_le
  · rw [kept.body, later.origin _ known.body_lt, known.origin_body]
  · rw [kept.guarded, kept.body, later.origin _ known.guarded_lt]
    exact known.origin_guarded
  · rw [kept.result, later.origin _ known.result_lt, known.origin_result]
  · intro completion mem
    rcases ended completion mem with old | below
    · exact (known.ended_below completion old).mono next_le
    · exact below
  · intro notCounted
    rw [kept.guarded]
    apply later.heap.settled known.guarded_lt
    rcases released notCounted with before | settled
    · exact known.released before
    · exact settled

/-- What has to be shown of a step: the new heap meets the new conditions, given that
the old heap does, and so do the records, resolving functions and frames that were
added or changed. -/
theorem Chain.advance (chain : Chain mayStart old) (later : old.Extends new)
    (heap : old.heap.Meets new.SettleOk new.ReactionOk (JobOk mayStart new) →
      new.heap.Meets new.SettleOk new.ReactionOk (JobOk mayStart new))
    (calls : ∀ call < new.nextCall, (call < old.nextCall → old.CallOk call) → new.CallOk call)
    (origins : ∀ promise < new.heap.next, promise < old.heap.next ∨
      (new.origin promise).Below new.nextCall)
    (resolvers : ∀ promise, new.resolvers promise = true → old.resolvers promise = true ∨
      promise < new.heap.next ∧ new.Receives promise)
    (frame : ∀ frame ∈ new.frame, frame ∈ old.frame ∨ new.FrameOk frame) :
    Chain mayStart new where
  heap := by
    apply heap
    apply chain.heap.weaken
    · intro promise result
      exact chain.settleOk_extend later
    · intro promise reaction
      exact chain.reactionOk_extend later
    · intro job _
      exact chain.jobOk_extend later
  calls := fun call below => calls call below (chain.calls call)
  origins := by
    intro promise below
    rcases origins promise below with old_lt | bound
    · rw [later.origin promise old_lt]
      exact (chain.origins promise old_lt).mono later.nextCall_le
    · exact bound
  resolvers := by
    intro promise held
    rcases resolvers promise held with before | added
    · obtain ⟨below, receives⟩ := chain.resolvers promise before
      exact ⟨Nat.lt_of_lt_of_le below later.heap.next_le,
        chain.receives_extend later below receives⟩
    · exact added
  frame := by
    intro running mem
    rcases frame running mem with before | added
    · exact chain.frameOk_extend later (chain.frame running before)
    · exact added

end Stable

end Host

end Kode.Scope
