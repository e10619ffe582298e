/-
# Nothing on the way of a call is lost

A reaction of the bootstrap waits on a promise, is queued, and runs; nothing takes it
away in between. So the body of a call follows whatever its function ended with, and
the promise of `.catch` follows the body. `Tracked` is this invariant. With an empty
queue it says that a call whose function is over has settled up to the promise that
`.finally` waits for.

Most parts of a step add to the state and leave the accepted calls as they are. `Still`
and `Moves` say so once for each operation of the bootstrap, and the invariant is
derived from them.
-/

import Kode.Scope.Ownership

namespace Kode.Scope

open Kode.Library Kode.Library.Promise

/-- The promises of a call stay the same. -/
structure Call.Chained (old new : Call) : Prop where
  owner : new.owner = old.owner
  body : new.body = old.body
  guarded : new.guarded = old.guarded
  result : new.result = old.result

theorem Call.Chained.refl (call : Call) : call.Chained call := ⟨rfl, rfl, rfl, rfl⟩

theorem Call.Chained.trans {old middle new : Call} (first : old.Chained middle)
    (second : middle.Chained new) : old.Chained new :=
  ⟨second.owner.trans first.owner, second.body.trans first.body,
    second.guarded.trans first.guarded, second.result.trans first.result⟩

namespace Host

/-- The reaction with which a promise adopts another. -/
def adoption (target : ℕ) : Reaction Callback Plain := ⟨.resolve target, .reject target, none⟩

/-- The reaction that `.catch` of a task registers on the body. -/
def catchReaction (call guarded : ℕ) : Reaction Callback Plain :=
  ⟨.identity, .callback (.markFailed call), some guarded⟩

/-- The body of a call follows what the function handed to it. A thenable hands
something to the body again later. -/
def Follows (host : Host) (body : ℕ) : JsCompletion → Prop
  | .returned (.promise source) =>
      host.heap.Settled body ∨ .adopt body source ∈ host.heap.jobs ∨
        host.heap.OnItsWay source (adoption body)
  | .returned (.thenable _) => True
  | .returned (.plain _) | .threw _ => host.heap.Settled body

variable {host old middle new : Host}

/-! ### Steps that lose nothing -/

/-- A part of a step that adds to the heap and leaves the chains of the calls as they
are. -/
structure Adds (old new : Host) : Prop where
  nextCall : new.nextCall = old.nextCall
  heap : old.heap.Carries new.heap
  origin : ∀ promise < new.heap.next, ∀ call, new.origin promise = .body call →
    promise < old.heap.next ∧ old.origin promise = .body call
  call : ∀ call, (old.calls call).Chained (new.calls call)

/-- A part of a step after which functions have ended with nothing more. -/
structure Still (old new : Host) : Prop extends Adds old new where
  ended : ∀ call, (new.calls call).ended = (old.calls call).ended

/-- A part of a step after which a body follows all that its function has ended with. -/
structure Moves (old new : Host) : Prop extends Adds old new where
  ended : ∀ call, ∀ completion ∈ (new.calls call).ended,
    completion ∈ (old.calls call).ended ∨ new.Follows (new.calls call).body completion

theorem Adds.trans (first : Adds old middle) (second : Adds middle new) : Adds old new where
  nextCall := second.nextCall.trans first.nextCall
  heap := first.heap.trans second.heap
  origin promise below call isBody := by
    obtain ⟨middle_lt, middleBody⟩ := second.origin promise below call isBody
    exact first.origin promise middle_lt call middleBody
  call call := (first.call call).trans (second.call call)

theorem Still.trans (first : Still old middle) (second : Still middle new) : Still old new where
  toAdds := first.toAdds.trans second.toAdds
  ended call := (second.ended call).trans (first.ended call)

theorem Still.then (first : Still old middle) (second : Moves middle new) : Moves old new where
  toAdds := first.toAdds.trans second.toAdds
  ended call completion mem := by
    rw [← first.ended call]
    exact second.ended call completion mem

theorem Still.moves (still : Still old new) : Moves old new where
  toAdds := still.toAdds
  ended call _ mem := Or.inl (still.ended call ▸ mem)

/-- Only the heap changes, and no promise is made. -/
theorem still_heap {heap : Heap Callback Plain} (carries : host.heap.Carries heap)
    (next : heap.next = host.heap.next) : Still host { host with heap } where
  nextCall := rfl
  heap := carries
  origin _ below _ isBody := ⟨next ▸ below, isBody⟩
  call _ := .refl _
  ended _ := rfl

/-- Only the records of the calls change, and not what `Still` is about. -/
theorem still_calls {calls : ℕ → Call} (chained : ∀ call, (host.calls call).Chained (calls call))
    (ended : ∀ call, (calls call).ended = (host.calls call).ended) :
    Still host { host with calls } where
  nextCall := rfl
  heap := .refl _
  origin _ below _ isBody := ⟨below, isBody⟩
  call := chained
  ended := ended

/-- Only the counters, the resolving functions and the running code change. -/
theorem still_control {activeScopes activeTasks : ℤ} {resolvers : ℕ → Bool}
    {frame : Option Frame} :
    Still host { host with activeScopes, activeTasks, resolvers, frame } where
  nextCall := rfl
  heap := .refl _
  origin _ below _ isBody := ⟨below, isBody⟩
  call _ := .refl _
  ended _ := rfl

theorem still_newPromise {origin : Origin} (plain : ∀ call, origin ≠ .body call) :
    Still host (host.newPromise origin) where
  nextCall := rfl
  heap := Heap.carries_create
  origin promise below call isBody := by
    have old_lt : promise < host.heap.next := by
      refine Nat.lt_of_le_of_ne (Nat.le_of_lt_succ below) ?_
      rintro rfl
      rw [newPromise_origin_self] at isBody
      exact plain call isBody
    refine ⟨old_lt, ?_⟩
    rw [← isBody]
    exact (Function.update_of_ne (Nat.ne_of_lt old_lt) _ _).symm
  call _ := .refl _
  ended _ := rfl

theorem still_promiseResolve : Still host host.promiseResolve :=
  (still_newPromise (by simp)).trans (still_heap Heap.carries_settle Heap.next_settle)

theorem still_promiseReject {reason : JsValue} : Still host (host.promiseReject reason) :=
  (still_newPromise (by simp)).trans (still_heap Heap.carries_settle Heap.next_settle)

theorem still_andThen {promise : ℕ} {onFulfilled onRejected : Handler Callback Plain}
    {origin : Origin} (plain : ∀ call, origin ≠ .body call) :
    Still host (host.andThen promise onFulfilled onRejected origin) := by
  have made : Still host (host.newPromise origin) := still_newPromise plain
  refine ⟨⟨rfl, ?_, ?_, made.call⟩, made.ended⟩
  · exact Heap.carries_create.performThen_new (Nat.le_refl _)
  · intro other below
    rw [andThen_next] at below
    exact made.origin other below

/-- A reaction that hands on nothing. -/
theorem still_performThen {promise : ℕ} {reaction : Reaction Callback Plain}
    (alone : reaction.capability = none) :
    Still host { host with heap := host.heap.performThen promise reaction } := by
  refine still_heap ?_ Heap.next_performThen
  refine (Heap.Carries.refl _).performThen ?_
  intro target handed
  rw [alone] at handed
  cases handed

/-- Each body belongs to the call that its origin names. -/
def OwnBodies (host : Host) : Prop :=
  ∀ promise < host.heap.next, ∀ call, host.origin promise = .body call →
    promise = (host.calls call).body

theorem OwnBodies.adds (bodies : old.OwnBodies) (adds : Adds old new) : new.OwnBodies := by
  intro promise below call isBody
  obtain ⟨old_lt, oldBody⟩ := adds.origin promise below call isBody
  rw [(adds.call call).body]
  exact bodies promise old_lt call oldBody

/-! ### Handing over a completion -/

/-- What `record` does to one call. -/
theorem record_calls (capability : Option ℕ) (completion : JsCompletion) (call : ℕ) :
    (host.record capability completion).calls call = host.calls call ∨
      ∃ promise, capability = some promise ∧ host.origin promise = .body call ∧
        (host.record capability completion).calls call =
          { host.calls call with ended := (host.calls call).ended ++ [completion] } := by
  unfold Host.record
  split
  · rename_i owner found
    obtain ⟨promise, given, origin⟩ := Option.map_eq_some_iff.mp found
    by_cases same : call = owner
    · subst same
      exact Or.inr ⟨promise, given, origin, modifyCall_calls_self _ _ _⟩
    · exact Or.inl (Function.update_of_ne same _ _)
  · exact Or.inl rfl

/-- A body that is handed a completion follows it. -/
theorem follows_complete (host : Host) {body : ℕ} {completion : JsCompletion}
    (handed : new.heap = host.heap.complete .typeError (some body) completion) :
    new.Follows body completion := by
  cases completion with
  | threw reason =>
      show new.heap.Settled body
      rw [handed]
      exact Heap.settled_settle
  | returned value =>
      cases value with
      | plain value =>
          show new.heap.Settled body
          rw [handed]
          exact Heap.settled_settle
      | thenable object => trivial
      | promise source =>
          have resolved : new.heap = host.heap.resolve .typeError body (.promise source) := handed
          rw [Heap.resolve_promise] at resolved
          split_ifs at resolved with same
          · left
            rw [resolved]
            exact Heap.settled_settle
          · right
            left
            rw [resolved]
            exact List.mem_append_right _ (List.mem_singleton.mpr rfl)

theorem moves_conclude (bodies : host.OwnBodies) {capability : Option ℕ}
    (capability_lt : ∀ promise ∈ capability, promise < host.heap.next)
    (completion : JsCompletion) : Moves host (host.conclude capability completion) where
  nextCall := host.conclude_nextCall capability completion
  heap := Heap.carries_complete
  origin promise below call isBody := by
    refine ⟨Heap.next_complete ▸ below, ?_⟩
    rwa [← record_origin capability completion]
  call call := by
    show (host.calls call).Chained ((host.record capability completion).calls call)
    rcases record_calls capability completion call with same | ⟨_, _, _, handed⟩
    · rw [same]
      exact .refl _
    · rw [handed]
      exact ⟨rfl, rfl, rfl, rfl⟩
  ended call other mem := by
    have changed : (host.conclude capability completion).calls call =
        (host.record capability completion).calls call := rfl
    rw [changed] at mem ⊢
    rcases record_calls capability completion call with same | ⟨promise, given, origin, handed⟩
    · rw [same] at mem
      exact Or.inl mem
    · rw [handed] at mem ⊢
      rcases List.mem_append.mp mem with before | added
      · exact Or.inl before
      · right
        obtain rfl := List.mem_singleton.mp added
        have own := bodies promise (capability_lt promise given) call origin
        refine follows_complete host ?_
        show host.heap.complete .typeError capability other = _
        rw [given, own]

theorem Still.conclude (still : Still old new) (bodies : old.OwnBodies) {capability : Option ℕ}
    (capability_lt : ∀ promise ∈ capability, promise < old.heap.next)
    (completion : JsCompletion) : Moves old (new.conclude capability completion) := by
  refine still.then (moves_conclude (bodies.adds still.toAdds) ?_ completion)
  intro promise mem
  exact Nat.lt_of_lt_of_le (capability_lt promise mem) still.heap.next_le

/-! ### Microtasks -/

theorem still_modifyCall {call : ℕ} {change : Call → Call}
    (chained : (host.calls call).Chained (change (host.calls call)))
    (ended : (change (host.calls call)).ended = (host.calls call).ended) :
    Still host (host.modifyCall call change) := by
  refine still_calls ?_ ?_
  · intro other
    by_cases same : other = call
    · subst same
      rw [Function.update_self]
      exact chained
    · rw [Function.update_of_ne same]
      exact .refl _
  · intro other
    by_cases same : other = call
    · subst same
      rw [Function.update_self, ended]
    · rw [Function.update_of_ne same]

theorem still_markFailed (call : ℕ) : Still host (host.markFailed call) := by
  unfold Host.markFailed
  split
  · exact still_control
  · exact still_modifyCall ⟨rfl, rfl, rfl, rfl⟩ rfl

theorem still_release (host : Host) (call : ℕ) : Still host (host.release call) := by
  have modified : Still host (host.modifyCall call fun record =>
      { record with counted := false }) := still_modifyCall ⟨rfl, rfl, rfl, rfl⟩ rfl
  unfold Host.release
  split
  · exact modified.trans still_control
  · exact modified.trans still_control

/-- What `.finally` does besides the release. -/
theorem still_awaitFinally (host : Host) (thunk : Handler Callback Plain) (call : ℕ) :
    Still (host.release call) ((host.release call).promiseResolve.andThen
      (host.release call).heap.next thunk .thrower .internal) :=
  still_promiseResolve.trans (still_andThen (by simp))

theorem moves_released (bodies : host.OwnBodies) (call : ℕ) (thunk : Handler Callback Plain)
    {capability : Option ℕ} (capability_lt : ∀ promise ∈ capability, promise < host.heap.next) :
    Moves (host.release call) (host.runFinally call thunk capability) := by
  have released := still_release host call
  refine (still_awaitFinally host thunk call).conclude (bodies.adds released.toAdds) ?_ _
  intro promise mem
  exact Nat.lt_of_lt_of_le (capability_lt promise mem) released.heap.next_le

theorem moves_runFinally (bodies : host.OwnBodies) (call : ℕ) (thunk : Handler Callback Plain)
    {capability : Option ℕ} (capability_lt : ∀ promise ∈ capability, promise < host.heap.next) :
    Moves host (host.runFinally call thunk capability) :=
  (still_release host call).then (moves_released bodies call thunk capability_lt)

theorem moves_runHandler (bodies : host.OwnBodies) {handler : Handler Callback Plain}
    {argument : JsValue} {capability : Option ℕ}
    (capability_lt : ∀ promise ∈ capability, promise < host.heap.next) :
    Moves host (host.runHandler handler argument capability) := by
  cases handler with
  | identity => exact moves_conclude bodies capability_lt _
  | thrower => exact moves_conclude bodies capability_lt _
  | valueThunk value => exact moves_conclude bodies capability_lt _
  | throwThunk reason => exact moves_conclude bodies capability_lt _
  | resolve target =>
      have resolved : Still host { host with
          heap := host.heap.resolve .typeError target argument } :=
        still_heap Heap.carries_resolve Heap.next_resolve
      exact resolved.conclude bodies capability_lt _
  | reject target =>
      have rejected : Still host { host with
          heap := host.heap.settle target (.rejected argument) } :=
        still_heap Heap.carries_settle Heap.next_settle
      exact rejected.conclude bodies capability_lt _
  | callback code =>
      cases code with
      | program => exact still_control.moves
      | run call =>
          have entered : Still host (host.modifyCall call fun record =>
              { record with entered := true }) := still_modifyCall ⟨rfl, rfl, rfl, rfl⟩ rfl
          exact (entered.trans still_control).moves
      | markFailed call => exact (still_markFailed call).conclude bodies capability_lt _
      | thenFinally call => exact moves_runFinally bodies call _ capability_lt
      | catchFinally call => exact moves_runFinally bodies call _ capability_lt

/-! ### Actions of the program -/

theorem moves_useResolver (bodies : host.OwnBodies) {promise : ℕ} (below : promise < host.heap.next)
    (completion : JsCompletion) : Moves host (host.useResolver promise completion) := by
  have used : Still host { host with
      resolvers := Function.update host.resolvers promise false } := still_control
  refine used.conclude bodies ?_ _
  intro other mem
  obtain rfl : promise = other := by simpa using mem
  exact below

theorem moves_leave (bodies : host.OwnBodies) {frame : Frame} (fits : host.FrameOk frame)
    (completion : JsCompletion) : Moves host (host.leave frame completion) := by
  have left : Still host { host with frame := none } := still_control
  unfold Host.leave
  dsimp only
  split
  · exact left.conclude bodies (fun promise mem => (fits promise mem).1) _
  · split_ifs
    · exact left.then (moves_useResolver (bodies.adds left.toAdds) fits _)
    · exact left.moves
  · exact left.moves

/-! ### The way of a call -/

/-- Nothing on the way of a call is lost: the body follows what the function ended with,
and the promise of `.catch` follows the body. -/
structure Tracked (host : Host) : Prop where
  bodies : host.OwnBodies
  guards : ∀ call < host.nextCall, host.heap.Settled (host.calls call).guarded ∨
    (host.calls call).guarded = (host.calls call).body ∨
      host.heap.OnItsWay (host.calls call).body (catchReaction call (host.calls call).guarded)
  follows : ∀ call < host.nextCall, ∀ completion ∈ (host.calls call).ended,
    host.Follows (host.calls call).body completion

variable {mayStart : ℕ → Prop}

/-- What has to be shown of a body that goes on following: only a promise that it has not
adopted yet is work. -/
theorem Follows.imp {body : ℕ} {completion : JsCompletion}
    (settled : old.heap.Settled body → new.heap.Settled body)
    (adopting : ∀ source, completion = .returned (.promise source) →
      .adopt body source ∈ old.heap.jobs ∨ old.heap.OnItsWay source (adoption body) →
        new.Follows body completion)
    (follows : old.Follows body completion) : new.Follows body completion := by
  cases completion with
  | threw reason => exact settled follows
  | returned value =>
      cases value with
      | plain value => exact settled follows
      | thenable object => trivial
      | promise source =>
          rcases follows with before | way
          · exact Or.inl (settled before)
          · exact adopting source rfl way

theorem Follows.carry (carries : old.heap.Carries new.heap) {body : ℕ} {completion : JsCompletion}
    (body_lt : body < old.heap.next) (below : completion.value.Below old.heap.next)
    (follows : old.Follows body completion) : new.Follows body completion := by
  refine follows.imp (carries.settled body_lt) ?_
  rintro source rfl (queued | way)
  · exact Or.inr (Or.inl (carries.jobs _ queued))
  · exact Or.inr (Or.inr (carries.onItsWay source below _ way))

theorem Tracked.moves (tracked : old.Tracked) (chain : Chain mayStart old)
    (moves : Moves old new) : new.Tracked where
  bodies := tracked.bodies.adds moves.toAdds
  guards call call_lt := by
    rw [moves.nextCall] at call_lt
    have known := chain.calls call call_lt
    rw [(moves.call call).guarded, (moves.call call).body]
    rcases tracked.guards call call_lt with settled | same | way
    · exact Or.inl (moves.heap.settled known.guarded_lt settled)
    · exact Or.inr (Or.inl same)
    · exact Or.inr (Or.inr (moves.heap.onItsWay _ known.body_lt _ way))
  follows call call_lt completion mem := by
    rw [moves.nextCall] at call_lt
    have known := chain.calls call call_lt
    rcases moves.ended call completion mem with before | follows
    · rw [(moves.call call).body]
      exact (tracked.follows call call_lt completion before).carry moves.heap known.body_lt
        (known.ended_below completion before)
    · exact follows

/-- The job of `.catch` settles its promise: a fulfilled body fulfils it with a plain
value, and a rejected one rejects it. -/
theorem settled_of_catch {call body guarded : ℕ} {result : Settlement Plain} :
    (host.runJob ((catchReaction call guarded).trigger body result)).heap.Settled guarded := by
  cases result with
  | fulfilled value => exact Heap.settled_settle
  | rejected reason => exact Heap.settled_settle

/-- The job of an adoption settles the promise that adopts. -/
theorem settled_of_adoption {source body : ℕ} {result : Settlement Plain} :
    (host.runJob ((adoption body).trigger source result)).heap.Settled body := by
  cases result with
  | fulfilled value => exact Heap.settled_settle
  | rejected reason => exact Heap.settled_settle

/-- The state in which the oldest job has left the queue. -/
def popped (host : Host) (rest : List (Job Callback Plain)) : Host :=
  { host with heap := { host.heap with jobs := rest } }

section

variable {oldest : Job Callback Plain} {rest : List (Job Callback Plain)}

/-- A body goes on following while jobs run: the job of its adoption registers the
adoption, and the job of that settles the body. -/
theorem Follows.job (queue : host.heap.jobs = oldest :: rest)
    (carries : (host.popped rest).heap.Carries ((host.popped rest).runJob oldest).heap)
    {body : ℕ} {completion : JsCompletion} (body_lt : body < host.heap.next)
    (below : completion.value.Below host.heap.next) (follows : host.Follows body completion) :
    ((host.popped rest).runJob oldest).Follows body completion := by
  have settled : host.heap.Settled body →
      ((host.popped rest).runJob oldest).heap.Settled body := carries.settled body_lt
  refine follows.imp settled ?_
  rintro source rfl (queued | way)
  · rw [queue, List.mem_cons] at queued
    rcases queued with rfl | behind
    · exact Or.inr (Or.inr (Heap.onItsWay_performThen _ _ _))
    · exact Or.inr (Or.inl (carries.jobs _ behind))
  · rcases way.pop queue with still | ⟨result, rfl⟩
    · exact Or.inr (Or.inr (carries.onItsWay source below _ still))
    · exact Or.inl settled_of_adoption

theorem Tracked.job (tracked : host.Tracked) (chain : Chain mayStart host)
    (queue : host.heap.jobs = oldest :: rest)
    (moves : Moves (host.popped rest) ((host.popped rest).runJob oldest)) :
    ((host.popped rest).runJob oldest).Tracked where
  bodies := by
    have bodies : (host.popped rest).OwnBodies := tracked.bodies
    exact bodies.adds moves.toAdds
  guards call call_lt := by
    rw [moves.nextCall] at call_lt
    have known := chain.calls call call_lt
    rw [(moves.call call).guarded, (moves.call call).body]
    rcases tracked.guards call call_lt with settled | same | way
    · exact Or.inl (moves.heap.settled known.guarded_lt settled)
    · exact Or.inr (Or.inl same)
    · rcases way.pop queue with still | ⟨result, rfl⟩
      · exact Or.inr (Or.inr (moves.heap.onItsWay _ known.body_lt _ still))
      · exact Or.inl settled_of_catch
  follows call call_lt completion mem := by
    rw [moves.nextCall] at call_lt
    have known := chain.calls call call_lt
    rcases moves.ended call completion mem with before | follows
    · rw [(moves.call call).body]
      exact (tracked.follows call call_lt completion before).job queue moves.heap known.body_lt
        (known.ended_below completion before)
    · exact follows

/-- A handler hands on to a promise that exists. -/
theorem Chain.capability_lt (chain : Chain mayStart host) {source : ℕ}
    {handler : Handler Callback Plain} {capability : Option ℕ}
    (fits : host.HandlerOk source handler capability) :
    ∀ promise ∈ capability, promise < host.heap.next := by
  intro promise mem
  cases handler with
  | identity => exact (fits promise mem).1
  | thrower => exact (fits promise mem).1
  | valueThunk value => exact (fits.2 promise mem).1
  | throwThunk reason => exact (fits.2 promise mem).1
  | resolve target =>
      rw [fits.2.2] at mem
      cases mem
  | reject target =>
      rw [fits.2.2] at mem
      cases mem
  | callback code =>
      have result_lt {call : ℕ} (fits : call < host.nextCall ∧
          source = (host.calls call).guarded ∧ capability = some (host.calls call).result) :
          promise < host.heap.next := by
        rw [fits.2.2] at mem
        obtain rfl : (host.calls call).result = promise := by simpa using mem
        exact (chain.calls call fits.1).result_lt
      cases code with
      | program => exact (fits promise mem).1
      | run call => exact fits.elim
      | markFailed call => exact (fits promise mem).1
      | thenFinally call => exact result_lt fits
      | catchFinally call => exact result_lt fits

/-- A queued handler hands on to a promise that exists. -/
theorem Chain.queued_capability_lt (chain : Chain mayStart host) {source : ℕ}
    {handler : Handler Callback Plain} {argument : JsValue} {capability : Option ℕ}
    (queued : .reaction source handler argument capability ∈ host.heap.jobs) :
    ∀ promise ∈ capability, promise < host.heap.next := by
  intro promise mem
  obtain ⟨_, _, _, fits | ⟨call, call_lt, rfl, _, rfl⟩⟩ := chain.heap.queued _ queued
  · exact chain.capability_lt fits promise mem
  · obtain rfl : (host.calls call).body = promise := by simpa using mem
    exact (chain.calls call call_lt).body_lt

theorem Chain.moves_job (chain : Chain mayStart host) (bodies : host.OwnBodies)
    (queue : host.heap.jobs = oldest :: rest) :
    Moves (host.popped rest) ((host.popped rest).runJob oldest) := by
  have bodies : (host.popped rest).OwnBodies := bodies
  cases oldest with
  | reaction source handler argument capability =>
      have queued : .reaction source handler argument capability ∈ host.heap.jobs := by
        simp [queue]
      exact moves_runHandler bodies (chain.queued_capability_lt queued)
  | adopt target source => exact (still_performThen rfl).moves
  | callThen target object => exact still_control.moves

end

/-- With an empty queue the promise that `.finally` waits for has settled if the function
is over. -/
theorem Tracked.settled_of_idle (tracked : host.Tracked) (idle : host.heap.jobs = []) {call : ℕ}
    (call_lt : call < host.nextCall) (finished : host.Over call) :
    host.heap.Settled (host.calls call).guarded := by
  have body : host.heap.Settled (host.calls call).body := by
    obtain ⟨completion, mem, decides⟩ := finished
    have follows := tracked.follows call call_lt completion mem
    cases completion with
    | threw reason => exact follows
    | returned value =>
        cases value with
        | plain value => exact follows
        | thenable object => exact decides.elim
        | promise source =>
            rcases follows with settled | queued | way
            · exact settled
            · rw [idle] at queued
              cases queued
            · exact absurd decides (Heap.pending_of_onItsWay idle way)
  rcases tracked.guards call call_lt with settled | same | way
  · exact settled
  · exact same ▸ body
  · exact absurd body (Heap.pending_of_onItsWay idle way)

end Host

end Kode.Scope
