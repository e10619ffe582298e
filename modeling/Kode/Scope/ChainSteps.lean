/-
# Every step keeps the chains

One lemma for each operation of the bootstrap and each action of a program: the state
after it is a later state, and the invariant holds there. The lemmas for the two
calls build their chains promise by promise; all others follow from the parts that
`Host.conclude` and `Host.andThen` share.
-/

import Kode.Scope.Chains

namespace Kode.Scope.Host

open Kode.Library.Promise

variable {mayStart : ℕ → Prop} {host old middle new : Host}

/-- A later state in which the invariant holds. Only functions that may start have
been entered. -/
structure Advances (mayStart : ℕ → Prop) (old new : Host) : Prop where
  later : old.Extends new
  chain : Chain mayStart new
  entered : ∀ call < new.nextCall, (new.calls call).entered = true →
    call < old.nextCall ∧ (old.calls call).entered = true ∨ mayStart call

theorem Chain.advances_refl (chain : Chain mayStart host) : Advances mayStart host host :=
  ⟨.refl host, chain, fun _ below entered => .inl ⟨below, entered⟩⟩

theorem Advances.trans (first : Advances mayStart old middle)
    (second : Advances mayStart middle new) : Advances mayStart old new where
  later := first.later.trans second.later
  chain := second.chain
  entered := by
    intro call below entered
    rcases second.entered call below entered with ⟨middle_lt, before⟩ | may
    · exact first.entered call middle_lt before
    · exact .inr may

theorem Chain.initial : Chain mayStart Host.initial where
  heap := Heap.Meets.empty
  calls := fun call below => absurd below (Nat.not_lt_zero call)
  origins := fun promise below => absurd below (Nat.not_lt_zero promise)
  resolvers := fun promise held => absurd held (by simp [Host.initial])
  frame := fun frame mem => absurd mem (by simp [Host.initial])

/-! ### Parts of an operation -/

/-- Only the heap changes, and no promise is made. -/
theorem Chain.advance_heap (chain : Chain mayStart host) {heap : Heap Callback Plain}
    (grows : host.heap.Grows heap) (next : heap.next = host.heap.next)
    (meets : host.heap.Meets { host with heap }.SettleOk { host with heap }.ReactionOk
        (JobOk mayStart { host with heap }) →
      heap.Meets { host with heap }.SettleOk { host with heap }.ReactionOk
        (JobOk mayStart { host with heap })) :
    Advances mayStart host { host with heap } := by
  have later : host.Extends { host with heap } :=
    ⟨grows, Nat.le_refl _, fun _ _ => rfl, fun _ _ => .refl _⟩
  refine ⟨later, chain.advance later meets ?_ ?_ ?_ ?_,
    fun _ below entered => .inl ⟨below, entered⟩⟩
  · intro call below known
    exact (known below).extend later below (fun _ mem => .inl mem) .inl
  · intro promise below
    exact .inl (next ▸ below)
  · intro promise held
    exact .inl held
  · intro frame running
    exact .inl running

/-- Only the records of the calls change, within what `Call.Extends` allows. -/
theorem Chain.advance_calls (chain : Chain mayStart host) {calls : ℕ → Call}
    (kept : ∀ call, (host.calls call).Extends (calls call))
    (ended : ∀ call, ∀ completion ∈ (calls call).ended,
      completion ∈ (host.calls call).ended ∨ completion.value.Below host.heap.next)
    (released : ∀ call, (calls call).counted = false →
      (host.calls call).counted = false ∨ host.heap.Settled (host.calls call).guarded)
    (entered : ∀ call, (calls call).entered = true →
      (host.calls call).entered = true ∨ mayStart call) :
    Advances mayStart host { host with calls } := by
  have later : host.Extends { host with calls } :=
    ⟨.refl _, Nat.le_refl _, fun _ _ => rfl, fun call _ => kept call⟩
  refine ⟨later, chain.advance later id ?_ ?_ ?_ ?_, ?_⟩
  · intro call below known
    exact (known below).extend later below (ended call) (released call)
  · intro promise below
    exact .inl below
  · intro promise held
    exact .inl held
  · intro frame running
    exact .inl running
  · intro call below now
    rcases entered call now with before | may
    · exact .inl ⟨below, before⟩
    · exact .inr may

/-- Only the counters, the resolving functions held by the program and the running code
change. -/
theorem Chain.advance_control (chain : Chain mayStart host) {activeScopes activeTasks : ℤ}
    {resolvers : ℕ → Bool} {frame : Option Frame}
    (held : ∀ promise, resolvers promise = true → host.resolvers promise = true ∨
      promise < host.heap.next ∧ host.Receives promise)
    (running : ∀ inner ∈ frame, inner ∈ host.frame ∨ host.FrameOk inner) :
    Advances mayStart host { host with activeScopes, activeTasks, resolvers, frame } := by
  have later : host.Extends { host with activeScopes, activeTasks, resolvers, frame } :=
    ⟨.refl _, Nat.le_refl _, fun _ _ => rfl, fun _ _ => .refl _⟩
  refine ⟨later, chain.advance later id ?_ ?_ held running,
    fun _ below entered => .inl ⟨below, entered⟩⟩
  · intro call below known
    exact (known below).extend later below (fun _ mem => .inl mem) .inl
  · intro promise below
    exact .inl below

/-- The job of a reaction has the right shape once its promise has settled. -/
theorem ReactionOk.trigger {promise : ℕ} {reaction : Reaction Callback Plain}
    {result : Settlement Plain} (waiting : host.ReactionOk promise reaction)
    (settled : host.heap.Settled promise) (below : result.Below host.heap.next) :
    JobOk mayStart host (reaction.trigger promise result) := by
  cases result with
  | fulfilled value => exact ⟨waiting.1, settled, trivial, .inl waiting.2.1⟩
  | rejected reason => exact ⟨waiting.1, settled, below, .inl waiting.2.2⟩

theorem Chain.popJob (chain : Chain mayStart host) {job : Job Callback Plain}
    {rest : List (Job Callback Plain)} (queue : host.heap.jobs = job :: rest) :
    Advances mayStart host { host with heap := { host.heap with jobs := rest } } := by
  have grows : host.heap.Grows { host.heap with jobs := rest } :=
    ⟨Nat.le_refl _, fun _ _ _ known => known⟩
  apply chain.advance_heap grows rfl
  intro meets
  exact (meets.pop queue).2

theorem Chain.newPromise (chain : Chain mayStart host) {origin : Origin}
    (below : origin.Below host.nextCall) : Advances mayStart host (host.newPromise origin) := by
  have later : host.Extends (host.newPromise origin) := by
    refine ⟨Heap.grows_create, Nat.le_refl _, ?_, fun _ _ => .refl _⟩
    intro promise promise_lt
    exact Function.update_of_ne (Nat.ne_of_lt promise_lt) _ _
  refine ⟨later, chain.advance later Heap.Meets.create ?_ ?_ ?_ ?_,
    fun _ below entered => .inl ⟨below, entered⟩⟩
  · intro call call_lt known
    exact (known call_lt).extend later call_lt (fun _ mem => .inl mem) .inl
  · intro promise promise_lt
    rcases Nat.lt_succ_iff_lt_or_eq.mp promise_lt with old | same
    · exact .inl old
    · refine .inr ?_
      rw [same]
      show (Function.update host.origin host.heap.next origin host.heap.next).Below _
      rw [Function.update_self]
      exact below
  · intro promise held
    exact .inl held
  · intro frame running
    exact .inl running

theorem Chain.enqueue (chain : Chain mayStart host) {job : Job Callback Plain}
    (allowed : JobOk mayStart host job) :
    Advances mayStart host { host with heap := host.heap.enqueue job } := by
  apply chain.advance_heap Heap.grows_enqueue rfl
  intro meets
  have later : host.Extends { host with heap := host.heap.enqueue job } :=
    ⟨Heap.grows_enqueue, Nat.le_refl _, fun _ _ => rfl, fun _ _ => .refl _⟩
  exact meets.enqueue (chain.jobOk_extend later allowed)

/-- A promise settles that is allowed to once it has settled. -/
theorem Chain.settle_after (chain : Chain mayStart host) {promise : ℕ}
    {result : Settlement Plain} (promise_lt : promise < host.heap.next)
    (below : result.Below host.heap.next)
    (allows : { host with heap := host.heap.settle promise result }.AllowsSettle promise) :
    Advances mayStart host { host with heap := host.heap.settle promise result } := by
  apply chain.advance_heap Heap.grows_settle Heap.next_settle
  intro meets
  have promise_lt : promise < (host.heap.settle promise result).next := by
    rw [Heap.next_settle]
    exact promise_lt
  have below : result.Below (host.heap.settle promise result).next := by
    rw [Heap.next_settle]
    exact below
  apply meets.settle ⟨promise_lt, below, allows⟩
  intro reaction waiting
  exact waiting.trigger Heap.settled_settle below

theorem Chain.settle (chain : Chain mayStart host) {promise : ℕ} {result : Settlement Plain}
    (promise_lt : promise < host.heap.next) (below : result.Below host.heap.next)
    (allows : host.AllowsSettle promise) :
    Advances mayStart host { host with heap := host.heap.settle promise result } := by
  apply chain.settle_after promise_lt below
  exact chain.allowsSettle_extend
    ⟨Heap.grows_settle, Nat.le_refl _, fun _ _ => rfl, fun _ _ => .refl _⟩ promise_lt allows

theorem Chain.performThen (chain : Chain mayStart host) {promise : ℕ}
    {reaction : Reaction Callback Plain} (waiting : host.ReactionOk promise reaction) :
    Advances mayStart host { host with heap := host.heap.performThen promise reaction } := by
  apply chain.advance_heap Heap.grows_performThen Heap.next_performThen
  intro meets
  have later : host.Extends { host with heap := host.heap.performThen promise reaction } :=
    ⟨Heap.grows_performThen, Nat.le_refl _, fun _ _ => rfl, fun _ _ => .refl _⟩
  have waiting := chain.reactionOk_extend later waiting
  apply meets.performThen waiting
  intro result known
  apply waiting.trigger
  · exact Heap.settled_iff.mpr ⟨result, by rw [Heap.outcome_performThen, known]⟩
  · exact (meets.settled promise result known).2.1

/-- Change one record without touching what its function ended with. -/
theorem Chain.modifyCall (chain : Chain mayStart host) {call : ℕ} {change : Call → Call}
    (kept : (host.calls call).Extends (change (host.calls call)))
    (ended : ∀ completion ∈ (change (host.calls call)).ended,
      completion ∈ (host.calls call).ended ∨ completion.value.Below host.heap.next)
    (released : (change (host.calls call)).counted = false →
      (host.calls call).counted = false ∨ host.heap.Settled (host.calls call).guarded)
    (entered : (change (host.calls call)).entered = true →
      (host.calls call).entered = true ∨ mayStart call) :
    Advances mayStart host (host.modifyCall call change) := by
  apply chain.advance_calls
  · intro other
    by_cases same : other = call
    · subst same
      rw [Function.update_self]
      exact kept
    · rw [Function.update_of_ne same]
      exact .refl _
  · intro other completion mem
    by_cases same : other = call
    · subst same
      rw [Function.update_self] at mem
      exact ended completion mem
    · rw [Function.update_of_ne same] at mem
      exact .inl mem
  · intro other notCounted
    by_cases same : other = call
    · subst same
      rw [Function.update_self] at notCounted
      exact released notCounted
    · rw [Function.update_of_ne same] at notCounted
      exact .inl notCounted
  · intro other now
    by_cases same : other = call
    · subst same
      rw [Function.update_self] at now
      exact entered now
    · rw [Function.update_of_ne same] at now
      exact .inl now

/-! ### Handing over a completion -/

theorem Chain.record (chain : Chain mayStart host) {capability : Option ℕ}
    {completion : JsCompletion} (below : completion.value.Below host.heap.next) :
    Advances mayStart host (host.record capability completion) := by
  unfold Host.record
  split
  · apply chain.modifyCall
    · exact ⟨rfl, rfl, rfl, rfl, id, id, fun _ mem => List.mem_append_left _ mem⟩
    · intro other mem
      rcases List.mem_append.mp mem with before | added
      · exact .inl before
      · rw [List.mem_singleton.mp added]
        exact .inr below
    · exact .inl
    · exact .inl
  · exact chain.advances_refl

theorem record_heap (capability : Option ℕ) (completion : JsCompletion) :
    (host.record capability completion).heap = host.heap := by
  unfold Host.record
  split <;> rfl

theorem record_origin (capability : Option ℕ) (completion : JsCompletion) :
    (host.record capability completion).origin = host.origin := by
  unfold Host.record
  split <;> rfl

/-- What is handed to the body of a call is among the things its function ended with. -/
theorem mem_ended_record {promise call : ℕ} {completion : JsCompletion}
    (origin : host.origin promise = .body call) :
    completion ∈ ((host.record (some promise) completion).calls call).ended := by
  simp [Host.record, origin, Host.modifyCall]

/-- A value reaches a promise that may settle, or the body of a call that has recorded
it. -/
theorem Chain.resolve (chain : Chain mayStart host) {promise : ℕ} {value : JsValue}
    (promise_lt : promise < host.heap.next) (below : value.Below host.heap.next)
    (reaches : host.AllowsSettle promise ∨
      ∃ call, host.origin promise = .body call ∧ .returned value ∈ (host.calls call).ended) :
    Advances mayStart host
      { host with heap := host.heap.resolve .typeError promise value } := by
  cases value with
  | plain value =>
      refine chain.settle promise_lt ?_ ?_
      · trivial
      · rcases reaches with allows | ⟨call, origin, mem⟩
        · exact allows
        · exact (allowsSettle_body origin).mpr ⟨_, mem, trivial⟩
  | promise source =>
      rw [Heap.resolve_promise]
      split
      · next same =>
          subst same
          refine chain.settle_after promise_lt ?_ ?_
          · trivial
          · rcases reaches with allows | ⟨call, origin, mem⟩
            · exact chain.allowsSettle_extend
                ⟨Heap.grows_settle, Nat.le_refl _, fun _ _ => rfl, fun _ _ => .refl _⟩
                promise_lt allows
            · -- a body resolved with itself is decided by its own rejection
              apply (allowsSettle_body _).mpr
              · exact ⟨_, mem, Heap.settled_settle⟩
              · exact origin
      · apply chain.enqueue
        exact ⟨promise_lt, below, reaches⟩
  | thenable object =>
      apply chain.enqueue
      refine ⟨promise_lt, ?_⟩
      rcases reaches with allows | ⟨call, origin, _⟩
      · exact .inl allows
      · exact .inr ⟨call, origin⟩

theorem Chain.complete (chain : Chain mayStart host) {promise : ℕ} {completion : JsCompletion}
    (promise_lt : promise < host.heap.next) (below : completion.value.Below host.heap.next)
    (reaches : host.AllowsSettle promise ∨
      ∃ call, host.origin promise = .body call ∧ completion ∈ (host.calls call).ended) :
    Advances mayStart host
      { host with heap := host.heap.complete .typeError (some promise) completion } := by
  cases completion with
  | returned value => exact chain.resolve promise_lt below reaches
  | threw reason =>
      refine chain.settle promise_lt ?_ ?_
      · exact below
      · rcases reaches with allows | ⟨call, origin, mem⟩
        · exact allows
        · exact (allowsSettle_body origin).mpr ⟨_, mem, trivial⟩

theorem Chain.conclude (chain : Chain mayStart host) {capability : Option ℕ}
    {completion : JsCompletion} (below : completion.value.Below host.heap.next)
    (receives : ∀ promise ∈ capability, promise < host.heap.next ∧ host.Receives promise) :
    Advances mayStart host (host.conclude capability completion) := by
  have recorded : Advances mayStart host (host.record capability completion) :=
    chain.record below
  unfold Host.conclude
  rw [← record_heap capability completion]
  cases capability with
  | none => exact recorded
  | some promise =>
      apply recorded.trans
      obtain ⟨promise_lt, receives⟩ := receives promise rfl
      rw [← record_heap (some promise) completion] at promise_lt below
      apply recorded.chain.complete promise_lt below
      rcases receives with allows | ⟨call, origin⟩
      · rw [record_heap] at promise_lt
        exact .inl (chain.allowsSettle_extend recorded.later promise_lt allows)
      · exact .inr ⟨call, by rw [record_origin, origin], mem_ended_record origin⟩

/-! ### Promises made by the program or on its behalf -/

@[simp]
theorem newPromise_origin_self (origin : Origin) :
    (host.newPromise origin).origin host.heap.next = origin :=
  Function.update_self ..

/-- A new promise of the program or of the bootstrap's own may be derived from any
promise. -/
theorem derivesAll_newPromise {origin : Origin} {source : ℕ}
    (plain : origin = .program ∨ origin = .internal) :
    (host.newPromise origin).DerivesAll source (some host.heap.next) := by
  intro promise mem
  obtain rfl : host.heap.next = promise := by simpa using mem
  refine ⟨Nat.lt_succ_self _, ?_⟩
  unfold Derives
  rw [newPromise_origin_self]
  rcases plain with rfl | rfl
  · trivial
  · trivial

theorem Chain.andThen (chain : Chain mayStart host) {promise : ℕ}
    {onFulfilled onRejected : Handler Callback Plain} {origin : Origin}
    (promise_lt : promise < host.heap.next) (plain : origin = .program ∨ origin = .internal)
    (fulfils : (host.newPromise origin).HandlerOk promise onFulfilled (some host.heap.next))
    (rejects : (host.newPromise origin).HandlerOk promise onRejected (some host.heap.next)) :
    Advances mayStart host (host.andThen promise onFulfilled onRejected origin) := by
  have made : Advances mayStart host (host.newPromise origin) := by
    apply chain.newPromise
    rcases plain with rfl | rfl
    · trivial
    · trivial
  apply made.trans
  apply made.chain.performThen
  exact ⟨Nat.lt_succ_of_lt promise_lt, fulfils, rejects⟩

theorem Chain.promiseResolve (chain : Chain mayStart host) :
    Advances mayStart host host.promiseResolve := by
  have made : Advances mayStart host (host.newPromise .internal) := chain.newPromise trivial
  apply made.trans
  refine made.chain.settle (Nat.lt_succ_self _) ?_ ?_
  · trivial
  · exact allowsSettle_internal (newPromise_origin_self _)

theorem Chain.promiseReject (chain : Chain mayStart host) {reason : JsValue}
    (below : reason.Below host.heap.next) :
    Advances mayStart host (host.promiseReject reason) := by
  have made : Advances mayStart host (host.newPromise .program) := chain.newPromise trivial
  apply made.trans
  refine made.chain.settle (Nat.lt_succ_self _) ?_ ?_
  · exact below.mono (Nat.le_succ _)
  · exact allowsSettle_program (newPromise_origin_self _)

/-! ### Microtasks of the bootstrap -/

theorem Chain.release (chain : Chain mayStart host) {call : ℕ}
    (settled : host.heap.Settled (host.calls call).guarded) :
    Advances mayStart host (host.release call) := by
  have modified : Advances mayStart host
      (host.modifyCall call fun record => { record with counted := false }) := by
    apply chain.modifyCall
    · exact ⟨rfl, rfl, rfl, rfl, fun _ => rfl, id, fun _ mem => mem⟩
    · intro completion mem
      exact .inl mem
    · intro _
      exact .inr settled
    · exact .inl
  unfold Host.release
  split
  · exact modified.trans (modified.chain.advance_control (fun _ => .inl) fun _ => .inl)
  · exact modified.trans (modified.chain.advance_control (fun _ => .inl) fun _ => .inl)

theorem release_counted (call : ℕ) : ((host.release call).calls call).counted = false := by
  unfold Host.release
  split <;> simp

theorem Chain.markFailed (chain : Chain mayStart host) (call : ℕ) :
    Advances mayStart host (host.markFailed call) := by
  unfold Host.markFailed
  split
  · exact chain.advances_refl
  · apply chain.modifyCall
    · exact ⟨rfl, rfl, rfl, rfl, id, id, fun _ mem => mem⟩
    · intro completion mem
      exact .inl mem
    · exact .inl
    · exact .inl

@[simp]
theorem promiseResolve_next : host.promiseResolve.heap.next = host.heap.next + 1 :=
  Heap.next_settle

@[simp]
theorem andThen_next (promise : ℕ) (onFulfilled onRejected : Handler Callback Plain)
    (origin : Origin) :
    (host.andThen promise onFulfilled onRejected origin).heap.next = host.heap.next + 1 :=
  Heap.next_performThen

/-- After the callback of `.finally` the promise of the call may settle. -/
theorem Chain.runFinally (chain : Chain mayStart host) {call : ℕ} {value : JsValue}
    {thunk : Handler Callback Plain} (call_lt : call < host.nextCall)
    (settled : host.heap.Settled (host.calls call).guarded)
    (below : value.Below host.heap.next)
    (passes : thunk = .valueThunk value ∨ thunk = .throwThunk value) :
    Advances mayStart host (host.runFinally call thunk (some (host.calls call).result)) := by
  have known := chain.calls call call_lt
  have released := chain.release settled
  have resolved := released.chain.promiseResolve
  have waited : Advances mayStart (host.release call)
      ((host.release call).promiseResolve.andThen (host.release call).heap.next thunk .thrower
        .internal) := by
    have below := (below.mono released.later.heap.next_le).mono resolved.later.heap.next_le
    apply resolved.trans
    apply resolved.chain.andThen
    · simp
    · exact .inr rfl
    · rcases passes with rfl | rfl
      · exact ⟨below.mono (Nat.le_succ _), derivesAll_newPromise (.inr rfl)⟩
      · exact ⟨below.mono (Nat.le_succ _), derivesAll_newPromise (.inr rfl)⟩
    · exact derivesAll_newPromise (.inr rfl)
  have result_lt := Nat.lt_of_lt_of_le known.result_lt released.later.heap.next_le
  have origin : (host.release call).origin (host.calls call).result = .result call := by
    rw [released.later.origin _ known.result_lt, known.origin_result]
  have allows : (host.release call).AllowsSettle (host.calls call).result :=
    (allowsSettle_result origin).mpr (release_counted call)
  apply (released.trans waited).trans
  apply waited.chain.conclude
  · show _ < _
    simp
  · intro promise mem
    obtain rfl : (host.calls call).result = promise := by simpa using mem
    refine ⟨Nat.lt_of_lt_of_le result_lt waited.later.heap.next_le, .inl ?_⟩
    exact released.chain.allowsSettle_extend waited.later result_lt allows

/-- A promise derived from a settled one may be handed a completion. -/
theorem DerivesAll.receives {source : ℕ} {capability : Option ℕ}
    (derives : host.DerivesAll source capability) (settled : host.heap.Settled source) :
    ∀ promise ∈ capability, promise < host.heap.next ∧ host.Receives promise := by
  intro promise mem
  obtain ⟨below, derived⟩ := derives promise mem
  refine ⟨below, ?_⟩
  unfold Derives at derived
  cases found : host.origin promise with
  | program => exact .inl (allowsSettle_program found)
  | internal => exact .inl (allowsSettle_internal found)
  | body call => exact .inr ⟨call, found⟩
  | guarded call =>
      rw [found] at derived
      obtain rfl : source = (host.calls call).body := derived
      exact .inl ((allowsSettle_guarded found).mpr settled)
  | result call =>
      rw [found] at derived
      exact derived.elim

/-- A promise that adopts a settled one may settle. -/
theorem Adopts.allowsSettle {target source : ℕ} (adopts : host.Adopts target source)
    (settled : host.heap.Settled source) : host.AllowsSettle target := by
  rcases adopts with allows | ⟨call, origin, mem⟩
  · exact allows
  · exact (allowsSettle_body origin).mpr ⟨_, mem, settled⟩

theorem Chain.runHandler (chain : Chain mayStart host) {source : ℕ}
    {handler : Handler Callback Plain} {argument : JsValue} {capability : Option ℕ}
    (settled : host.heap.Settled source) (below : argument.Below host.heap.next)
    (fits : host.HandlerOk source handler capability) :
    Advances mayStart host (host.runHandler handler argument capability) := by
  cases handler with
  | identity => exact chain.conclude below (DerivesAll.receives fits settled)
  | thrower => exact chain.conclude below (DerivesAll.receives fits settled)
  | valueThunk value => exact chain.conclude fits.1 (DerivesAll.receives fits.2 settled)
  | throwThunk reason => exact chain.conclude fits.1 (DerivesAll.receives fits.2 settled)
  | resolve target =>
      obtain ⟨target_lt, adopts, rfl⟩ := fits
      exact chain.resolve target_lt below (.inl (adopts.allowsSettle settled))
  | reject target =>
      obtain ⟨target_lt, adopts, rfl⟩ := fits
      exact chain.settle target_lt below (adopts.allowsSettle settled)
  | callback code =>
      cases code with
      | program =>
          apply chain.advance_control (fun _ => .inl)
          intro frame mem
          obtain rfl : Frame.callback capability = frame := by simpa using mem
          exact .inr (DerivesAll.receives fits settled)
      | run call => exact fits.elim
      | markFailed call =>
          have marked := chain.markFailed call
          have receives := DerivesAll.receives fits settled
          apply marked.trans
          apply marked.chain.conclude
          · exact below.mono marked.later.heap.next_le
          · intro promise mem
            obtain ⟨promise_lt, received⟩ := receives promise mem
            exact ⟨Nat.lt_of_lt_of_le promise_lt marked.later.heap.next_le,
              chain.receives_extend marked.later promise_lt received⟩
      | thenFinally call =>
          obtain ⟨call_lt, rfl, rfl⟩ := fits
          exact chain.runFinally call_lt settled below (.inl rfl)
      | catchFinally call =>
          obtain ⟨call_lt, rfl, rfl⟩ := fits
          exact chain.runFinally call_lt settled below (.inr rfl)

/-- The function of a call starts; its completion will be handed to the body. -/
theorem Chain.enterFunction (chain : Chain mayStart host) {handler : Handler Callback Plain}
    {argument : JsValue} {capability : Option ℕ}
    (starts : StartOk mayStart host handler capability) :
    Advances mayStart host (host.runHandler handler argument capability) := by
  obtain ⟨call, call_lt, rfl, may, rfl⟩ := starts
  have known := chain.calls call call_lt
  have entered : Advances mayStart host
      (host.modifyCall call fun record => { record with entered := true }) := by
    apply chain.modifyCall
    · exact ⟨rfl, rfl, rfl, rfl, id, fun _ => rfl, fun _ mem => mem⟩
    · intro completion mem
      exact .inl mem
    · exact .inl
    · exact fun _ => .inr may
  apply entered.trans
  apply entered.chain.advance_control (fun _ => .inl)
  intro frame mem
  obtain rfl : Frame.callback (some (host.calls call).body) = frame := by simpa using mem
  refine .inr ?_
  intro promise mem
  obtain rfl : (host.calls call).body = promise := by simpa using mem
  exact ⟨known.body_lt, .inr ⟨call, known.origin_body⟩⟩

theorem Chain.runJob (chain : Chain mayStart host) {job : Job Callback Plain}
    (queued : JobOk mayStart host job) : Advances mayStart host (host.runJob job) := by
  cases job with
  | reaction source handler argument capability =>
      obtain ⟨_, settled, below, fits | starts⟩ := queued
      · exact chain.runHandler settled below fits
      · exact chain.enterFunction starts
  | adopt target source =>
      obtain ⟨target_lt, source_lt, adopts⟩ := queued
      apply chain.performThen
      exact ⟨source_lt, ⟨target_lt, adopts, rfl⟩, ⟨target_lt, adopts, rfl⟩⟩
  | callThen target object =>
      obtain ⟨target_lt, receives⟩ := queued
      apply chain.advance_control
      · intro promise held
        by_cases same : promise = target
        · exact .inr (same ▸ ⟨target_lt, receives⟩)
        · rw [Function.update_of_ne same] at held
          exact .inl held
      · intro frame mem
        obtain rfl : Frame.thenMethod target = frame := by simpa using mem
        exact .inr target_lt

/-! ### Accepted calls -/

/-- A call is accepted: its promises are made, and its record is added. -/
theorem Chain.accepts (chain : Chain mayStart host) {record : Call}
    (grows : host.heap.Grows new.heap) (nextCall : new.nextCall = host.nextCall + 1)
    (calls : new.calls = Function.update host.calls host.nextCall record)
    (origin : ∀ promise < host.heap.next, new.origin promise = host.origin promise)
    (added : ∀ promise, host.heap.next ≤ promise → promise < new.heap.next →
      (new.origin promise).Below new.nextCall)
    (resolvers : new.resolvers = host.resolvers) (frame : new.frame = host.frame)
    (known : new.CallOk host.nextCall) (fresh : record.entered = false)
    (heap : host.heap.Meets new.SettleOk new.ReactionOk (JobOk mayStart new) →
      new.heap.Meets new.SettleOk new.ReactionOk (JobOk mayStart new)) :
    Advances mayStart host new := by
  have unchanged {call : ℕ} (below : call < host.nextCall) : new.calls call = host.calls call := by
    rw [calls, Function.update_of_ne (Nat.ne_of_lt below)]
  have later : host.Extends new := by
    refine ⟨grows, nextCall ▸ Nat.le_succ _, origin, ?_⟩
    intro call below
    rw [unchanged below]
    exact .refl _
  refine ⟨later, chain.advance later heap ?_ ?_ ?_ ?_, ?_⟩
  · intro call below old
    rcases Nat.lt_succ_iff_lt_or_eq.mp (nextCall ▸ below) with old_lt | rfl
    · apply (old old_lt).extend later old_lt
      · intro completion mem
        exact .inl (unchanged old_lt ▸ mem)
      · intro notCounted
        exact .inl (unchanged old_lt ▸ notCounted)
    · exact known
  · intro promise below
    by_cases old_lt : promise < host.heap.next
    · exact .inl old_lt
    · exact .inr (added promise (Nat.le_of_not_lt old_lt) below)
  · intro promise held
    exact .inl (resolvers ▸ held)
  · intro inner running
    exact .inl (frame ▸ running)
  · intro call below entered
    rcases Nat.lt_succ_iff_lt_or_eq.mp (nextCall ▸ below) with old_lt | rfl
    · exact .inl ⟨old_lt, unchanged old_lt ▸ entered⟩
    · rw [calls, Function.update_self, fresh] at entered
      exact absurd entered (by simp)

/-- The heap after `Promise.resolve().then(fn)`, with which both calls begin. -/
def startedHeap (heap : Heap Callback Plain) (call : ℕ) : Heap Callback Plain :=
  (heap.create.settle heap.next (.fulfilled .undefined)).create.performThen heap.next
    ⟨.callback (.run call), .thrower, some (heap.next + 1)⟩

@[simp]
theorem startedHeap_next (heap : Heap Callback Plain) (call : ℕ) :
    (startedHeap heap call).next = heap.next + 2 := by
  simp [startedHeap]

theorem startedHeap_grows (heap : Heap Callback Plain) (call : ℕ) :
    heap.Grows (startedHeap heap call) :=
  ((Heap.grows_create.trans Heap.grows_settle).trans Heap.grows_create).trans
    Heap.grows_performThen

theorem startedHeap_settled {heap later : Heap Callback Plain} {call : ℕ}
    (grows : (startedHeap heap call).Grows later) : later.Settled heap.next := by
  apply grows.settled
  · rw [startedHeap_next]
    omega
  · simp [startedHeap, Heap.Settled]

theorem startedHeap_pending (heap : Heap Callback Plain) (call : ℕ) :
    (startedHeap heap call).outcome (heap.next + 1) = none := by
  simp [startedHeap]

/-- The function is queued at once, because the first promise has settled. -/
theorem meets_startedHeap {call : ℕ}
    (meets : host.heap.Meets new.SettleOk new.ReactionOk (JobOk mayStart new))
    (first_lt : host.heap.next < new.heap.next) (settled : new.heap.Settled host.heap.next)
    (origin : new.origin host.heap.next = .internal) (call_lt : call < new.nextCall)
    (may : mayStart call) (body : (new.calls call).body = host.heap.next + 1) :
    (startedHeap host.heap call).Meets new.SettleOk new.ReactionOk (JobOk mayStart new) := by
  have resolved : (host.heap.create.settle host.heap.next (.fulfilled .undefined)).Meets
      new.SettleOk new.ReactionOk (JobOk mayStart new) := by
    apply meets.create.settle
    · exact ⟨first_lt, trivial, allowsSettle_internal origin⟩
    · intro reaction waiting
      exact waiting.trigger settled trivial
  apply resolved.create.performThen_settled
  · rw [Heap.outcome_create, Heap.outcome_settle]
    simp
    rfl
  · exact ⟨first_lt, settled, trivial, .inr ⟨call, call_lt, rfl, may, by rw [body]⟩⟩

/-- `.finally` waits for the promise that the record of the call names. -/
theorem meets_finally {heap : Heap Callback Plain} {call guarded result : ℕ}
    (meets : heap.Meets new.SettleOk new.ReactionOk (JobOk mayStart new))
    (pending : heap.create.outcome guarded = none) (guarded_lt : guarded < new.heap.next)
    (call_lt : call < new.nextCall) (isGuarded : guarded = (new.calls call).guarded)
    (isResult : result = (new.calls call).result) :
    (heap.create.performThen guarded ⟨.callback (.thenFinally call), .callback (.catchFinally call),
      some result⟩).Meets new.SettleOk new.ReactionOk (JobOk mayStart new) := by
  apply meets.create.performThen
  · refine ⟨guarded_lt, ?_, ?_⟩
    · exact ⟨call_lt, isGuarded, congrArg some isResult⟩
    · exact ⟨call_lt, isGuarded, congrArg some isResult⟩
  · intro outcome known
    rw [pending] at known
    cases known

/-- `.catch` waits for the body, and its promise is derived from the body whichever
handler runs. -/
theorem meets_catch {heap : Heap Callback Plain} {call body guarded : ℕ}
    (meets : heap.Meets new.SettleOk new.ReactionOk (JobOk mayStart new))
    (pending : heap.create.outcome body = none) (body_lt : body < new.heap.next)
    (guarded_lt : guarded < new.heap.next) (isBody : body = (new.calls call).body)
    (origin : new.origin guarded = .guarded call) :
    (heap.create.performThen body
      ⟨.identity, .callback (.markFailed call), some guarded⟩).Meets new.SettleOk new.ReactionOk
        (JobOk mayStart new) := by
  have derives : new.DerivesAll body (some guarded) := by
    intro promise mem
    obtain rfl : guarded = promise := by simpa using mem
    refine ⟨guarded_lt, ?_⟩
    unfold Derives
    rw [origin]
    exact isBody
  apply meets.create.performThen
  · exact ⟨body_lt, derives, derives⟩
  · intro outcome known
    rw [pending] at known
    cases known

theorem scope_accepts : (host.scope true).1 =
    { host with
      heap := (startedHeap host.heap host.nextCall).create.performThen (host.heap.next + 1)
        ⟨.callback (.thenFinally host.nextCall), .callback (.catchFinally host.nextCall),
          some (host.heap.next + 2)⟩
      activeScopes := host.activeScopes + 1
      calls := Function.update host.calls host.nextCall
        { owner := none, body := host.heap.next + 1, guarded := host.heap.next + 1,
          result := host.heap.next + 2 }
      nextCall := host.nextCall + 1
      origin := Function.update (Function.update (Function.update host.origin host.heap.next
        .internal) (host.heap.next + 1) (.body host.nextCall)) (host.heap.next + 2)
        (.result host.nextCall) } := by
  simp [Host.scope, Host.andFinally, Host.andThen, Host.promiseResolve, Host.newPromise,
    Host.accept, startedHeap]

theorem Chain.scope (chain : Chain mayStart host) (may : mayStart host.nextCall)
    (callable : Bool) : Advances mayStart host (host.scope callable).1 := by
  cases callable with
  | false => exact chain.advances_refl
  | true =>
      rw [scope_accepts]
      apply chain.accepts
      · exact ((startedHeap_grows _ _).trans Heap.grows_create).trans Heap.grows_performThen
      · rfl
      · rfl
      · intro promise below
        simp (disch := omega) only [Function.update_of_ne]
      · intro promise lower upper
        obtain rfl | rfl | rfl : promise = host.heap.next ∨ promise = host.heap.next + 1 ∨
            promise = host.heap.next + 2 := by
          simp only [Heap.next_performThen, Heap.next_create, startedHeap_next] at upper
          omega
        all_goals simp [Origin.Below]
      · rfl
      · rfl
      · constructor <;> simp
      · rfl
      · intro meets
        refine meets_finally (meets_startedHeap meets ?first ?settled ?internal ?accepted may ?body)
          ?pending ?guarded (Nat.lt_succ_self _) ?isGuarded ?isResult
        case first =>
          simp only [Heap.next_performThen, Heap.next_create, startedHeap_next]
          omega
        case settled =>
          exact startedHeap_settled (Heap.grows_create.trans Heap.grows_performThen)
        case accepted => exact Nat.lt_succ_self _
        case pending => simp [startedHeap_pending]
        all_goals simp

theorem async_accepts {owner : ℕ} (open_ : (host.calls owner).failed = false) :
    (host.async owner true).1 =
    { host with
      heap := ((startedHeap host.heap host.nextCall).create.performThen (host.heap.next + 1)
        ⟨.identity, .callback (.markFailed host.nextCall),
          some (host.heap.next + 2)⟩).create.performThen (host.heap.next + 2)
        ⟨.callback (.thenFinally host.nextCall), .callback (.catchFinally host.nextCall),
          some (host.heap.next + 3)⟩
      activeTasks := host.activeTasks + 1
      calls := Function.update host.calls host.nextCall
        { owner := some owner, body := host.heap.next + 1, guarded := host.heap.next + 2,
          result := host.heap.next + 3 }
      nextCall := host.nextCall + 1
      origin := Function.update (Function.update (Function.update (Function.update host.origin
        host.heap.next .internal) (host.heap.next + 1) (.body host.nextCall))
        (host.heap.next + 2) (.guarded host.nextCall)) (host.heap.next + 3)
        (.result host.nextCall) } := by
  simp [Host.async, Host.andFinally, Host.andThen, Host.promiseResolve, Host.newPromise,
    Host.accept, startedHeap, open_]

theorem Chain.async_accepted (chain : Chain mayStart host) (may : mayStart host.nextCall)
    {owner : ℕ} (owner_lt : owner < host.nextCall) (open_ : (host.calls owner).failed = false) :
    Advances mayStart host (host.async owner true).1 := by
  rw [async_accepts open_]
  apply chain.accepts
  · exact ((((startedHeap_grows _ _).trans Heap.grows_create).trans
      Heap.grows_performThen).trans Heap.grows_create).trans Heap.grows_performThen
  · rfl
  · rfl
  · intro promise below
    simp (disch := omega) only [Function.update_of_ne]
  · intro promise lower upper
    obtain rfl | rfl | rfl | rfl : promise = host.heap.next ∨ promise = host.heap.next + 1 ∨
        promise = host.heap.next + 2 ∨ promise = host.heap.next + 3 := by
      simp only [Heap.next_performThen, Heap.next_create, startedHeap_next] at upper
      omega
    all_goals simp [Origin.Below]
  · rfl
  · rfl
  · constructor <;> simp [owner_lt]
  · rfl
  · intro meets
    refine meets_finally (meets_catch (meets_startedHeap meets ?first ?settled ?internal ?accepted
      may ?body) ?bodyPending ?body_lt ?guarded_lt ?isBody ?guarded_origin) ?pending ?guarded
      (Nat.lt_succ_self _) ?isGuarded ?isResult
    case first =>
      simp only [Heap.next_performThen, Heap.next_create, startedHeap_next]
      omega
    case settled =>
      exact startedHeap_settled (((Heap.grows_create.trans Heap.grows_performThen).trans
        Heap.grows_create).trans Heap.grows_performThen)
    case accepted => exact Nat.lt_succ_self _
    case bodyPending => simp [startedHeap_pending]
    all_goals simp

theorem Chain.async (chain : Chain mayStart host) (may : mayStart host.nextCall) {owner : ℕ}
    (owner_lt : owner < host.nextCall) (callable : Bool) :
    Advances mayStart host (host.async owner callable).1 := by
  cases callable with
  | false => exact chain.advances_refl
  | true =>
      cases flag : (host.calls owner).failed with
      | true =>
          unfold Host.async
          rw [flag]
          exact chain.promiseReject trivial
      | false => exact chain.async_accepted may owner_lt flag

/-! ### Actions of the program -/

theorem exposes_below {value : JsValue} (exposed : host.exposes value = true) :
    value.Below host.heap.next := by
  cases value with
  | promise promise =>
      simp only [Host.exposes, Bool.and_eq_true, decide_eq_true_eq] at exposed
      exact exposed.1
  | plain value => trivial
  | thenable object => trivial

theorem Chain.useResolver (chain : Chain mayStart host) {promise : ℕ} {completion : JsCompletion}
    (held : host.resolvers promise = true) (below : completion.value.Below host.heap.next) :
    Advances mayStart host (host.useResolver promise completion) := by
  have used : Advances mayStart host
      { host with resolvers := Function.update host.resolvers promise false } := by
    apply chain.advance_control
    · intro other still
      by_cases same : other = promise
      · subst same
        exact .inl held
      · rw [Function.update_of_ne same] at still
        exact .inl still
    · exact fun _ => .inl
  apply used.trans
  apply used.chain.conclude below
  intro other mem
  obtain rfl : promise = other := by simpa using mem
  exact chain.resolvers promise held

theorem Chain.leave (chain : Chain mayStart host) {frame : Frame} {completion : JsCompletion}
    (running : host.frame = some frame) (below : completion.value.Below host.heap.next) :
    Advances mayStart host (host.leave frame completion) := by
  have left : Advances mayStart host { host with frame := none } :=
    chain.advance_control (fun _ => .inl) (by simp)
  have frameOk := chain.frame frame running
  unfold Host.leave
  dsimp only
  split
  · apply left.trans
    exact left.chain.conclude below frameOk
  · split
    · next held => exact left.trans (left.chain.useResolver held below)
    · exact left
  · exact left

theorem Chain.act (chain : Chain mayStart host) {frame : Frame} {action : Action}
    (may : mayStart host.nextCall) (running : host.frame = some frame)
    (move : ActionMove host frame action new) : Advances mayStart host new := by
  cases move with
  | newPromise =>
      have made : Advances mayStart host (host.newPromise .program) := chain.newPromise trivial
      apply made.trans
      apply made.chain.advance_control
      · intro promise held
        by_cases same : promise = host.heap.next
        · subst same
          exact .inr ⟨Nat.lt_succ_self _, .inl (allowsSettle_program (newPromise_origin_self _))⟩
        · rw [Function.update_of_ne same] at held
          exact .inl held
      · exact fun _ => .inl
  | useResolver held exposed => exact chain.useResolver held (exposes_below exposed)
  | @andThen promise onFulfilled onRejected exposed =>
      apply chain.andThen (exposes_below exposed) (.inl rfl)
      · cases onFulfilled <;> exact derivesAll_newPromise (.inl rfl)
      · cases onRejected <;> exact derivesAll_newPromise (.inl rfl)
  | await exposed =>
      apply chain.performThen
      exact ⟨exposes_below exposed, by simp [HandlerOk, DerivesAll],
        by simp [HandlerOk, DerivesAll]⟩
  | scope callable => exact chain.scope may callable
  | async callable owner_lt => exact chain.async may owner_lt callable
  | leave exposed => exact chain.leave running (exposes_below exposed)

/-- Every step leads to a later state in which the invariant holds. -/
theorem Chain.step (chain : Chain mayStart host) {event : Event} (may : mayStart host.nextCall)
    (taken : host.step event = some new) : Advances mayStart host new := by
  cases step_move taken with
  | enter =>
      apply chain.advance_control (fun _ => .inl)
      intro frame mem
      obtain rfl : Frame.callback none = frame := by simpa using mem
      exact .inr (by simp [FrameOk])
  | act running move => exact chain.act may running move
  | @job job rest queue =>
      have popped := chain.popJob queue
      have queued : JobOk mayStart host job := chain.heap.queued job (by simp [queue])
      exact popped.trans (popped.chain.runJob (chain.jobOk_extend popped.later queued))

end Kode.Scope.Host
