/-
# Step systems and their runs

A component that reacts to one event at a time is given by a partial step
function: an event that is not enabled in a state has no successor. This module
fixes what a run of such a component is and how a property of all its states is
proved. It names nothing of a particular program.

`runSteps` executes a list of events, so that a concrete run can be evaluated.
`ReachableUnder` is the same notion as an inductive predicate, with a condition
on every step taken; the invariant rule is its induction principle. A run
without a condition is the special case in which every step is allowed.
-/

import Mathlib.Data.List.Basic
import Mathlib.Data.List.Forall2

namespace Kode.Library

universe u v w

variable {σ : Type u} {ε : Type v} {ο : Type w}

/-- Execute a list of events from left to right, stopping at the first one that
is not enabled. -/
def runSteps (step : σ → ε → Option σ) : σ → List ε → Option σ
  | state, [] => some state
  | state, event :: events => (step state event).bind fun next => runSteps step next events

@[simp]
theorem runSteps_nil (step : σ → ε → Option σ) (state : σ) :
    runSteps step state [] = some state := rfl

/-- A run behind a run. -/
theorem runSteps_append (step : σ → ε → Option σ) (state : σ) (first second : List ε) :
    runSteps step state (first ++ second) =
      (runSteps step state first).bind fun middle => runSteps step middle second := by
  induction first generalizing state with
  | nil => rfl
  | cons event events ih => simp only [List.cons_append, runSteps, Option.bind_assoc, ih]

/-- The states reached from `start` by steps that all meet `allowed` in the
state they are taken from. -/
inductive ReachableUnder (step : σ → ε → Option σ) (allowed : σ → ε → Prop) (start : σ) :
    σ → Prop
  | start : ReachableUnder step allowed start start
  | next {state target : σ} {event : ε} (prior : ReachableUnder step allowed start state)
      (meets : allowed state event) (taken : step state event = some target) :
      ReachableUnder step allowed start target

/-- The states reached from `start` by any steps at all. -/
abbrev Reachable (step : σ → ε → Option σ) (start : σ) : σ → Prop :=
  ReachableUnder step (fun _ _ => True) start

namespace ReachableUnder

variable {step : σ → ε → Option σ} {allowed weaker : σ → ε → Prop} {start state target : σ}

/-- The invariant rule: a property of the start that every allowed step
preserves holds of every state reached. -/
theorem invariant {motive : σ → Prop} (base : motive start)
    (preserved : ∀ state event target, motive state → allowed state event →
      step state event = some target → motive target)
    (reached : ReachableUnder step allowed start state) : motive state := by
  induction reached with
  | start => exact base
  | next prior meets taken ih => exact preserved _ _ _ ih meets taken

/-- The invariant rule with the help of a fact that is known of the states reached. -/
theorem invariant_given {motive known : σ → Prop}
    (fact : ∀ state, ReachableUnder step allowed start state → known state) (base : motive start)
    (preserved : ∀ state event target, known state → motive state → allowed state event →
      step state event = some target → motive target)
    (reached : ReachableUnder step allowed start state) : motive state := by
  induction reached with
  | start => exact base
  | next prior meets taken ih => exact preserved _ _ _ (fact _ prior) ih meets taken

/-- Conditions on the steps can be dropped. -/
theorem weaken (imply : ∀ state event, allowed state event → weaker state event)
    (reached : ReachableUnder step allowed start state) :
    ReachableUnder step weaker start state := by
  induction reached with
  | start => exact .start
  | next prior meets taken ih => exact .next ih (imply _ _ meets) taken

theorem toReachable (reached : ReachableUnder step allowed start state) :
    Reachable step start state :=
  reached.weaken fun _ _ _ => trivial

/-- Runs compose. -/
theorem trans (first : ReachableUnder step allowed start state)
    (second : ReachableUnder step allowed state target) :
    ReachableUnder step allowed start target := by
  induction second with
  | start => exact first
  | next _ meets taken ih => exact .next ih meets taken

end ReachableUnder

/-- An evaluated run is a run. -/
theorem reachable_of_runSteps {step : σ → ε → Option σ} {start target : σ} {events : List ε}
    (ran : runSteps step start events = some target) : Reachable step start target := by
  induction events generalizing start with
  | nil =>
      obtain rfl : start = target := by simpa using ran
      exact .start
  | cons event events ih =>
      obtain ⟨middle, taken, rest⟩ := Option.bind_eq_some_iff.mp ran
      exact (ReachableUnder.next .start trivial taken).trans (ih rest)

/-- Refuse the events that fail a test. -/
def guarded (step : σ → ε → Option σ) (test : σ → ε → Bool) (state : σ) (event : ε) :
    Option σ :=
  if test state event then step state event else none

/-- A run that passed the test at every step is a run under any condition the test
implies. -/
theorem reachableUnder_of_guarded {step : σ → ε → Option σ} {allowed : σ → ε → Prop}
    {test : σ → ε → Bool} (sound : ∀ state event, test state event = true → allowed state event)
    {start target : σ} {events : List ε}
    (ran : runSteps (guarded step test) start events = some target) :
    ReachableUnder step allowed start target := by
  refine (reachable_of_runSteps ran).invariant .start fun state event next prior _ taken => ?_
  unfold guarded at taken
  split_ifs at taken with passed
  exact .next prior (sound state event passed) taken

/-- Let a component that answers each event keep the list of its answers,
oldest first, next to its state. -/
def recorded (step : σ → ε → Option (σ × ο)) (state : σ × List ο) (event : ε) :
    Option (σ × List ο) :=
  (step state.1 event).map fun answered => (answered.1, state.2 ++ [answered.2])

theorem recorded_eq_some_iff {step : σ → ε → Option (σ × ο)} {state target : σ × List ο}
    {event : ε} : recorded step state event = some target ↔
      ∃ answer, step state.1 event = some (target.1, answer) ∧
        target.2 = state.2 ++ [answer] := by
  obtain ⟨targetState, targetHistory⟩ := target
  simp only [recorded, Option.map_eq_some_iff, Prod.mk.injEq, Prod.exists]
  constructor
  · rintro ⟨next, answer, taken, rfl, rfl⟩
    exact ⟨answer, taken, rfl⟩
  · rintro ⟨answer, taken, rfl⟩
    exact ⟨targetState, answer, taken, rfl, rfl⟩

/-- The lockstep rule: where the abstract state is a function of the concrete one and every
step commutes with it, so does a run, event by event. -/
theorem runSteps_of_commutes {τ : Type*} {κ : Type*} {step : σ → ε → Option σ}
    {abstractStep : τ → κ → Option τ} (project : σ → τ) (holds : σ → Prop)
    {matched : ε → κ → Prop}
    (commutes : ∀ {state event other}, holds state → matched event other →
      abstractStep (project state) other = (step state event).map project)
    (keeps : ∀ {state event other next}, holds state → matched event other →
      step state event = some next → holds next)
    {state : σ} (start : holds state) {events : List ε} {others : List κ}
    (related : List.Forall₂ matched events others) :
    runSteps abstractStep (project state) others = (runSteps step state events).map project := by
  induction related generalizing state with
  | nil => rfl
  | cons here _ ih =>
      rw [runSteps, runSteps, commutes start here]
      cases taken : step state _ with
      | none => rfl
      | some next => exact ih (keeps start here taken)

/-- Let such a component keep each answer with the event it is for. -/
def logged (step : σ → ε → Option (σ × ο)) (state : σ × List (ε × ο)) (event : ε) :
    Option (σ × List (ε × ο)) :=
  (step state.1 event).map fun answered => (answered.1, state.2 ++ [(event, answered.2)])

theorem logged_eq_some_iff {step : σ → ε → Option (σ × ο)} {state target : σ × List (ε × ο)}
    {event : ε} : logged step state event = some target ↔
      ∃ answer, step state.1 event = some (target.1, answer) ∧
        target.2 = state.2 ++ [(event, answer)] := by
  obtain ⟨targetState, targetLog⟩ := target
  simp only [logged, Option.map_eq_some_iff, Prod.mk.injEq, Prod.exists]
  constructor
  · rintro ⟨next, answer, taken, rfl, rfl⟩
    exact ⟨answer, taken, rfl⟩
  · rintro ⟨answer, taken, rfl⟩
    exact ⟨targetState, answer, taken, rfl, rfl⟩

/-- Let an observer write down what it sees of the steps, oldest first. -/
def observed (step : σ → ε → Option σ) (sees : σ → ε → σ → Option ο) (state : σ × List ο)
    (event : ε) : Option (σ × List ο) :=
  (step state.1 event).map fun next => (next, state.2 ++ (sees state.1 event next).toList)

theorem observed_eq_some_iff {step : σ → ε → Option σ} {sees : σ → ε → σ → Option ο}
    {state target : σ × List ο} {event : ε} : observed step sees state event = some target ↔
      step state.1 event = some target.1 ∧
        target.2 = state.2 ++ (sees state.1 event target.1).toList := by
  obtain ⟨next, log⟩ := target
  simp only [observed, Option.map_eq_some_iff, Prod.mk.injEq]
  constructor
  · rintro ⟨_, taken, rfl, rfl⟩
    exact ⟨taken, rfl⟩
  · rintro ⟨taken, rfl⟩
    exact ⟨next, taken, rfl, rfl⟩

/-- The refinement rule: if every step that the observer sees is a step of another component,
and every other step leaves the related state as it is, then what the observer has seen is a
run of the other component. -/
theorem ReachableUnder.runs_observed {τ : Type*} {step : σ → ε → Option σ}
    {sees : σ → ε → σ → Option ο} {allowed : σ → ε → Prop} {abstractStep : τ → ο → Option τ}
    (known : σ → Prop) (related : σ → τ → Prop) {start : σ} {other : τ}
    (keeps : ∀ state event target, known state → allowed state event →
      step state event = some target → known target)
    (unseen : ∀ state event target abstract, known state → allowed state event →
      step state event = some target → sees state event target = none →
        related state abstract → related target abstract)
    (seen : ∀ state event target action abstract, known state → allowed state event →
      step state event = some target → sees state event target = some action →
        related state abstract →
          ∃ next, abstractStep abstract action = some next ∧ related target next)
    (knownStart : known start) (relatedStart : related start other) {later : σ × List ο}
    (reached : ReachableUnder (observed step sees) (fun state => allowed state.1) (start, [])
      later) :
    known later.1 ∧ ∃ abstract, runSteps abstractStep other later.2 = some abstract ∧
      related later.1 abstract := by
  refine reached.invariant (motive := fun later => known later.1 ∧ ∃ abstract,
    runSteps abstractStep other later.2 = some abstract ∧ related later.1 abstract)
    ⟨knownStart, other, rfl, relatedStart⟩ ?_
  rintro state event target ⟨holds, abstract, ran, linked⟩ meets taken
  obtain ⟨stepped, logged⟩ := observed_eq_some_iff.mp taken
  refine ⟨keeps _ _ _ holds meets stepped, ?_⟩
  cases sight : sees state.1 event target.1 with
  | none =>
      rw [sight, Option.toList_none, List.append_nil] at logged
      rw [logged]
      exact ⟨abstract, ran, unseen _ _ _ _ holds meets stepped sight linked⟩
  | some action =>
      obtain ⟨next, followed, still⟩ := seen _ _ _ _ _ holds meets stepped sight linked
      rw [sight, Option.toList_some] at logged
      refine ⟨next, ?_, still⟩
      rw [logged, runSteps_append, ran, Option.bind_some, runSteps, followed, Option.bind_some,
        runSteps_nil]

/-- Let a component count the steps of one kind that it takes. -/
def metered (step : σ → ε → Option σ) (counts : σ → ε → Bool) (state : σ × ℕ) (event : ε) :
    Option (σ × ℕ) :=
  (step state.1 event).map fun next =>
    (next, if counts state.1 event then state.2 + 1 else state.2)

theorem metered_eq_some_iff {step : σ → ε → Option σ} {counts : σ → ε → Bool}
    {state target : σ × ℕ} {event : ε} : metered step counts state event = some target ↔
      step state.1 event = some target.1 ∧
        target.2 = if counts state.1 event then state.2 + 1 else state.2 := by
  obtain ⟨next, count⟩ := target
  simp only [metered, Option.map_eq_some_iff, Prod.mk.injEq]
  constructor
  · rintro ⟨_, taken, rfl, rfl⟩
    exact ⟨taken, rfl⟩
  · rintro ⟨taken, rfl⟩
    exact ⟨next, taken, rfl, rfl⟩

/-- The variant rule: where every counted step lowers a measure and no step raises it, a run
has at most as many counted steps as the measure was at its start. -/
theorem ReachableUnder.metered_le {step : σ → ε → Option σ} {counts : σ → ε → Bool}
    {allowed : σ → ε → Prop} (holds : σ → Prop) (measure : σ → ℕ)
    (keeps : ∀ state event target, holds state → allowed state event →
      step state event = some target → holds target)
    (lowers : ∀ state event target, holds state → allowed state event →
      step state event = some target →
        measure target + (if counts state event then 1 else 0) ≤ measure state)
    {start : σ} (begins : holds start) {later : σ × ℕ}
    (reached : ReachableUnder (metered step counts) (fun state => allowed state.1) (start, 0)
      later) :
    holds later.1 ∧ measure later.1 + later.2 ≤ measure start := by
  refine reached.invariant (motive := fun later =>
    holds later.1 ∧ measure later.1 + later.2 ≤ measure start) ⟨begins, Nat.le_refl _⟩ ?_
  rintro state event target ⟨holdsNow, bound⟩ meets taken
  obtain ⟨stepped, counted⟩ := metered_eq_some_iff.mp taken
  have lower := lowers state.1 event target.1 holdsNow meets stepped
  refine ⟨keeps state.1 event target.1 holdsNow meets stepped, ?_⟩
  rw [counted]
  split_ifs at lower ⊢ <;> omega

/-- The answers of a component to a list of events, as long as every event is
enabled. -/
def transcript (step : σ → ε → Option (σ × ο)) : σ → List ε → Option (List ο)
  | _, [] => some []
  | state, event :: events =>
      (step state event).bind fun answered =>
        (transcript step answered.1 events).map (answered.2 :: ·)

theorem transcript_cons_eq_some {step : σ → ε → Option (σ × ο)} {state : σ} {event : ε}
    {events : List ε} {answers : List ο} :
    transcript step state (event :: events) = some answers ↔
      ∃ next answer rest, step state event = some (next, answer) ∧
        transcript step next events = some rest ∧ answers = answer :: rest := by
  simp only [transcript, Option.bind_eq_some_iff, Option.map_eq_some_iff, Prod.exists]
  constructor
  · rintro ⟨next, answer, taken, rest, remaining, rfl⟩
    exact ⟨next, answer, rest, taken, remaining, rfl⟩
  · rintro ⟨next, answer, rest, taken, remaining, rfl⟩
    exact ⟨next, answer, taken, rest, remaining, rfl⟩

/-- The simulation rule: a component whose every answer another one can give from a
related state has its transcripts among those of the other. -/
theorem transcript_of_simulation {τ : Type*} {step : σ → ε → Option (σ × ο)}
    {abstractStep : τ → ε → Option (τ × ο)} (related : σ → τ → Prop)
    (simulates : ∀ {state other event next answer}, related state other →
      step state event = some (next, answer) →
        ∃ follow, abstractStep other event = some (follow, answer) ∧ related next follow)
    {state : σ} {other : τ} {events : List ε} {answers : List ο} (start : related state other)
    (ran : transcript step state events = some answers) :
    transcript abstractStep other events = some answers := by
  induction events generalizing state other answers with
  | nil => exact ran
  | cons event events ih =>
      obtain ⟨next, answer, rest, taken, remaining, rfl⟩ := transcript_cons_eq_some.mp ran
      obtain ⟨follow, matched, still⟩ := simulates start taken
      exact transcript_cons_eq_some.mpr ⟨follow, answer, rest, matched, ih still remaining, rfl⟩

/-- Where the abstract state is a function of the concrete one and every step commutes with
it, the two components have the same transcripts. -/
theorem transcript_of_commutes {τ : Type*} {step : σ → ε → Option (σ × ο)}
    {abstractStep : τ → ε → Option (τ × ο)} (project : σ → τ) (holds : σ → Prop)
    (keeps : ∀ {state event next answer}, holds state → step state event = some (next, answer) →
      holds next)
    (commutes : ∀ {state} event, holds state → abstractStep (project state) event =
      (step state event).map fun answered => (project answered.1, answered.2))
    {state : σ} (start : holds state) (events : List ε) :
    transcript abstractStep (project state) events = transcript step state events := by
  induction events generalizing state with
  | nil => rfl
  | cons event events ih =>
      rw [transcript, transcript, commutes event start]
      cases taken : step state event with
      | none => rfl
      | some answered =>
          rw [Option.map_some, Option.bind_some, Option.bind_some, ih (keeps start taken)]

/-- The answers to a list of events that are computed from the events before each. -/
def replies (reply : List ε → ε → ο) : List ε → List ε → List ο
  | _, [] => []
  | history, event :: events =>
      reply history event :: replies reply (history ++ [event]) events

/-- The history rule: a component whose state only summarizes the events so far answers as a
function of them. -/
theorem transcript_eq_replies {step : σ → ε → Option (σ × ο)} {reply : List ε → ε → ο}
    (holds : σ → List ε → Prop)
    (answers : ∀ {state history event next answer}, holds state history →
      step state event = some (next, answer) →
        holds next (history ++ [event]) ∧ answer = reply history event)
    {state : σ} {history events : List ε} {outputs : List ο} (start : holds state history)
    (ran : transcript step state events = some outputs) :
    outputs = replies reply history events := by
  induction events generalizing state history outputs with
  | nil => exact (Option.some.inj ran).symm
  | cons event events ih =>
      obtain ⟨next, answer, rest, taken, remaining, rfl⟩ := transcript_cons_eq_some.mp ran
      obtain ⟨still, rfl⟩ := answers start taken
      rw [replies, ← ih still remaining]

end Kode.Library
