import Libcoro.WhenAll.Latch
import Libcoro.Event.Model

/-!
# `coro::when_any`

The coroutine of `when_any` holds the event `notify` and the optional `return_value` in its frame.
It resumes a controller, whose frame holds the flag `first_completed` and which awaits `when_all` of
one task for each awaitable, and then it awaits `notify`.  A task whose awaitable has returned tries
to be the first to set the flag.  The winner stores the value and sets `notify`; the others end.  A
task whose awaitable throws ends with the exception.  The controller deletes itself when all tasks
have ended.

The `when_all` of the controller is that of `Libcoro.WhenAll.Model`.  Only the coroutine of
`when_any` awaits `notify`, so that the list of its awaiters has at most one node.
-/

namespace Libcoro.WhenAny

open Foundations Event Function

/-- The forms of `when_any`: for a tuple, for a range, and for a range whose awaitables return
nothing, in which there is no `return_value`. -/
inductive Kind where
  | tuple
  | range
  | voidRange
  deriving DecidableEq, Repr

/-- Where a task is after its awaitable has returned.  The winner of `first_completed` writes
`return_value` and sets `notify`, and it resumes the coroutine of `when_any` if it has found it on
the list.  A task that has `ended` has left the rest to the task of `when_all` around it. -/
inductive TaskPc where
  | awaiting
  | exchange
  | write
  | set
  | resume
  | ended
  deriving DecidableEq, Repr

/-- Where the coroutine of `when_any` is: inside `resume` of the controller, in the `co_await` of
`notify`, or past it. -/
inductive CallerPc where
  | controller
  | awaitReady
  | suspendLoad
  | suspendExchange
  | suspended
  | requestStop
  | readValue
  | returned
  deriving DecidableEq, Repr

/-- The frames of `when_any`, of the controller and of the tasks; `α i` is the type of what the
`i`-th awaitable returns. -/
structure State (n : ℕ) (ε : Type*) (α : Fin n → Type*) where
  notify : Word Unit
  -- The index is stored by the tuple form; in a range it is history.
  returnValue : Option (Σ i, α i)
  caller : CallerPc
  firstCompleted : Bool
  -- Whether the frame of the controller exists.
  controllerFrame : Bool
  all : WhenAll.State n ε fun _ => Unit
  task : Fin n → TaskPc
  -- What the awaitable of the task has returned, in the frame of the task.
  result : (i : Fin n) → Option (α i)
  stopRequested : Bool
  -- History, read by no step: how each awaitable has completed, who has won `first_completed`, how
  -- often the coroutine of `when_any` has been suspended and resumed, and what it has returned.
  outcome : (i : Fin n) → Option (Except ε (α i))
  wins : List (Fin n)
  suspensions : ℕ
  resumptions : ℕ
  returned : Option (Σ i, α i)

/-- The coroutine of `when_any` or the controller takes its next step, the controller deletes
itself, the `i`-th awaitable completes, the `i`-th task takes its next step, or the weak
compare-exchange of `await_suspend` fails without a reason. -/
inductive Action (n : ℕ) (ε : Type*) (α : Fin n → Type*) where
  | caller
  | controller
  | destroy
  | complete (i : Fin n) (r : Except ε (α i))
  | task (i : Fin n)
  | spurious

variable {n : ℕ} {ε : Type*} {α : Fin n → Type*}

/-- The form of the `when_all` of the controller. -/
def Kind.form : Kind → WhenAll.Form
  | .tuple => .tuple
  | .range => .range
  | .voidRange => .range

/-- What the winner does first. -/
def Kind.won : Kind → TaskPc
  | .tuple => .write
  | .range => .write
  | .voidRange => .set

/-- What follows the `co_await` of `notify`, with or without a stop source. -/
def notified (stopSource : Bool) : CallerPc :=
  if stopSource then .requestStop else .readValue

/-- The controller has returned control to the coroutine of `when_any`: it has been suspended, or
it has deleted itself. -/
def State.controllerLeft (s : State n ε α) : Prop :=
  s.all.awaiter = .suspended ∨ s.all.awaiter = .resumed ∨ s.controllerFrame = false

instance (s : State n ε α) : Decidable s.controllerLeft :=
  inferInstanceAs (Decidable (_ ∨ _ ∨ _))

/-- The `i`-th task ends with `r`, which the task of `when_all` around it stores. -/
@[simp] def State.finish (s : State n ε α) (i : Fin n) (r : Except ε Unit) : State n ε α :=
  { s with task := update s.task i .ended, all := WhenAll.complete s.all i r }

/-- The test of the loop in `await_suspend`. -/
def suspendTest (stopSource : Bool) (s : State n ε α) : State n ε α :=
  if s.notify = .this then { s with caller := notified stopSource }
  else { s with caller := .suspendExchange }

/-- The next step of the coroutine of `when_any`. -/
def caller (stopSource : Bool) (s : State n ε α) : Option (State n ε α) :=
  match s.caller with
  | .controller => if s.controllerLeft then some { s with caller := .awaitReady } else none
  | .awaitReady =>
    if s.notify = .this then some { s with caller := notified stopSource }
    else some { s with caller := .suspendLoad }
  | .suspendLoad => some (suspendTest stopSource s)
  | .suspendExchange =>
    if s.notify = .null then
      some { s with
        notify := .awaiter ()
        caller := .suspended
        suspensions := s.suspensions + 1 }
    else some (suspendTest stopSource s)
  | .requestStop => some { s with stopRequested := true, caller := .readValue }
  | .readValue => some { s with returned := s.returnValue, caller := .returned }
  | .suspended | .returned => none

/-- The `i`-th awaitable completes, and its task goes on. -/
def complete (s : State n ε α) (i : Fin n) (r : Except ε (α i)) : Option (State n ε α) :=
  if s.all.task i = .running ∧ s.task i = .awaiting then
    match r with
    | .ok a =>
      some { s with
        task := update s.task i .exchange
        result := update s.result i (some a)
        outcome := update s.outcome i (some (.ok a)) }
    | .error e =>
      some { s.finish i (.error e) with
        outcome := update s.outcome i (some (.error e)) }
  else none

/-- The next step of the `i`-th task. -/
def task (kind : Kind) (stopSource : Bool) (s : State n ε α) (i : Fin n) : Option (State n ε α) :=
  match s.task i with
  | .exchange =>
    if s.firstCompleted then some (s.finish i (.ok ()))
    else
      some { s with
        firstCompleted := true
        task := update s.task i kind.won
        wins := i :: s.wins }
  | .write =>
    some { s with
      returnValue := (s.result i).map fun a => ⟨i, a⟩
      task := update s.task i .set }
  | .set =>
    if s.notify = .awaiter () then
      some { s with notify := .this, task := update s.task i .resume }
    else some { s.finish i (.ok ()) with notify := .this }
  | .resume =>
    some { s.finish i (.ok ()) with
      caller := notified stopSource
      resumptions := s.resumptions + 1 }
  | .ended => (WhenAll.notify s.all i).map fun all => { s with all := all }
  | .awaiting => none

/-- One step of the system. -/
def step (kind : Kind) (stopSource : Bool) (s : State n ε α) :
    Action n ε α → Option (State n ε α)
  | .caller => caller stopSource s
  | .controller => (WhenAll.await kind.form s.all).map fun all => { s with all := all }
  | .destroy =>
    if (s.all.awaiter = .resumed ∨ s.all.awaiter = .continued) ∧ s.controllerFrame = true then
      some { s with controllerFrame := false }
    else none
  | .complete i r => complete s i r
  | .task i => task kind stopSource s i
  | .spurious => if s.caller = .suspendExchange then some (suspendTest stopSource s) else none

/-- The coroutine of `when_any` has made the controller and resumes it. -/
def start (kind : Kind) : State n ε α where
  notify := .null
  returnValue := none
  caller := .controller
  firstCompleted := false
  controllerFrame := true
  all := WhenAll.start kind.form
  task _ := .awaiting
  result _ := none
  stopRequested := false
  outcome _ := none
  wins := []
  suspensions := 0
  resumptions := 0
  returned := none

/-- A `when_any` of `n` awaitables as a machine. -/
def machine (n : ℕ) (ε : Type*) (α : Fin n → Type*) (kind : Kind) (stopSource : Bool) :
    Machine (State n ε α) (Action n ε α) where
  start := start kind
  step := step kind stopSource

/-! ## The transitions -/

/-- The moves of the coroutine of `when_any` that change nothing but its control point. -/
inductive Quiet (stopSource : Bool) (s : State n ε α) : CallerPc → CallerPc → Prop
  | left : s.controllerLeft → Quiet stopSource s .controller .awaitReady
  | notReady : s.notify ≠ .this → Quiet stopSource s .awaitReady .suspendLoad
  | load : s.notify ≠ .this → Quiet stopSource s .suspendLoad .suspendExchange
  | reload : s.notify ≠ .this → Quiet stopSource s .suspendExchange .suspendExchange
  | ready : s.notify = .this → Quiet stopSource s .awaitReady (notified stopSource)
  | loadSet : s.notify = .this → Quiet stopSource s .suspendLoad (notified stopSource)
  | reloadSet : s.notify = .this → Quiet stopSource s .suspendExchange (notified stopSource)

/-- What a step can do. -/
inductive Transition (kind : Kind) (stopSource : Bool) (s : State n ε α) : State n ε α → Prop
  | quiet {p : CallerPc} : Quiet stopSource s s.caller p →
      Transition kind stopSource s { s with caller := p }
  | suspend : s.caller = .suspendExchange → s.notify = .null →
      Transition kind stopSource s { s with
        notify := .awaiter ()
        caller := .suspended
        suspensions := s.suspensions + 1 }
  | requestStop : s.caller = .requestStop →
      Transition kind stopSource s { s with stopRequested := true, caller := .readValue }
  | readValue : s.caller = .readValue →
      Transition kind stopSource s { s with returned := s.returnValue, caller := .returned }
  | controller {a : WhenAll.State n ε fun _ => Unit} : WhenAll.await kind.form s.all = some a →
      Transition kind stopSource s { s with all := a }
  | destroy : s.all.awaiter = .resumed ∨ s.all.awaiter = .continued →
      Transition kind stopSource s { s with controllerFrame := false }
  | returns {i : Fin n} {a : α i} : s.all.task i = .running → s.task i = .awaiting →
      Transition kind stopSource s { s with
        task := update s.task i .exchange
        result := update s.result i (some a)
        outcome := update s.outcome i (some (.ok a)) }
  | throws {i : Fin n} {e : ε} : s.all.task i = .running → s.task i = .awaiting →
      Transition kind stopSource s { s.finish i (.error e) with
        outcome := update s.outcome i (some (.error e)) }
  | lose {i : Fin n} : s.task i = .exchange → s.firstCompleted = true →
      Transition kind stopSource s (s.finish i (.ok ()))
  | win {i : Fin n} : s.task i = .exchange → s.firstCompleted = false →
      Transition kind stopSource s { s with
        firstCompleted := true
        task := update s.task i kind.won
        wins := i :: s.wins }
  | write {i : Fin n} : s.task i = .write →
      Transition kind stopSource s { s with
        returnValue := (s.result i).map fun a => ⟨i, a⟩
        task := update s.task i .set }
  | setAwaited {i : Fin n} : s.task i = .set → s.notify = .awaiter () →
      Transition kind stopSource s { s with
        notify := .this
        task := update s.task i .resume }
  | setAlone {i : Fin n} : s.task i = .set → s.notify ≠ .awaiter () →
      Transition kind stopSource s { s.finish i (.ok ()) with notify := .this }
  | resume {i : Fin n} : s.task i = .resume →
      Transition kind stopSource s { s.finish i (.ok ()) with
        caller := notified stopSource
        resumptions := s.resumptions + 1 }
  | notify {i : Fin n} {a : WhenAll.State n ε fun _ => Unit} : s.task i = .ended →
      WhenAll.notify s.all i = some a → Transition kind stopSource s { s with all := a }

variable {kind : Kind} {stopSource : Bool} {s t : State n ε α}

/-- Every step of the coroutine of `when_any` is one of the listed transitions. -/
lemma caller_transition (h : caller stopSource s = some t) : Transition kind stopSource s t := by
  unfold caller at h
  split at h <;> rename_i hc
  · split_ifs at h with hleft
    cases h
    exact .quiet (hc ▸ .left hleft)
  · split_ifs at h with hset
    · cases h
      exact .quiet (hc ▸ .ready hset)
    · cases h
      exact .quiet (hc ▸ .notReady hset)
  · cases h
    unfold suspendTest
    split_ifs with hset
    · exact .quiet (hc ▸ .loadSet hset)
    · exact .quiet (hc ▸ .load hset)
  · split_ifs at h with hnull
    · cases h
      exact .suspend hc hnull
    · cases h
      unfold suspendTest
      split_ifs with hset
      · exact .quiet (hc ▸ .reloadSet hset)
      · refine .quiet ?_
        rw [hc]
        exact .reload hset
  · cases h
    exact .requestStop hc
  · cases h
    exact .readValue hc
  all_goals simp at h

/-- Every step of a task is one of the listed transitions. -/
lemma task_transition {i : Fin n} (h : task kind stopSource s i = some t) :
    Transition kind stopSource s t := by
  unfold task at h
  split at h <;> rename_i hi
  · split_ifs at h with hfirst
    · cases h
      exact .lose hi hfirst
    · cases h
      exact .win hi (by simpa using hfirst)
  · cases h
    exact .write hi
  · split_ifs at h with hawaited
    · cases h
      exact .setAwaited hi hawaited
    · cases h
      exact .setAlone hi hawaited
  · cases h
    exact .resume hi
  · obtain ⟨a, ha, rfl⟩ := Option.map_eq_some_iff.mp h
    exact .notify hi ha
  · simp at h

/-- Every step of the system is one of the listed transitions. -/
lemma step_transition {a : Action n ε α} (h : step kind stopSource s a = some t) :
    Transition kind stopSource s t := by
  cases a with
  | caller => exact caller_transition h
  | controller =>
    obtain ⟨a, ha, rfl⟩ := Option.map_eq_some_iff.mp h
    exact .controller ha
  | destroy =>
    obtain ⟨⟨hdone, -⟩, rfl⟩ := by simpa [step] using h
    exact .destroy hdone
  | complete i r =>
    simp only [step, complete] at h
    split_ifs at h with hi
    cases r with
    | ok a =>
      cases h
      exact .returns hi.1 hi.2
    | error e =>
      cases h
      exact .throws hi.1 hi.2
  | task i => exact task_transition h
  | spurious =>
    obtain ⟨hc, rfl⟩ := by simpa [step] using h
    unfold suspendTest
    split_ifs with hset
    · exact .quiet (hc ▸ .reloadSet hset)
    · refine .quiet ?_
      rw [hc]
      exact .reload hset

end Libcoro.WhenAny
