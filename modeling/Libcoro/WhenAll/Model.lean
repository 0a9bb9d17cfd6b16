import Libcoro.Foundations.Machine

/-!
# `coro::when_all`

`when_all` wraps each of its `n` awaitables into a task.  The coroutine that awaits the result
starts the tasks one after the other, stores its handle in the latch and takes its own one from
`m_count`, which has begun at `n + 1`; it suspends if that was not the last one.  A task whose
awaitable has completed, by a value or by an exception, takes one from `m_count` and resumes the
awaiting coroutine if it was the last one.

A started task runs until its awaitable completes, on whatever thread and also before the awaiting
coroutine takes its next step, as it does when the awaitable completes inside `start`.
-/

namespace Libcoro.WhenAll

open Foundations Function

/-- The two forms of `when_all`.  The one for a tuple has a special case for the empty tuple, which
has no latch. -/
inductive Form where
  | tuple
  | range
  deriving DecidableEq, Repr

/-- Where the awaiting coroutine is.  It was resumed by a task, or it has `continued` without
having been suspended. -/
inductive AwaiterPc where
  | awaitReady
  | starting (k : ℕ)
  | tryAwait
  | suspended
  | resumed
  | continued
  deriving DecidableEq, Repr

/-- Where a task is: its awaitable runs, or it has completed and the task has yet to notify the
latch, or the task has found that it was the last one. -/
inductive TaskPc where
  | created
  | running
  | notifying
  | resuming
  | done
  deriving DecidableEq, Repr

/-- The latch, the promises of the tasks and the coroutines; `α i` is the type of the `i`-th
result. -/
structure State (n : ℕ) (ε : Type*) (α : Fin n → Type*) where
  mCount : ℤ
  -- Whether `m_awaiting_coroutine` has been stored.
  mAwaitingCoroutine : Bool
  mExceptionPtr : Fin n → Option ε
  mReturnValue : (i : Fin n) → Option (α i)
  awaiter : AwaiterPc
  task : Fin n → TaskPc
  -- History, read by no step: how each awaitable has completed, and how often a task has resumed
  -- the awaiting coroutine.
  outcome : (i : Fin n) → Option (Except ε (α i))
  resumptions : ℕ

/-- The awaiting coroutine takes its next step, the `i`-th awaitable completes, or the `i`-th task
takes its next step. -/
inductive Action (n : ℕ) (ε : Type*) (α : Fin n → Type*) where
  | await
  | complete (i : Fin n) (r : Except ε (α i))
  | notify (i : Fin n)

variable {n : ℕ} {ε : Type*} {α : Fin n → Type*}

/-- What `return_value` of the `i`-th task gives: the exception is thrown again. -/
def State.returnValue (s : State n ε α) (i : Fin n) : Option (Except ε (α i)) :=
  match s.mExceptionPtr i with
  | some e => some (.error e)
  | none => (s.mReturnValue i).map .ok

/-- The next step of the awaiting coroutine. -/
def await (form : Form) (s : State n ε α) : Option (State n ε α) :=
  match s.awaiter with
  | .awaitReady =>
    if form = .tuple ∧ n = 0 then some { s with awaiter := .continued }
    else some { s with awaiter := .starting 0 }
  | .starting k =>
    if h : k < n then
      some { s with task := update s.task ⟨k, h⟩ .running, awaiter := .starting (k + 1) }
    else some { s with mAwaitingCoroutine := true, awaiter := .tryAwait }
  | .tryAwait =>
    some { s with
      mCount := s.mCount - 1
      awaiter := if s.mCount > 1 then .suspended else .continued }
  | .suspended | .resumed | .continued => none

/-- The awaitable of the `i`-th task has completed: the promise stores the value or the
exception. -/
def complete (s : State n ε α) (i : Fin n) (r : Except ε (α i)) : State n ε α :=
  { s with
    task := update s.task i .notifying
    mExceptionPtr := match r with
      | .error e => update s.mExceptionPtr i (some e)
      | .ok _ => s.mExceptionPtr
    mReturnValue := match r with
      | .error _ => s.mReturnValue
      | .ok a => update s.mReturnValue i (some a)
    outcome := update s.outcome i (some r) }

/-- The next step of `notify_awaitable_completed` for the `i`-th task.  There is none if it would
resume a handle that has not been stored. -/
def notify (s : State n ε α) (i : Fin n) : Option (State n ε α) :=
  match s.task i with
  | .notifying =>
    some { s with
      mCount := s.mCount - 1
      task := update s.task i (if s.mCount = 1 then .resuming else .done) }
  | .resuming =>
    if s.mAwaitingCoroutine then
      some { s with
        awaiter := .resumed
        task := update s.task i .done
        resumptions := s.resumptions + 1 }
    else none
  | .created | .running | .done => none

/-- One step of the system. -/
def step (form : Form) (s : State n ε α) : Action n ε α → Option (State n ε α)
  | .await => await form s
  | .complete i r => if s.task i = .running then some (complete s i r) else none
  | .notify i => notify s i

/-- The result of `when_all` before it is awaited.  The empty tuple has no latch, which is
represented by a count of zero. -/
def start (form : Form) : State n ε α where
  mCount := if form = .tuple ∧ n = 0 then 0 else n + 1
  mAwaitingCoroutine := false
  mExceptionPtr _ := none
  mReturnValue _ := none
  awaiter := .awaitReady
  task _ := .created
  outcome _ := none
  resumptions := 0

/-- The `n` awaitables of a `when_all` and the coroutine that awaits it as a machine. -/
def machine (n : ℕ) (ε : Type*) (α : Fin n → Type*) (form : Form) :
    Machine (State n ε α) (Action n ε α) where
  start := start form
  step := step form

/-! ## The transitions -/

/-- What a step can do. -/
inductive Transition (form : Form) (s : State n ε α) : State n ε α → Prop
  | ready : s.awaiter = .awaitReady → form = .tuple → n = 0 →
      Transition form s { s with awaiter := .continued }
  | notReady : s.awaiter = .awaitReady → ¬ (form = .tuple ∧ n = 0) →
      Transition form s { s with awaiter := .starting 0 }
  | launch {k : ℕ} (h : k < n) : s.awaiter = .starting k →
      Transition form s { s with
        task := update s.task ⟨k, h⟩ .running
        awaiter := .starting (k + 1) }
  | store {k : ℕ} : ¬ k < n → s.awaiter = .starting k →
      Transition form s { s with mAwaitingCoroutine := true, awaiter := .tryAwait }
  | suspend : s.awaiter = .tryAwait → 1 < s.mCount →
      Transition form s { s with mCount := s.mCount - 1, awaiter := .suspended }
  | goOn : s.awaiter = .tryAwait → s.mCount ≤ 1 →
      Transition form s { s with mCount := s.mCount - 1, awaiter := .continued }
  | complete {i : Fin n} {r : Except ε (α i)} : s.task i = .running →
      Transition form s (complete s i r)
  | notify {i : Fin n} : s.task i = .notifying → s.mCount ≠ 1 →
      Transition form s { s with
        mCount := s.mCount - 1
        task := update s.task i .done }
  | last {i : Fin n} : s.task i = .notifying → s.mCount = 1 →
      Transition form s { s with
        mCount := s.mCount - 1
        task := update s.task i .resuming }
  | resume {i : Fin n} : s.task i = .resuming →
      Transition form s { s with
        awaiter := .resumed
        task := update s.task i .done
        resumptions := s.resumptions + 1 }

variable {form : Form} {s t : State n ε α}

/-- Every step of the awaiting coroutine is one of the listed transitions. -/
lemma await_transition (h : await form s = some t) : Transition form s t := by
  unfold await at h
  split at h <;> rename_i ha
  · split_ifs at h with hempty
    · cases h
      exact .ready ha hempty.1 hempty.2
    · cases h
      exact .notReady ha hempty
  · split_ifs at h with hk
    · cases h
      exact .launch hk ha
    · cases h
      exact .store hk ha
  · cases h
    split_ifs with hcount
    · exact .suspend ha hcount
    · exact .goOn ha (by omega)
  all_goals simp at h

/-- Every step of the system is one of the listed transitions. -/
lemma step_transition {a : Action n ε α} (h : step form s a = some t) : Transition form s t := by
  cases a with
  | await => exact await_transition h
  | complete i r =>
    obtain ⟨hi, rfl⟩ : s.task i = .running ∧ complete s i r = t := by simpa [step] using h
    exact .complete hi
  | notify i =>
    simp only [step, WhenAll.notify] at h
    split at h <;> rename_i hi
    · cases h
      split_ifs with hcount
      · exact .last hi hcount
      · exact .notify hi hcount
    · split_ifs at h
      cases h
      exact .resume hi
    all_goals simp at h

end Libcoro.WhenAll
