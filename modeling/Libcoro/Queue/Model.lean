import Libcoro.Foundations.Closing

/-!
# `coro::queue`

An unbounded queue with a LIFO list of suspended `pop` calls.  A call of a member function is
identified by a key of type `κ`, which also names the `awaiter` that `pop` allocates; a key is
used for one call only.

A step of a call is one critical section under `m_mutex`, one access made outside of it (the
loads of `m_running_state` and the `empty()` test of `shutdown_drain`), or the resumption of one
waiter.  A `push` that finds a waiter detaches it in its critical section and gives it the element
after the lock has been released.

The history of a run lists the elements that were accepted and the elements that were assigned to
a consumer, both in the order of the critical sections in which this was decided.
-/

namespace Libcoro.Queue

open Foundations Function

/-- `running_state_t`. -/
abbrev RunningState := Foundations.RunningState

/-- `queue_produce_result`. -/
inductive ProduceResult where
  | produced
  | stopped
  deriving DecidableEq, Repr

/-- `queue_consume_result`. -/
inductive ConsumeResult where
  | stopped
  | tryLockFailure
  | empty
  deriving DecidableEq, Repr

/-- What `pop` and `try_pop` return: `expected<element_type, queue_consume_result>`. -/
inductive Consumed (α : Type*) where
  | value (e : α)
  | unexpected (r : ConsumeResult)
  deriving DecidableEq, Repr

/-- `awaiter::await_resume`, given the `m_element` of the awaiter. -/
def awaitResume {α : Type*} : Option α → Consumed α
  | some e => .value e
  | none => .unexpected .stopped

/-- The member functions that coroutines call: `push` of an lvalue, `push` of an rvalue, `emplace`
(with the element that its arguments construct) and the others. -/
inductive Call (α : Type*) where
  | push (e : α)
  | pushRvalue (e : α)
  | emplace (e : α)
  | pop
  | tryPop
  | shutdown
  | shutdownDrain
  deriving DecidableEq, Repr

/-- The element that a call produces. -/
def Call.element {α : Type*} : Call α → Option α
  | .push e => some e
  | .pushRvalue e => some e
  | .emplace e => some e
  | _ => none

/-- Where a call stands; each value names the step that comes next.

A `push` passes its critical section and returns, or hands its element to the waiter that it has
detached.  A `pop` passes its critical section, possibly suspends, and goes on with
`await_resume`.  `shutdown` loads the state, compares it under the lock, detaches the waiters in
the same critical section and resumes them; `shutdown_drain` waits in the loop `drainEmpty`,
`drainState` and then runs `shutdown`. -/
inductive Pc (κ α : Type*) where
  | idle
  | push (e : α)
  | handOff (e : α) (waiter : κ)
  | pushReturned (r : ProduceResult)
  | pop
  | popSuspended
  | popResume
  | popReturned (r : Consumed α)
  | tryPop
  | tryPopReturned (r : Consumed α)
  | shutdownLoad
  | shutdownLock (expected : RunningState)
  | shutdownResume (waiters : List κ)
  | shutdownReturned
  | drainLock
  | drainEmpty
  | drainState
  | drainReturned
  deriving DecidableEq, Repr

variable {κ α : Type*}

/-- The first step of a call.  The two overloads of `push` and `emplace` run the same body on
elements that are copied, moved or constructed in place. -/
@[simp] def Call.entry : Call α → Pc κ α
  | .push e => .push e
  | .pushRvalue e => .push e
  | .emplace e => .push e
  | .pop => .pop
  | .tryPop => .tryPop
  | .shutdown => .shutdownLoad
  | .shutdownDrain => .drainLock

/-- A queue and the calls in progress. -/
structure State (κ α : Type*) where
  -- `m_elements`, the oldest first.
  mElements : List α
  -- `m_waiters`, the latest first.
  mWaiters : List κ
  mRunningState : RunningState
  -- The `m_element` of the awaiter of a `pop`.
  mElement : κ → Option α
  pc : κ → Pc κ α
  -- History, read by no step: what was called, which call put an element in and which one got it.
  called : κ → Option (Call α)
  accepted : List (κ × α)
  delivered : List (κ × α)

/-- A coroutine calls a member function, a call in progress takes its next step, or the
`m_mutex.try_lock()` of a `try_pop` fails because somebody else holds the mutex. -/
inductive Action (κ α : Type*) where
  | call (c : κ) (f : Call α)
  | advance (c : κ)
  | tryLockFails (c : κ)
  deriving DecidableEq, Repr

variable [DecidableEq κ]

/-- Moves the control point of the call `c`. -/
@[simp] def State.goto (s : State κ α) (c : κ) (p : Pc κ α) : State κ α :=
  { s with pc := update s.pc c p }

/-- Writes the `m_element` of the awaiter of `c`. -/
@[simp] def State.setElement (s : State κ α) (c : κ) (e : Option α) : State κ α :=
  { s with mElement := update s.mElement c e }

/-- Logs that the element of the call `c` is accepted. -/
def State.accept (s : State κ α) (c : κ) (e : α) : State κ α :=
  { s with accepted := s.accepted ++ [(c, e)] }

/-- Logs that the call `c` gets an element. -/
@[simp] def State.deliver (s : State κ α) (c : κ) (e : α) : State κ α :=
  { s with delivered := s.delivered ++ [(c, e)] }

/-- The critical section of `push` and `emplace`. -/
def push (s : State κ α) (c : κ) (e : α) : State κ α :=
  if s.mRunningState ≠ .running then s.goto c (.pushReturned .stopped)
  else
    match s.mWaiters with
    | w :: ws => { ((s.accept c e).deliver w e).goto c (.handOff e w) with mWaiters := ws }
    | [] =>
      { (s.accept c e).goto c (.pushReturned .produced) with mElements := s.mElements ++ [e] }

/-- `awaiter::await_ready` and, when there is no element, `await_suspend`: the lock is held from
one to the other. -/
def pop (s : State κ α) (c : κ) : State κ α :=
  if s.mRunningState = .stopped then (s.setElement c none).goto c .popResume
  else
    match s.mElements with
    | e :: es =>
      { ((s.setElement c (some e)).deliver c e).goto c .popResume with mElements := es }
    | [] => { (s.setElement c none).goto c .popSuspended with mWaiters := c :: s.mWaiters }

/-- `try_pop`, once it has the lock. -/
def tryPop (s : State κ α) (c : κ) : State κ α :=
  if s.mRunningState = .stopped then s.goto c (.tryPopReturned (.unexpected .stopped))
  else
    match s.mElements with
    | e :: es => { (s.deliver c e).goto c (.tryPopReturned (.value e)) with mElements := es }
    | [] => s.goto c (.tryPopReturned (.unexpected .empty))

/-- The next step of the call `c`. -/
def advance (s : State κ α) (c : κ) : Option (State κ α) :=
  match s.pc c with
  | .push e => some (push s c e)
  | .handOff e w =>
    some (((s.setElement w (some e)).goto w .popResume).goto c (.pushReturned .produced))
  | .pop => some (pop s c)
  | .popResume => some (s.goto c (.popReturned (awaitResume (s.mElement c))))
  | .tryPop => some (tryPop s c)
  | .shutdownLoad =>
    if s.mRunningState = .stopped then some (s.goto c .shutdownReturned)
    else some (s.goto c (.shutdownLock s.mRunningState))
  | .shutdownLock expected =>
    if s.mRunningState = expected then
      some { s.goto c (.shutdownResume s.mWaiters) with mRunningState := .stopped, mWaiters := [] }
    else some (s.goto c .shutdownReturned)
  | .shutdownResume [] => some (s.goto c .shutdownReturned)
  | .shutdownResume (w :: ws) => some ((s.goto w .popResume).goto c (.shutdownResume ws))
  | .drainLock =>
    if s.mRunningState = .running then
      some { s.goto c .drainEmpty with mRunningState := .draining }
    else some (s.goto c .drainReturned)
  | .drainEmpty =>
    if s.mElements = [] then some (s.goto c .shutdownLoad) else some (s.goto c .drainState)
  | .drainState =>
    if s.mRunningState = .draining then some (s.goto c .drainEmpty)
    else some (s.goto c .shutdownLoad)
  | .idle | .pushReturned _ | .popSuspended | .popReturned _ | .tryPopReturned _
  | .shutdownReturned | .drainReturned => none

/-- One step of the system. -/
def step (s : State κ α) : Action κ α → Option (State κ α)
  | .call c f =>
    match s.pc c with
    | .idle => some { s.goto c f.entry with called := update s.called c (some f) }
    | _ => none
  | .advance c => advance s c
  | .tryLockFails c =>
    match s.pc c with
    | .tryPop => some (s.goto c (.tryPopReturned (.unexpected .tryLockFailure)))
    | _ => none

/-- An empty running queue that nobody has called. -/
def start : State κ α where
  mElements := []
  mWaiters := []
  mRunningState := .running
  mElement _ := none
  pc _ := .idle
  called _ := none
  accepted := []
  delivered := []

/-- The queue and its callers as a machine. -/
def machine (κ α : Type*) [DecidableEq κ] : Machine (State κ α) (Action κ α) where
  start := start
  step := step

end Libcoro.Queue
