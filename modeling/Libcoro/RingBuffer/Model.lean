import Libcoro.Foundations.Closing
import Libcoro.Foundations.RingStore

/-!
# `coro::ring_buffer`

The buffer is a cyclic store together with two LIFO lists of suspended operations and a
running state.  A call of one of its member functions is identified by a key of type `κ`,
which also names the operation object the call allocates; a key is used for one call only.

A step of a call is one critical section under `m_mutex`, one access made outside of it
(the loads of `m_running_state` and the `empty()` test), or the resumption of one waiter.
A resumed coroutine continues on its own from there; the steps of the resuming coroutine
and of the resumed one interleave freely, which includes the order of the source, where
`resume()` runs the resumed coroutine first.
-/

namespace Libcoro.RingBuffer

open Foundations Function

/-- `running_state_t`. -/
abbrev RunningState := Foundations.RunningState

/-- `ring_buffer_result::produce`. -/
inductive ProduceResult where
  | produced
  | notified
  | stopped
  deriving DecidableEq, Repr

/-- `ring_buffer_result::consume`. -/
inductive ConsumeResult where
  | notified
  | stopped
  deriving DecidableEq, Repr

/-- What `consume` returns: `expected<element, ring_buffer_result::consume>`. -/
inductive Consumed (α : Type*) where
  | value (e : α)
  | unexpected (r : ConsumeResult)
  deriving DecidableEq, Repr

/-- The fields `m_e` and `m_result` of a `produce_operation`. -/
structure ProduceOperation (α : Type*) where
  mE : Option α := none
  mResult : ProduceResult := .produced
  deriving DecidableEq, Repr

/-- The fields `m_e` and `m_result` of a `consume_operation`. -/
structure ConsumeOperation (α : Type*) where
  mE : Option α := none
  mResult : ConsumeResult := .stopped
  deriving DecidableEq, Repr

/-- `consume_operation::await_resume`. -/
def ConsumeOperation.awaitResume {α : Type*} (op : ConsumeOperation α) : Consumed α :=
  match op.mE with
  | some e => .value e
  | none => .unexpected op.mResult

/-- Who walks a detached list of producers: `notify_producers`, `shutdown` (which goes on with
the consumers `cs` it detached in the same critical section) or `shutdown_drain`. -/
inductive Waker (κ : Type*) where
  | notify
  | shutdown (cs : List κ)
  | drain
  deriving DecidableEq, Repr

/-- The result a waker writes into the operations it resumes; `shutdown_drain` writes none. -/
def Waker.result {κ : Type*} : Waker κ → Option ProduceResult
  | .notify => some .notified
  | .shutdown _ => some .stopped
  | .drain => none

/-- The member functions that coroutines call. -/
inductive Call (α : Type*) where
  | produce (e : α)
  | consume
  | notifyProducers
  | notifyConsumers
  | shutdown
  | shutdownDrain
  deriving DecidableEq, Repr

/-- Where a call stands; each value names the step that comes next.

`produce` passes its critical section, possibly suspends, runs `try_resume_consumers` with
its result in hand (`resumeConsumers`, and `wakeConsumer` once a waiter is popped) and
returns; `consume` is its mirror image.  `wakeProducers` and `wakeConsumers` walk a detached
list.  `shutdown` loads the state, compares it under the lock and detaches the waiters in a
second critical section; `shutdown_drain` waits in the loop `drainEmpty`, `drainState` and
then runs `shutdown`. -/
inductive Pc (κ α : Type*) where
  | idle
  | produce (e : α)
  | produceSuspended
  | resumeConsumers (r : ProduceResult)
  | wakeConsumer (r : ProduceResult) (w : κ)
  | produceReturned (r : ProduceResult)
  | consume
  | consumeSuspended
  | resumeProducers (r : Consumed α)
  | wakeProducer (r : Consumed α) (w : κ)
  | consumeReturned (r : Consumed α)
  | notifyProducersLoad
  | notifyProducersLock
  | notifyConsumersLoad
  | notifyConsumersLock
  | notifyReturned
  | wakeProducers (k : Waker κ) (ws : List κ)
  | wakeConsumers (r : ConsumeResult) (ws : List κ)
  | shutdownLoad
  | shutdownLock (expected : RunningState)
  | shutdownDetach
  | shutdownReturned
  | drainLock
  | drainEmpty
  | drainState
  | drainReturned
  deriving DecidableEq, Repr

variable {κ α : Type*}

/-- The first step of a call. -/
@[simp] def Call.entry : Call α → Pc κ α
  | .produce e => .produce e
  | .consume => .consume
  | .notifyProducers => .notifyProducersLoad
  | .notifyConsumers => .notifyConsumersLoad
  | .shutdown => .shutdownLoad
  | .shutdownDrain => .drainLock

/-- What follows the loop over the detached producers. -/
def Waker.next : Waker κ → Pc κ α
  | .notify => .notifyReturned
  | .shutdown cs => .wakeConsumers .stopped cs
  | .drain => .drainEmpty

/-- What follows the loop over the detached consumers: they are resumed with `notified` by
`notify_consumers` and with `stopped` by `shutdown`. -/
def afterConsumers : ConsumeResult → Pc κ α
  | .notified => .notifyReturned
  | .stopped => .shutdownReturned

/-- A ring buffer of `n` slots and the calls in progress. -/
structure State (n : ℕ) (κ α : Type*) where
  -- `m_elements`, `m_front`, `m_back` and `m_used`.
  ring : RingStore n α
  -- `m_produce_waiters` and `m_consume_waiters`, the latest first.
  mProduceWaiters : List κ
  mConsumeWaiters : List κ
  mRunningState : RunningState
  -- The operation objects of suspended calls.
  produceOp : κ → ProduceOperation α
  consumeOp : κ → ConsumeOperation α
  pc : κ → Pc κ α
  -- History, read by no step: what was called, what was stored and removed, in order.
  called : κ → Option (Call α)
  stored : List (κ × α)
  removed : List (κ × α)

/-- A coroutine calls a member function, or a call in progress takes its next step. -/
inductive Action (κ α : Type*) where
  | call (c : κ) (f : Call α)
  | advance (c : κ)
  deriving DecidableEq, Repr

variable {n : ℕ} [NeZero n] [DecidableEq κ]

/-- Moves the control point of the call `c`. -/
@[simp] def State.goto (s : State n κ α) (c : κ) (p : Pc κ α) : State n κ α :=
  { s with pc := update s.pc c p }

/-- Moves the element of the producer `p` into the next free slot. -/
def State.store (s : State n κ α) (p : κ) (e : Option α) : State n κ α :=
  { s with ring := s.ring.store e, stored := s.stored ++ e.toList.map (p, ·) }

/-- Moves the oldest element out of its slot, for the consumer `w`. -/
def State.remove (s : State n κ α) (w : κ) : State n κ α :=
  { s with ring := s.ring.drop, removed := s.removed ++ s.ring.oldest.toList.map (w, ·) }

/-- Resumes the producer `p`, whose `await_resume` returns the `m_result` of its operation. -/
def State.resumeProducer (s : State n κ α) (p : κ) : State n κ α :=
  s.goto p (.resumeConsumers (s.produceOp p).mResult)

/-- Resumes the consumer `w`. -/
def State.resumeConsumer (s : State n κ α) (w : κ) : State n κ α :=
  s.goto w (.resumeProducers (s.consumeOp w).awaitResume)

/-- Writes `m_result` of a producer before it is resumed, if the waker does so at all. -/
@[simp] def State.setProduceResult (s : State n κ α) (p : κ) (r : Option ProduceResult) :
    State n κ α :=
  { s with
    produceOp := update s.produceOp p
      { s.produceOp p with mResult := r.getD (s.produceOp p).mResult } }

/-- Writes `m_result` of a consumer before it is resumed. -/
def State.setConsumeResult (s : State n κ α) (w : κ) (r : ConsumeResult) : State n κ α :=
  { s with consumeOp := update s.consumeOp w { s.consumeOp w with mResult := r } }

/-- `produce_operation::await_ready` and, when the buffer is full, `await_suspend`: the lock is
held from one to the other. -/
def produce (s : State n κ α) (c : κ) (e : α) : State n κ α :=
  if s.mRunningState ≠ .running then s.goto c (.resumeConsumers .stopped)
  else if s.ring.used < n then (s.store c (some e)).goto c (.resumeConsumers .produced)
  else
    { s.goto c .produceSuspended with
      mProduceWaiters := c :: s.mProduceWaiters
      produceOp := update s.produceOp c { mE := some e } }

/-- `consume_operation::await_ready` and, when the buffer is empty, `await_suspend`. -/
def consume (s : State n κ α) (c : κ) : State n κ α :=
  if s.mRunningState = .stopped then
    s.goto c (.resumeProducers (ConsumeOperation.awaitResume { mResult := .stopped }))
  else if 0 < s.ring.used then
    (s.remove c).goto c (.resumeProducers (ConsumeOperation.awaitResume { mE := s.ring.oldest }))
  else
    { s.goto c .consumeSuspended with
      mConsumeWaiters := c :: s.mConsumeWaiters
      consumeOp := update s.consumeOp c {} }

/-- The critical section of `try_resume_producers`, inside a call of `consume` that will
return `r`. -/
def tryResumeProducers (s : State n κ α) (c : κ) (r : Consumed α) : State n κ α :=
  if s.ring.used < n then
    match s.mProduceWaiters with
    | p :: ps =>
      { (s.store p (s.produceOp p).mE).goto c (.wakeProducer r p) with mProduceWaiters := ps }
    | [] => s.goto c (.consumeReturned r)
  else s.goto c (.consumeReturned r)

/-- The critical section of `try_resume_consumers`, inside a call of `produce` that will
return `r`. -/
def tryResumeConsumers (s : State n κ α) (c : κ) (r : ProduceResult) : State n κ α :=
  if 0 < s.ring.used then
    match s.mConsumeWaiters with
    | w :: ws =>
      { (s.remove w).goto c (.wakeConsumer r w) with
        mConsumeWaiters := ws
        consumeOp := update s.consumeOp w { s.consumeOp w with mE := s.ring.oldest } }
    | [] => s.goto c (.produceReturned r)
  else s.goto c (.produceReturned r)

/-- The next step of the call `c`. -/
def advance (s : State n κ α) (c : κ) : Option (State n κ α) :=
  match s.pc c with
  | .produce e => some (produce s c e)
  | .resumeConsumers r => some (tryResumeConsumers s c r)
  | .wakeConsumer r w => some ((s.resumeConsumer w).goto c (.resumeConsumers r))
  | .consume => some (consume s c)
  | .resumeProducers r => some (tryResumeProducers s c r)
  | .wakeProducer r p => some ((s.resumeProducer p).goto c (.resumeProducers r))
  | .notifyProducersLoad =>
    if s.mRunningState = .stopped then some (s.goto c .notifyReturned)
    else some (s.goto c .notifyProducersLock)
  | .notifyProducersLock =>
    some { s.goto c (.wakeProducers .notify s.mProduceWaiters) with mProduceWaiters := [] }
  | .notifyConsumersLoad =>
    if s.mRunningState = .stopped then some (s.goto c .notifyReturned)
    else some (s.goto c .notifyConsumersLock)
  | .notifyConsumersLock =>
    some { s.goto c (.wakeConsumers .notified s.mConsumeWaiters) with mConsumeWaiters := [] }
  | .wakeProducers k [] => some (s.goto c k.next)
  | .wakeProducers k (p :: ps) =>
    some (((s.setProduceResult p k.result).resumeProducer p).goto c (.wakeProducers k ps))
  | .wakeConsumers r [] => some (s.goto c (afterConsumers r))
  | .wakeConsumers r (w :: ws) =>
    some (((s.setConsumeResult w r).resumeConsumer w).goto c (.wakeConsumers r ws))
  | .shutdownLoad =>
    if s.mRunningState = .stopped then some (s.goto c .shutdownReturned)
    else some (s.goto c (.shutdownLock s.mRunningState))
  | .shutdownLock expected =>
    if s.mRunningState = expected then
      some { s.goto c .shutdownDetach with mRunningState := .stopped }
    else some (s.goto c .shutdownReturned)
  | .shutdownDetach =>
    some { s.goto c (.wakeProducers (.shutdown s.mConsumeWaiters) s.mProduceWaiters) with
      mProduceWaiters := []
      mConsumeWaiters := [] }
  | .drainLock =>
    if s.mRunningState = .running then
      some { s.goto c (.wakeProducers .drain s.mProduceWaiters) with
        mRunningState := .draining
        mProduceWaiters := [] }
    else some (s.goto c .drainReturned)
  | .drainEmpty =>
    if s.ring.used = 0 then some (s.goto c .shutdownLoad) else some (s.goto c .drainState)
  | .drainState =>
    if s.mRunningState = .draining then some (s.goto c .drainEmpty)
    else some (s.goto c .shutdownLoad)
  | .idle | .produceSuspended | .produceReturned _ | .consumeSuspended | .consumeReturned _
  | .notifyReturned | .shutdownReturned | .drainReturned => none

/-- One step of the system. -/
def step (s : State n κ α) : Action κ α → Option (State n κ α)
  | .call c f =>
    match s.pc c with
    | .idle => some { s.goto c f.entry with called := update s.called c (some f) }
    | _ => none
  | .advance c => advance s c

/-- An empty running buffer that nobody has called. -/
def start : State n κ α where
  ring := RingStore.empty
  mProduceWaiters := []
  mConsumeWaiters := []
  mRunningState := .running
  produceOp _ := {}
  consumeOp _ := {}
  pc _ := .idle
  called _ := none
  stored := []
  removed := []

/-- The buffer and its callers as a machine. -/
def machine (n : ℕ) [NeZero n] (κ α : Type*) [DecidableEq κ] :
    Machine (State n κ α) (Action κ α) where
  start := start
  step := step

end Libcoro.RingBuffer
