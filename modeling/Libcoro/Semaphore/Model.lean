import Libcoro.Foundations.Machine

/-!
# `coro::semaphore`

A call of a member function is identified by a key of type `κ`, which also names the
`acquire_operation` that `acquire` allocates.  Every load, exchange or addition of `m_counter`
and `m_shutdown` is one step, and so are the operations on `m_acquire_waiters`, all of which
happen under `m_mutex`; the mutex appears through its owner alone.  A weak compare-exchange
may fail without a reason.

`try_acquire` is called by user code without the mutex, and by `await_ready` under it: once
before the coroutine is set up to suspend and once afterwards.
-/

namespace Libcoro.Semaphore

open Foundations

/-- `semaphore_acquire_result`. -/
inductive AcquireResult where
  | acquired
  | shutdown
  deriving DecidableEq, Repr

/-- The member functions that coroutines call. -/
inductive Call where
  | acquire
  | tryAcquire
  | release
  | shutdown
  deriving DecidableEq, Repr

/-- Who calls `try_acquire`: user code, or `await_ready`, which runs before the coroutine is set up
to suspend and `again` inside `await_suspend`. -/
inductive Caller where
  | user
  | awaitReady (again : Bool)
  deriving DecidableEq, Repr

/-- Where a call stands; each value names the step that comes next.

`tryLoad` and `tryExchange` are `try_acquire`.  `acquire` takes the mutex, looks at
`m_shutdown`, tries, looks and tries again, and pushes itself or unlocks and goes on with
`await_resume`.  `release` compares the counter with the maximum, pops a waiter, and adds to
the counter or unlocks and resumes the waiter.  `shutdown` sets the flag, detaches the
waiters, unlocks and resumes them. -/
inductive Pc (κ : Type*) where
  | idle
  | tryLoad (k : Caller)
  | tryExchange (k : Caller) (expected : ℤ)
  | tryReturned (result : Bool)
  | acquireLock
  | acquireShutdown (again : Bool)
  | acquirePush
  | acquireSuspend
  | suspended
  | acquireUnlock
  | acquireResume
  | acquireReturned (result : AcquireResult)
  | releaseLock
  | releaseValue
  | releasePop
  | releaseAdd
  | releaseUnlock (waiter : Option κ)
  | releaseResume (waiter : κ)
  | releaseReturned
  | shutdownLoad
  | shutdownLock
  | shutdownExchange
  | shutdownPopAll
  | shutdownUnlock (waiters : List κ)
  | shutdownResume (waiters : List κ)
  | shutdownReturned
  deriving DecidableEq, Repr

variable {κ : Type*}

/-- The first step of a call. -/
@[simp] def Call.entry : Call → Pc κ
  | .acquire => .acquireLock
  | .tryAcquire => .tryLoad .user
  | .release => .releaseLock
  | .shutdown => .shutdownLoad

/-- What follows a `try_acquire` that returns `true`. -/
@[simp] def Caller.success : Caller → Pc κ
  | .user => .tryReturned true
  | .awaitReady _ => .acquireUnlock

/-- What follows a `try_acquire` that returns `false`. -/
@[simp] def Caller.failure : Caller → Pc κ
  | .user => .tryReturned false
  | .awaitReady false => .acquireShutdown true
  | .awaitReady true => .acquirePush

/-- A semaphore and the calls in progress. -/
structure State (κ : Type*) where
  mCounter : ℤ
  -- `m_acquire_waiters`, the latest first.
  mAcquireWaiters : List κ
  -- The owner of `m_mutex`.
  mMutex : Option κ
  mShutdown : Bool
  pc : κ → Pc κ
  -- History, read by no step: the calls that got a permit, the releases that gave one back, and
  -- the releases that were dropped.
  grants : List κ
  releases : List κ
  drops : List κ

/-- A coroutine calls a member function, a call in progress takes its next step, or the weak
compare-exchange of a call fails although the counter is as expected. -/
inductive Action (κ : Type*) where
  | call (c : κ) (f : Call)
  | advance (c : κ)
  | spurious (c : κ)
  deriving DecidableEq, Repr

variable [DecidableEq κ]

/-- Moves the control point of `c`. -/
@[simp] def State.goto (s : State κ) (c : κ) (p : Pc κ) : State κ :=
  { s with pc := Function.update s.pc c p }

/-- `co_await m_mutex.lock()`, which waits until the mutex is free. -/
def State.lock (s : State κ) (c : κ) (p : Pc κ) : Option (State κ) :=
  if s.mMutex = none then some { s.goto c p with mMutex := some c } else none

/-- `m_mutex.unlock()`. -/
def State.unlock (s : State κ) (c : κ) (p : Pc κ) : State κ :=
  { s.goto c p with mMutex := none }

/-- The test of the loop in `try_acquire`. -/
def tryTest (s : State κ) (c : κ) (k : Caller) (expected : ℤ) : State κ :=
  if expected ≤ 0 then s.goto c k.failure else s.goto c (.tryExchange k expected)

/-- The compare-exchange of `try_acquire`; a failed one loads the counter again. -/
def tryExchange (s : State κ) (c : κ) (k : Caller) (expected : ℤ) : State κ :=
  if s.mCounter = expected then
    { s.goto c k.success with mCounter := expected - 1, grants := c :: s.grants }
  else tryTest s c k s.mCounter

/-- The next step of the call `c` on a semaphore with `max` permits. -/
def advance (max : ℤ) (s : State κ) (c : κ) : Option (State κ) :=
  match s.pc c with
  | .tryLoad k => some (tryTest s c k s.mCounter)
  | .tryExchange k expected => some (tryExchange s c k expected)
  | .acquireLock => s.lock c (.acquireShutdown false)
  | .acquireShutdown again =>
    if s.mShutdown then some (s.goto c .acquireUnlock)
    else some (s.goto c (.tryLoad (.awaitReady again)))
  | .acquirePush => some { s.goto c .acquireSuspend with mAcquireWaiters := c :: s.mAcquireWaiters }
  | .acquireSuspend => some (s.unlock c .suspended)
  | .acquireUnlock => some (s.unlock c .acquireResume)
  | .acquireResume =>
    some (s.goto c (.acquireReturned (if s.mShutdown then .shutdown else .acquired)))
  | .releaseLock => s.lock c .releaseValue
  | .releaseValue =>
    if s.mCounter = max then some { s.goto c (.releaseUnlock none) with drops := c :: s.drops }
    else some (s.goto c .releasePop)
  | .releasePop =>
    match s.mAcquireWaiters with
    | [] => some (s.goto c .releaseAdd)
    | w :: ws =>
      some { s.goto c (.releaseUnlock (some w)) with
        mAcquireWaiters := ws
        grants := w :: s.grants
        releases := c :: s.releases }
  | .releaseAdd =>
    some { s.goto c (.releaseUnlock none) with
      mCounter := s.mCounter + 1
      releases := c :: s.releases }
  | .releaseUnlock none => some (s.unlock c .releaseReturned)
  | .releaseUnlock (some w) => some (s.unlock c (.releaseResume w))
  | .releaseResume w => some ((s.goto w .acquireResume).goto c .releaseReturned)
  | .shutdownLoad =>
    if s.mShutdown then some (s.goto c .shutdownReturned) else some (s.goto c .shutdownLock)
  | .shutdownLock => s.lock c .shutdownExchange
  | .shutdownExchange =>
    if s.mShutdown then some (s.goto c (.shutdownUnlock []))
    else some { s.goto c .shutdownPopAll with mShutdown := true }
  | .shutdownPopAll =>
    some { s.goto c (.shutdownUnlock s.mAcquireWaiters) with mAcquireWaiters := [] }
  | .shutdownUnlock ws => some (s.unlock c (.shutdownResume ws))
  | .shutdownResume [] => some (s.goto c .shutdownReturned)
  | .shutdownResume (w :: ws) => some ((s.goto w .acquireResume).goto c (.shutdownResume ws))
  | .idle | .tryReturned _ | .suspended | .acquireReturned _ | .releaseReturned
  | .shutdownReturned => none

/-- One step of the system. -/
def step (max : ℤ) (s : State κ) : Action κ → Option (State κ)
  | .call c f => if s.pc c = .idle then some (s.goto c f.entry) else none
  | .advance c => advance max s c
  | .spurious c =>
    match s.pc c with
    | .tryExchange k _ => some (tryTest s c k s.mCounter)
    | _ => none

/-- A semaphore with `startingValue` permits that nobody has called. -/
def start (startingValue : ℤ) : State κ where
  mCounter := startingValue
  mAcquireWaiters := []
  mMutex := none
  mShutdown := false
  pc _ := .idle
  grants := []
  releases := []
  drops := []

/-- A `semaphore<max>` constructed with `startingValue`, and its callers, as a machine. -/
def machine (κ : Type*) [DecidableEq κ] (max startingValue : ℤ) :
    Machine (State κ) (Action κ) where
  start := start startingValue
  step := step max

end Libcoro.Semaphore
