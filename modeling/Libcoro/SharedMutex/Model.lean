import Libcoro.Foundations.Machine
import Libcoro.Foundations.LinkedQueue

/-!
# `coro::shared_mutex`

An acquisition is identified by a key of type `κ`, which also names the
`shared_lock_operation` it allocates: a key is used for one call of `lock`, `lock_shared`,
`try_lock` or `try_lock_shared` and for the `unlock` or `unlock_shared` that matches it.  The
scoped versions are a lock and an unlock around user code.

A critical section under `m_mutex` is one step, with the loop of `wake_waiters` inside it.  The
label of the step says how often that loop tests its condition, so the step is enabled only
with the right number of rounds.  The resumption of an exclusive waiter by `wake_waiters`
follows the unlocking of `m_mutex` and is a step of its own; shared waiters are handed to the
executor, which accepts every handle and runs it some time later.
-/

namespace Libcoro.SharedMutex

open Foundations Function

/-- The `enum class state` of the mutex. -/
inductive LockState where
  | unlocked
  | lockedShared
  | lockedExclusive
  deriving DecidableEq, Repr

/-- The member functions that acquire the mutex. -/
inductive Call where
  | lock
  | lockShared
  | tryLock
  | tryLockShared
  deriving DecidableEq, Repr

/-- Where an acquisition stands.  In `locking`, `trying` and `unlocking` a call is about to enter
its critical section, `exclusive` being the `m_exclusive` of its operation.  A waiter is
`suspended` until `wake_waiters` grants it the lock and `granted` until it runs again; the
call that granted it exclusively is `resuming` it.  A try that failed is `refused`. -/
inductive Pc (κ : Type*) where
  | idle
  | locking (exclusive : Bool)
  | trying (exclusive : Bool)
  | suspended
  | granted (exclusive : Bool)
  | holding (exclusive : Bool)
  | refused
  | unlocking (exclusive : Bool)
  | resuming (w : κ)
  | released
  deriving DecidableEq, Repr

variable {κ : Type*}

/-- The first control point of a call. -/
def Call.entry : Call → Pc κ
  | .lock => .locking true
  | .lockShared => .locking false
  | .tryLock => .trying true
  | .tryLockShared => .trying false

/-- A shared mutex, its executor and the acquisitions. -/
structure State (κ : Type*) where
  mState : LockState
  mSharedUsers : ℕ
  mExclusiveWaiters : ℕ
  -- `m_head_waiter`, `m_tail_waiter` and the `m_next` of every operation.
  waiters : LinkedQueue κ
  -- `m_exclusive` of every operation.
  mExclusive : κ → Bool
  -- The handles that the executor has accepted and not run, in no particular order.
  executor : List κ
  pc : κ → Pc κ
  -- History, read by no step: who reached the mutex and was not turned away, who was let in,
  -- both in order, and how often each waiter was granted the lock and resumed.
  reached : List κ
  grants : List κ
  woken : κ → ℕ
  resumed : κ → ℕ

/-- What can happen.  `busy` is a try whose `m_mutex.try_lock()` fails; `execute` lets the
executor run a handle; `rounds` counts the tests of the loop in `wake_waiters`. -/
inductive Action (κ : Type*) where
  | call (c : κ) (f : Call)
  | unlock (c : κ)
  | busy (c : κ)
  | execute (w : κ)
  | advance (c : κ) (rounds : ℕ)
  deriving DecidableEq, Repr

/-- `try_lock_shared_locked`. -/
def tryLockSharedLocked (s : State κ) : Bool × State κ :=
  if s.mState = .unlocked then
    (true, { s with mState := .lockedShared, mSharedUsers := s.mSharedUsers + 1 })
  else if s.mState = .lockedShared ∧ s.mExclusiveWaiters = 0 then
    (true, { s with mSharedUsers := s.mSharedUsers + 1 })
  else (false, s)

/-- `try_lock_locked`. -/
def tryLockLocked (s : State κ) : Bool × State κ :=
  if s.mState = .unlocked then (true, { s with mState := .lockedExclusive }) else (false, s)

/-- The attempt of `await_ready`, and of the try functions. -/
def tryMode (s : State κ) (exclusive : Bool) : Bool × State κ :=
  if exclusive then tryLockLocked s else tryLockSharedLocked s

variable [DecidableEq κ]

/-- Moves the control point of `c`. -/
def State.goto (s : State κ) (c : κ) (p : Pc κ) : State κ :=
  { s with pc := update s.pc c p }

/-- The constructor of the `shared_lock_operation` of `c`. -/
def State.construct (s : State κ) (c : κ) (exclusive : Bool) : State κ :=
  { s with
    waiters := s.waiters.alloc c
    mExclusive := update s.mExclusive c exclusive }

/-- `c` has got the lock without waiting. -/
def State.letIn (s : State κ) (c : κ) (exclusive : Bool) : State κ :=
  { s.goto c (.holding exclusive) with
    reached := s.reached ++ [c]
    grants := s.grants ++ [c] }

/-- `await_suspend`: `c` becomes the last waiter. -/
def awaitSuspend (s : State κ) (c : κ) : State κ :=
  { s.goto c .suspended with
    waiters := s.waiters.enqueue c
    mExclusiveWaiters :=
      if s.mExclusive c then s.mExclusiveWaiters + 1 else s.mExclusiveWaiters
    reached := s.reached ++ [c] }

/-- The critical section of `lock` and `lock_shared`: `await_ready` and, when the lock cannot be
had, `await_suspend`, `m_mutex` being held from one to the other. -/
def lockOperation (s : State κ) (c : κ) (exclusive : Bool) : State κ :=
  match tryMode (s.construct c exclusive) exclusive with
  | (true, t) => t.letIn c exclusive
  | (false, t) => awaitSuspend t c

/-- The critical section of `try_lock` and `try_lock_shared`. -/
def tryOperation (s : State κ) (c : κ) (exclusive : Bool) : State κ :=
  match tryMode s exclusive with
  | (true, t) => t.letIn c exclusive
  | (false, t) => t.goto c .refused

/-- The head waiter `w` leaves the list with the lock. -/
def State.grant (s : State κ) (w : κ) (exclusive : Bool) : State κ :=
  { s.goto w (.granted exclusive) with
    waiters := s.waiters.dequeue w
    grants := s.grants ++ [w]
    woken := update s.woken w (s.woken w + 1) }

/-- The coroutine of the operation `w` goes on after its `co_await`. -/
def State.resume (s : State κ) (w : κ) : State κ :=
  { s.goto w (.holding (s.mExclusive w)) with
    resumed := update s.resumed w (s.resumed w + 1) }

/-- The loop of `wake_waiters`, which may test its condition `rounds` times. -/
def wakeShared : ℕ → State κ → Option (State κ)
  | 0, _ => none
  | rounds + 1, s =>
    match s.waiters.head with
    | none => some s
    | some w =>
      if s.mExclusive w then some s
      else
        wakeShared rounds { s.grant w false with
          mSharedUsers := s.mSharedUsers + 1
          executor := w :: s.executor }

/-- `wake_waiters`, called by `c` with the head waiter `w`. -/
def wakeWaiters (s : State κ) (c w : κ) (rounds : ℕ) : Option (State κ) :=
  if s.mExclusive w then
    some { (s.grant w true).goto c (.resuming w) with
      mState := .lockedExclusive
      mExclusiveWaiters := s.mExclusiveWaiters - 1 }
  else wakeShared rounds { s with mState := .lockedShared }

/-- What the last user `c` of the lock does: it wakes the head waiter, or unlocks the mutex. -/
def release (s : State κ) (c : κ) (rounds : ℕ) : Option (State κ) :=
  match s.waiters.head with
  | some w => wakeWaiters s c w rounds
  | none => some { s with mState := .unlocked }

/-- The critical section of `unlock_shared`. -/
def unlockShared (s : State κ) (c : κ) (rounds : ℕ) : Option (State κ) :=
  let t := { s.goto c .released with mSharedUsers := s.mSharedUsers - 1 }
  if s.mSharedUsers = 1 then release t c rounds else some t

/-- The critical section of `unlock`. -/
def unlock (s : State κ) (c : κ) (rounds : ℕ) : Option (State κ) :=
  release (s.goto c .released) c rounds

/-- The next step of the acquisition `c`. -/
def advance (s : State κ) (c : κ) (rounds : ℕ) : Option (State κ) :=
  match s.pc c with
  | .locking exclusive => some (lockOperation s c exclusive)
  | .trying exclusive => some (tryOperation s c exclusive)
  | .unlocking true => unlock s c rounds
  | .unlocking false => unlockShared s c rounds
  | .resuming w => some ((s.resume w).goto c .released)
  | .idle | .suspended | .granted _ | .holding _ | .refused | .released => none

/-- One step of the system. -/
def step (s : State κ) : Action κ → Option (State κ)
  | .call c f => if s.pc c = .idle then some (s.goto c f.entry) else none
  | .unlock c =>
    match s.pc c with
    | .holding exclusive => some (s.goto c (.unlocking exclusive))
    | _ => none
  | .busy c =>
    match s.pc c with
    | .trying _ => some (s.goto c .refused)
    | _ => none
  | .execute w =>
    if w ∈ s.executor then some { s.resume w with executor := s.executor.erase w } else none
  | .advance c rounds => advance s c rounds

/-- An unlocked mutex that nobody has called. -/
def start : State κ where
  mState := .unlocked
  mSharedUsers := 0
  mExclusiveWaiters := 0
  waiters := LinkedQueue.empty
  mExclusive _ := false
  executor := []
  pc _ := .idle
  reached := []
  grants := []
  woken _ := 0
  resumed _ := 0

/-- The mutex and its users as a machine. -/
def machine (κ : Type*) [DecidableEq κ] : Machine (State κ) (Action κ) where
  start := start
  step := step

end Libcoro.SharedMutex
