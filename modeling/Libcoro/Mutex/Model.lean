import Libcoro.Foundations.Machine

/-!
# `coro::mutex` at the level of its atomic steps

The word `m_state` of a mutex has three readings: the address of `m_state` itself stands
for *unlocked*, a null pointer for *locked without waiters*, and any other pointer heads
the list of the lock operations that wait, linked by their `m_next` fields.

Every coroutine owns one lock operation, which we identify with the coroutine; its address
is therefore reused by each of its successive `lock()` calls.  A coroutine executes one
atomic load, one compare-exchange or one access to an `m_next` field per step, in the
order in which `mutex::try_lock`, `lock_operation_base::await_suspend`, `mutex::unlock`
and `detail::awaiter_list_pop` write them down.  The flag of `Action.advance` lets a
`compare_exchange_weak` fail although the comparison succeeded.
-/

namespace Libcoro.Mutex

open Function

/-- The readings of `m_state`: `unlocked_value()`, or a `lock_operation_base*`. -/
inductive Word (ι : Type*) where
  | unlocked
  | ptr (p : Option ι)
  deriving DecidableEq, Repr

/-- Where a coroutine stands in its use of the mutex; each value names the atomic access that
comes next. -/
inductive Pc (ι : Type*) where
  -- Not using the mutex.
  | idle
  -- Running user code as the owner.
  | holding
  -- `await_suspend`: load `m_state`.
  | suspendLoad
  -- `await_suspend`: the lock was seen free, compare-exchange it to null.
  | casAcquire
  -- `await_suspend`: the lock was seen held with the list `p`, write `m_next = p`.
  | writeNext (p : Option ι)
  -- `await_suspend`: compare-exchange the list `p` to this operation.
  | casEnqueue (p : Option ι)
  -- Suspended in the waiter list.
  | suspended
  -- Popped by an unlocker and not resumed yet.
  | granted
  -- `unlock`: load `m_state`.
  | unlockLoad
  -- `unlock`: no waiter was seen, compare-exchange null to unlocked.
  | casRelease
  -- `awaiter_list_pop`: load the head.
  | popLoad
  -- `awaiter_list_pop`: read `waiter->m_next`.
  | popReadNext (w : ι)
  -- `awaiter_list_pop`: compare-exchange the head `w` to its successor `n`.
  | popCas (w : ι) (n : Option ι)
  -- `unlock`: resume the popped waiter.
  | resumeWaiter (w : ι)
  -- `unlock` threw "coro::mutex is already unlocked".
  | alreadyUnlocked
  -- `unlock` dereferenced a pointer that is no lock operation.
  | strayWaiter
  deriving DecidableEq, Repr

/-- The coroutines that own the mutex: from the compare-exchange that gave it to them up to the
one that gives it away. -/
def Pc.Owns {ι : Type*} : Pc ι → Prop
  | .holding | .granted | .unlockLoad | .casRelease | .popLoad | .popReadNext _ | .popCas _ _ =>
    True
  | _ => False

instance {ι : Type*} (p : Pc ι) : Decidable p.Owns := by
  cases p <;> unfold Pc.Owns <;> infer_instance

/-- What the history records: a lock operation joins the waiter list, an unlocker passes the
mutex to a waiter, an unlocker resumes a waiter. -/
inductive Event (ι : Type*) where
  | queued (w : ι)
  | transferred (c w : ι)
  | resumed (c w : ι)
  deriving DecidableEq, Repr

/-- A mutex, the lock operations linked to it and the coroutines using it. -/
structure State (ι : Type*) where
  -- `mutex::m_state`.
  mState : Word ι
  -- `lock_operation_base::m_next`.
  mNext : ι → Option ι
  -- `lock_operation_base::m_awaiting_coroutine`.
  mAwaitingCoroutine : ι → Option ι
  -- The control point of each coroutine.
  pc : ι → Pc ι
  -- History of the run, the latest event first; no step reads it.
  log : List (Event ι)

/-- The moves of a coroutine. -/
inductive Action (ι : Type*) where
  -- Calls `mutex::try_lock`.
  | tryLock (c : ι)
  -- Awaits `mutex::lock()` or `mutex::scoped_lock()`; `await_ready` runs in this step.
  | lock (c : ι)
  -- Calls `mutex::unlock` as the owner.
  | unlock (c : ι)
  -- Executes the next atomic access; a weak compare-exchange may fail spuriously.
  | advance (c : ι) (spurious : Bool)
  deriving DecidableEq, Repr

variable {ι : Type*}

/-- The branch of the loop in `await_suspend` for the value `current` of `m_state`. -/
def suspendBranch : Word ι → Pc ι
  | .unlocked => .casAcquire
  | .ptr p => .writeNext p

/-- The branch of the loop in `unlock` for the value `current` of `m_state`. -/
def unlockBranch : Word ι → Pc ι
  | .unlocked => .alreadyUnlocked
  | .ptr none => .casRelease
  | .ptr (some _) => .popLoad

/-- The loop test of `awaiter_list_pop` for the value `waiter` of the head.  A null pointer is
returned to `unlock`, which dereferences it; the unlocked value is no lock operation. -/
def popBranch : Word ι → Pc ι
  | .ptr (some w) => .popReadNext w
  | .ptr none => .strayWaiter
  | .unlocked => .strayWaiter

variable [DecidableEq ι]

/-- Moves the control point of `c`. -/
def State.goto (s : State ι) (c : ι) (p : Pc ι) : State ι :=
  { s with pc := update s.pc c p }

/-- `mutex::try_lock`: one strong compare-exchange from unlocked to null. -/
def tryLock (s : State ι) (c : ι) (failed : Pc ι) : State ι :=
  if s.mState = .unlocked then { s.goto c .holding with mState := .ptr none }
  else s.goto c failed

/-- The next atomic access of the coroutine `c`. -/
def advance (s : State ι) (c : ι) (spurious : Bool) : Option (State ι) :=
  match s.pc c with
  | .suspendLoad =>
    some { s.goto c (suspendBranch s.mState) with
      mAwaitingCoroutine := update s.mAwaitingCoroutine c (some c) }
  | .casAcquire =>
    if s.mState = .unlocked ∧ spurious = false then
      some { s.goto c .holding with
        mState := .ptr none
        mAwaitingCoroutine := update s.mAwaitingCoroutine c none }
    else some (s.goto c (suspendBranch s.mState))
  | .writeNext p =>
    some { s.goto c (.casEnqueue p) with mNext := update s.mNext c p }
  | .casEnqueue p =>
    if s.mState = .ptr p ∧ spurious = false then
      some { s.goto c .suspended with mState := .ptr (some c), log := .queued c :: s.log }
    else some (s.goto c (suspendBranch s.mState))
  | .unlockLoad => some (s.goto c (unlockBranch s.mState))
  | .casRelease =>
    if s.mState = .ptr none ∧ spurious = false then
      some { s.goto c .idle with mState := .unlocked }
    else some (s.goto c (unlockBranch s.mState))
  | .popLoad => some (s.goto c (popBranch s.mState))
  | .popReadNext w => some (s.goto c (.popCas w (s.mNext w)))
  | .popCas w n =>
    if s.mState = .ptr (some w) ∧ spurious = false then
      some { (s.goto w .granted).goto c (.resumeWaiter w) with
        mState := .ptr n
        log := .transferred c w :: s.log }
    else some (s.goto c (popBranch s.mState))
  | .resumeWaiter w =>
    match s.mAwaitingCoroutine w with
    | some d => some { (s.goto d .holding).goto c .idle with log := .resumed c w :: s.log }
    | none => some (s.goto c .strayWaiter)
  | .idle | .holding | .suspended | .granted | .alreadyUnlocked | .strayWaiter => none

/-- One step of the system. -/
def step (s : State ι) : Action ι → Option (State ι)
  | .tryLock c => if s.pc c = .idle then some (tryLock s c .idle) else none
  | .lock c => if s.pc c = .idle then some (tryLock s c .suspendLoad) else none
  | .unlock c => if s.pc c = .holding then some (s.goto c .unlockLoad) else none
  | .advance c spurious => advance s c spurious

/-- A fresh mutex, nobody using it. -/
def start : State ι where
  mState := .unlocked
  mNext _ := none
  mAwaitingCoroutine _ := none
  pc _ := .idle
  log := []

/-- The mutex and its users as a machine. -/
def machine (ι : Type*) [DecidableEq ι] : Foundations.Machine (State ι) (Action ι) where
  start := start
  step := step

end Libcoro.Mutex
