import Libcoro.Foundations.HandoverLock

/-!
# `coro::condition_variable`

Coroutines share one `coro::mutex`, one condition variable and the data that their predicates
read.  The mutex appears as the lock it implements, `HandoverLock`: unlocking it makes the
latest waiter the owner, and that waiter continues from then on, which covers the inline
resumption inside `mutex::unlock`.  A push, a pop and a `pop_all` on `m_awaiters` are one step
each, and so are the evaluation of a predicate with the resumption that follows, a call of
`lock` and a call of `unlock`.

The timed waits of `wait_for` and `wait_until` are not modelled here, so no awaiter is ever
dead and `notify_one` makes one round of its loop.
-/

namespace Libcoro.ConditionVariable

open Foundations Function

/-- The awaiter objects: `awaiter`, `awaiter_with_predicate` and
`awaiter_with_predicate_stop_token`. -/
inductive Awaiter (δ : Type*) where
  | plain
  | withPredicate (mPredicate : δ → Bool)
  | withPredicateStopToken (mPredicate : δ → Bool)

namespace Awaiter

variable {δ : Type*}

/-- `await_ready`: the value of the predicate on the data, and `false` where there is none. -/
def awaitReady : Awaiter δ → δ → Bool
  | plain, _ => false
  | withPredicate p, d => p d
  | withPredicateStopToken p, d => p d

/-- Whether `on_notify` returns `ready`, when the data is `d` and `stop` is the answer of
`m_stop_token.stop_requested()`. -/
def ready : Awaiter δ → δ → Bool → Bool
  | plain, _, _ => true
  | withPredicate p, d, _ => p d
  | withPredicateStopToken p, d, stop => p d || stop

/-- What an evaluation on the data `d` writes into `m_predicate_result`, which is `old` so far;
only the awaiter with a stop token has this field. -/
def predicateResult : Awaiter δ → δ → Bool → Bool
  | withPredicateStopToken p, d, _ => p d
  | _, _, old => old

end Awaiter

/-- What a coroutine does once `mutex::lock` lets it in: run user code, or evaluate the awaiter
`w` inside `on_notify` and then notify `ws`. -/
inductive AfterLock (ι : Type*) where
  | user
  | evaluate (w : ι) (ws : List ι)
  deriving DecidableEq, Repr

/-- Where a coroutine stands.

`waitPush` and `waitUnlock` are the two halves of `await_suspend`, after which the coroutine is
`waiting`.  `notifyAll` and `notifyOne` are about to pop from `m_awaiters`; `notifying ws` is
the head of the notify loop with the awaiters `ws` to go.  In `evaluating`, `notReady` and
`requeue` the awaiter `w` is being notified: its predicate comes next, or was found false, or
the mutex is released again and `w` is to be pushed back. -/
inductive Pc (ι : Type*) where
  | idle
  | locking (k : AfterLock ι)
  | holding
  | waitPush
  | waitUnlock
  | waiting
  | notifyAll
  | notifyOne
  | notifying (ws : List ι)
  | evaluating (w : ι) (ws : List ι)
  | notReady (w : ι) (ws : List ι)
  | requeue (w : ι) (ws : List ι)
  deriving DecidableEq, Repr

variable {ι δ : Type*}

/-- Where a coroutine continues as the owner of the mutex. -/
def AfterLock.pc : AfterLock ι → Pc ι
  | .user => .holding
  | .evaluate w ws => .evaluating w ws

/-- Where a coroutine that waits for the mutex continues once it is let in. -/
def Pc.locked : Pc ι → Pc ι
  | .locking k => k.pc
  | p => p

/-- The mutex, the condition variable, the data and the coroutines. -/
structure State (ι δ : Type*) where
  lock : HandoverLock ι
  data : δ
  -- `m_awaiters`, the latest first.
  mAwaiters : List ι
  -- The awaiter object of the current wait of each coroutine, with its `m_predicate_result`.
  awaiter : ι → Awaiter δ
  mPredicateResult : ι → Bool
  -- `m_stop_token.stop_requested()`.
  stopRequested : ι → Bool
  pc : ι → Pc ι
  -- Whether a coroutine has still to await `notify_all` for a change it made; no step reads it.
  owes : ι → Bool

/-- The moves of a coroutine.  `write c d owes` sets the data to `d` under the mutex, and says
whether `c` is going to await `notify_all` for this change; `wait c a stop` waits with the
awaiter `a`, whose stop token says `stop` so far. -/
inductive Action (ι δ : Type*) where
  | lock (c : ι)
  | write (c : ι) (d : δ) (owes : Bool)
  | wait (c : ι) (a : Awaiter δ) (stop : Bool)
  | unlock (c : ι)
  | notifyAll (c : ι)
  | notifyOne (c : ι)
  | requestStop (c : ι)
  | advance (c : ι)

variable [DecidableEq ι]

/-- Moves the control point of `c`. -/
def State.goto (s : State ι δ) (c : ι) (p : Pc ι) : State ι δ :=
  { s with pc := update s.pc c p }

/-- `co_await mutex.lock()`: `c` takes a free lock and goes on, or joins the waiters. -/
def State.acquire (s : State ι δ) (c : ι) (k : AfterLock ι) : State ι δ :=
  match s.lock with
  | .free => { s.goto c k.pc with lock := .held c [] }
  | .held o ws => { s.goto c (.locking k) with lock := .held o (c :: ws) }

/-- `mutex.unlock()`, after which `c` goes on at `p`. -/
def State.release (s : State ι δ) (c : ι) (p : Pc ι) : State ι δ :=
  match s.lock with
  | .held _ (w :: ws) => { (s.goto w (s.pc w).locked).goto c p with lock := .held w ws }
  | _ => { s.goto c p with lock := .free }

/-- `await_ready` of a wait with the awaiter `a`. -/
def wait (s : State ι δ) (c : ι) (a : Awaiter δ) (stop : Bool) : State ι δ :=
  { s.goto c (if a.awaitReady s.data then .holding else .waitPush) with
    awaiter := update s.awaiter c a
    stopRequested := update s.stopRequested c stop
    mPredicateResult := update s.mPredicateResult c (a.predicateResult s.data false) }

/-- The part of `on_notify` that follows the lock, run by `c` for the awaiter `w`.  A ready
awaiter is resumed and is the owner of the mutex from then on. -/
def onNotify (s : State ι δ) (c w : ι) (ws : List ι) : State ι δ :=
  let s' : State ι δ := { s with
    mPredicateResult := update s.mPredicateResult w
      ((s.awaiter w).predicateResult s.data (s.mPredicateResult w)) }
  if (s.awaiter w).ready s.data (s.stopRequested w) then
    { (s'.goto w .holding).goto c (.notifying ws) with lock := .held w s.lock.waiting }
  else s'.goto c (.notReady w ws)

/-- The next step of the coroutine `c` inside a call of the library. -/
def advance (s : State ι δ) (c : ι) : Option (State ι δ) :=
  match s.pc c with
  | .waitPush => some { s.goto c .waitUnlock with mAwaiters := c :: s.mAwaiters }
  | .waitUnlock => some (s.release c .waiting)
  | .notifyAll =>
    some { s.goto c (.notifying s.mAwaiters) with
      mAwaiters := []
      owes := update s.owes c false }
  | .notifyOne =>
    match s.mAwaiters with
    | [] => some (s.goto c .idle)
    | w :: ws => some { s.goto c (.notifying [w]) with mAwaiters := ws }
  | .notifying [] => some (s.goto c .idle)
  | .notifying (w :: ws) => some (s.acquire c (.evaluate w ws))
  | .evaluating w ws => some (onNotify s c w ws)
  | .notReady w ws => some (s.release c (.requeue w ws))
  | .requeue w ws => some { s.goto c (.notifying ws) with mAwaiters := w :: s.mAwaiters }
  | .idle | .locking _ | .holding | .waiting => none

/-- One step of the system. -/
def step (s : State ι δ) : Action ι δ → Option (State ι δ)
  | .lock c => if s.pc c = .idle then some (s.acquire c .user) else none
  | .write c d owes =>
    if s.pc c = .holding then
      some { s with data := d, owes := update s.owes c (s.owes c || owes) }
    else none
  | .wait c a stop => if s.pc c = .holding then some (wait s c a stop) else none
  | .unlock c => if s.pc c = .holding then some (s.release c .idle) else none
  | .notifyAll c => if s.pc c = .idle then some (s.goto c .notifyAll) else none
  | .notifyOne c => if s.pc c = .idle then some (s.goto c .notifyOne) else none
  | .requestStop c => some { s with stopRequested := update s.stopRequested c true }
  | .advance c => advance s c

/-- Nobody has done anything and the data is `d`. -/
def start (d : δ) : State ι δ where
  lock := .free
  data := d
  mAwaiters := []
  awaiter _ := .plain
  mPredicateResult _ := false
  stopRequested _ := false
  pc _ := .idle
  owes _ := false

/-- The coroutines as a machine, for every initial value of the data. -/
def machine (ι : Type*) [DecidableEq ι] {δ : Type*} (d : δ) :
    Machine (State ι δ) (Action ι δ) where
  start := start d
  step := step

end Libcoro.ConditionVariable
