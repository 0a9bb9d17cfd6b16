import Libcoro.ConditionVariable.Model

/-!
# Notifying through an executor

The untimed waits of `coro::condition_variable` with all four notify functions.  The waiters may
use different mutexes, each of which protects data of its own; a mutex appears through its owner
alone, so that a hand-over is the release of the mutex followed by the step in which the waiter
takes it.  A push, a pop and a `pop_all` on `m_awaiters` are one step each.

`notify_all(executor)` detaches the awaiters and spawns one task for each of them, whose result
`spawn_detached` reports and nobody reads: a task that the executor refuses never runs.
`notify_one(executor)` spawns a task that runs `notify_one`; if that is refused nothing has
happened.  A task is a coroutine of its own.
-/

namespace Libcoro.Notification

open Foundations ConditionVariable Function

/-- Where a coroutine stands.

`waitPush` and `waitUnlock` are the two halves of `await_suspend`, after which the coroutine is
`waiting`.  `notifyOne`, `notifyAll` and `notifyAllExecutor` are about to pop from `m_awaiters`.
`notifying ws` is the head of the loop of `notify_all` with the awaiters `ws` to go, and `spawning
ws` that of the overload with an executor.  In `locking`, `evaluating`, `notReady` and `requeue`
the awaiter `w` is being notified: the mutex of `w` is to be taken, its predicate comes next, was
found false, or the mutex is released again and `w` is to be pushed back; `ws` follow. -/
inductive Pc (ι : Type*) where
  | unused
  | running
  | waitPush
  | waitUnlock
  | waiting
  | notifyOne
  | notifyAll
  | notifyAllExecutor
  | notifying (ws : List ι)
  | spawning (ws : List ι)
  | locking (w : ι) (ws : List ι)
  | evaluating (w : ι) (ws : List ι)
  | notReady (w : ι) (ws : List ι)
  | requeue (w : ι) (ws : List ι)
  deriving DecidableEq, Repr

/-- The mutexes, the data that they protect, the condition variable and the coroutines. -/
structure State (ι μ δ : Type*) where
  owner : μ → Option ι
  data : μ → δ
  -- `m_awaiters`, the latest first.
  mAwaiters : List ι
  -- The mutex and the awaiter object of the current wait of each coroutine.
  mutex : ι → μ
  awaiter : ι → Awaiter δ
  mPredicateResult : ι → Bool
  -- `m_stop_token.stop_requested()`.
  stopRequested : ι → Bool
  pc : ι → Pc ι
  -- History, read by no step: the awaiters that the last notify call of a coroutine has taken off
  -- the list, those that it has evaluated or passed to a task since, and the awaiters whose task
  -- was refused.
  detached : ι → List ι
  handled : ι → List ι
  lost : List ι

/-- The moves of a coroutine: user code takes and releases mutexes, writes the data of a mutex that
it holds, waits with the awaiter `a`, whose stop token says `stop` so far, and calls the notify
functions.  `spawn c k` and `refuse c` are the two answers of `spawn_detached` to the loop of
`notify_all(executor)`, `k` being the new task. -/
inductive Action (ι μ δ : Type*) where
  | begin (c : ι)
  | lock (c : ι) (m : μ)
  | unlock (c : ι) (m : μ)
  | write (c : ι) (m : μ) (d : δ)
  | wait (c : ι) (m : μ) (a : Awaiter δ) (stop : Bool)
  | notifyOne (c : ι)
  | notifyAll (c : ι)
  | notifyAllExecutor (c : ι)
  | notifyOneExecutor (c k : ι)
  | requestStop (c : ι)
  | spawn (c k : ι)
  | refuse (c : ι)
  | advance (c : ι)

variable {ι μ δ : Type*} [DecidableEq ι]

/-- Moves the control point of `c`. -/
@[simp] def State.goto (s : State ι μ δ) (c : ι) (p : Pc ι) : State ι μ δ :=
  { s with pc := update s.pc c p }

/-- A notify call of `c` has taken the awaiters `ws` off the list. -/
@[simp] def State.detach (s : State ι μ δ) (c : ι) (ws : List ι) : State ι μ δ :=
  { s with
    detached := update s.detached c ws
    handled := update s.handled c [] }

/-- The notify call of `c` has dealt with the awaiter `w`. -/
@[simp] def State.handle (s : State ι μ δ) (c w : ι) : State ι μ δ :=
  { s with handled := update s.handled c (s.handled c ++ [w]) }

variable [DecidableEq μ]

/-- Sets the owner of the mutex `m`. -/
def State.setOwner (s : State ι μ δ) (m : μ) (o : Option ι) : State ι μ δ :=
  { s with owner := update s.owner m o }

/-- `await_ready` of a wait with the awaiter `a`. -/
def wait (s : State ι μ δ) (c : ι) (m : μ) (a : Awaiter δ) (stop : Bool) : State ι μ δ :=
  { s.goto c (if a.awaitReady (s.data m) then .running else .waitPush) with
    mutex := update s.mutex c m
    awaiter := update s.awaiter c a
    stopRequested := update s.stopRequested c stop
    mPredicateResult :=
      update s.mPredicateResult c (a.predicateResult (s.data m) false) }

/-- Whether `on_notify` finds the awaiter `w` ready. -/
def State.ready (s : State ι μ δ) (w : ι) : Bool :=
  (s.awaiter w).ready (s.data (s.mutex w)) (s.stopRequested w)

/-- What an evaluation by `on_notify` leaves in the awaiter `w`. -/
def State.evaluated (s : State ι μ δ) (w : ι) : State ι μ δ :=
  { s with
    mPredicateResult := update s.mPredicateResult w
      ((s.awaiter w).predicateResult (s.data (s.mutex w)) (s.mPredicateResult w)) }

/-- The part of `on_notify` that follows the lock, run by `c` for the awaiter `w`.  A ready awaiter
is resumed and is the owner of its mutex from then on. -/
def onNotify (s : State ι μ δ) (c w : ι) (ws : List ι) : State ι μ δ :=
  if s.ready w then
    ((((s.evaluated w).handle c w).setOwner (s.mutex w) (some w)).goto w .running).goto c
      (.notifying ws)
  else ((s.evaluated w).handle c w).goto c (.notReady w ws)

/-- The next step of the coroutine `c` inside a call of the library. -/
def advance (s : State ι μ δ) (c : ι) : Option (State ι μ δ) :=
  match s.pc c with
  | .waitPush => some { s.goto c .waitUnlock with mAwaiters := c :: s.mAwaiters }
  | .waitUnlock => some ((s.setOwner (s.mutex c) none).goto c .waiting)
  | .notifyOne =>
    match s.mAwaiters with
    | [] => some (s.goto c .running)
    | w :: ws => some { (s.detach c [w]).goto c (.locking w []) with mAwaiters := ws }
  | .notifyAll =>
    some { (s.detach c s.mAwaiters).goto c (.notifying s.mAwaiters) with mAwaiters := [] }
  | .notifyAllExecutor =>
    some { (s.detach c s.mAwaiters).goto c (.spawning s.mAwaiters) with mAwaiters := [] }
  | .notifying [] => some (s.goto c .running)
  | .notifying (w :: ws) => some (s.goto c (.locking w ws))
  | .spawning [] => some (s.goto c .running)
  | .locking w ws =>
    if s.owner (s.mutex w) = none then
      some ((s.setOwner (s.mutex w) (some c)).goto c (.evaluating w ws))
    else none
  | .evaluating w ws => some (onNotify s c w ws)
  | .notReady w ws => some ((s.setOwner (s.mutex w) none).goto c (.requeue w ws))
  | .requeue w ws => some { s.goto c (.notifying ws) with mAwaiters := w :: s.mAwaiters }
  | .unused | .running | .waiting | .spawning (_ :: _) => none

/-- The executor takes the next task of the loop of `notify_all(executor)`, which runs as `k`. -/
def spawn (s : State ι μ δ) (c k : ι) : Option (State ι μ δ) :=
  match s.pc c, s.pc k with
  | .spawning (w :: ws), .unused =>
    some ((((s.detach k [w]).goto k (.locking w [])).handle c w).goto c (.spawning ws))
  | _, _ => none

/-- The executor refuses the next task of the loop of `notify_all(executor)`. -/
def refuse (s : State ι μ δ) (c : ι) : Option (State ι μ δ) :=
  match s.pc c with
  | .spawning (w :: ws) => some { s.goto c (.spawning ws) with lost := w :: s.lost }
  | _ => none

/-- One step of the system. -/
def step (s : State ι μ δ) : Action ι μ δ → Option (State ι μ δ)
  | .begin c => if s.pc c = .unused then some (s.goto c .running) else none
  | .lock c m =>
    if s.pc c = .running ∧ s.owner m = none then some (s.setOwner m (some c)) else none
  | .unlock c m =>
    if s.pc c = .running ∧ s.owner m = some c then some (s.setOwner m none) else none
  | .write c m d =>
    if s.pc c = .running ∧ s.owner m = some c then
      some { s with data := update s.data m d }
    else none
  | .wait c m a stop =>
    if s.pc c = .running ∧ s.owner m = some c then some (wait s c m a stop) else none
  | .notifyOne c => if s.pc c = .running then some (s.goto c .notifyOne) else none
  | .notifyAll c => if s.pc c = .running then some (s.goto c .notifyAll) else none
  | .notifyAllExecutor c =>
    if s.pc c = .running then some (s.goto c .notifyAllExecutor) else none
  | .notifyOneExecutor c k =>
    if s.pc c = .running ∧ s.pc k = .unused then some (s.goto k .notifyOne) else none
  | .requestStop c => some { s with stopRequested := update s.stopRequested c true }
  | .spawn c k => spawn s c k
  | .refuse c => refuse s c
  | .advance c => advance s c

/-- No coroutine has begun, the mutexes are free and protect the data `d`. -/
def start [Inhabited μ] (d : μ → δ) : State ι μ δ where
  owner _ := none
  data := d
  mAwaiters := []
  mutex _ := default
  awaiter _ := .plain
  mPredicateResult _ := false
  stopRequested _ := false
  pc _ := .unused
  detached _ := []
  handled _ := []
  lost := []

/-- The coroutines as a machine, for every initial value of the data. -/
def machine (ι : Type*) {μ δ : Type*} [DecidableEq ι] [DecidableEq μ] [Inhabited μ]
    (d : μ → δ) : Machine (State ι μ δ) (Action ι μ δ) where
  start := start d
  step := step

end Libcoro.Notification
