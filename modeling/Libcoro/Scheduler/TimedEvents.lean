import Libcoro.Foundations.Machine
import Libcoro.Foundations.TimedQueue

/-!
# The timed events of `coro::scheduler`

Worker threads add entries to `m_timed_events` (`add_timer_token`, for `yield_for`,
`yield_until` and `poll` with a timeout); the event loop removes them when they are due
(`process_timeout_execute`) or when the poll they belong to was completed otherwise
(`remove_timer_token`).  All three re-arm the one OS timer through `update_timeout`, but
`process_timeout_execute` does so after it has released `m_timed_events_mutex`.

Time points are integers, in nanoseconds.  Each update first reads the clock, then the earliest
entry, and then sets the timer, in three steps.  What is handed to `timerfd_settime` is a duration,
the distance of the entry from the reading of the clock, and it counts from the moment of the call:
the time that passes between the two is added to the deadline.
-/

namespace Libcoro.Scheduler

open Foundations

/-- `io_notifier_epoll::watch_timer`: the delay with which the OS timer is set for `duration`
nanoseconds, put together from its seconds and nanoseconds. -/
def watchTimerDelay (duration : ℤ) : ℤ :=
  let seconds := duration.tdiv 1000000000
  let nanoseconds := duration - seconds * 1000000000
  if seconds ≤ 0 then (if nanoseconds ≤ 0 then 1 else nanoseconds)
  else seconds * 1000000000 + nanoseconds

/-- A positive duration is kept and any other one becomes a nanosecond. -/
lemma watchTimerDelay_eq (duration : ℤ) : watchTimerDelay duration = max duration 1 := by
  have hsplit := Int.tdiv_mul_add_tmod duration 1000000000
  unfold watchTimerDelay
  rcases le_total 0 duration with hpos | hneg
  · have hrem := Int.tmod_nonneg 1000000000 hpos
    have hquot : 0 ≤ duration.tdiv 1000000000 := Int.tdiv_nonneg hpos (by decide)
    simp only
    split_ifs <;> omega
  · have hrem : duration.tmod 1000000000 ≤ 0 := by
      rw [← neg_nonneg, ← Int.neg_tmod]
      exact Int.tmod_nonneg _ (neg_nonneg.mpr hneg)
    have hquot : duration.tdiv 1000000000 ≤ 0 := by
      rw [← neg_nonneg, ← Int.neg_tdiv]
      exact Int.tdiv_nonneg (neg_nonneg.mpr hneg) (by decide)
    simp only
    split_ifs <;> omega

namespace Timer

/-- The threads: the one that runs the event loop, and the workers. -/
inductive Agent (ι : Type*) where
  | loop
  | worker (w : ι)
  deriving DecidableEq, Repr

/-- What `update_timeout` has found: the earliest time point, when the clock read `now`. -/
structure Rearm where
  tp : ℤ
  now : ℤ
  deriving DecidableEq, Repr

/-- The OS timer, armed at the time `armedAt` to fire at `deadline`. -/
structure ArmedTimer where
  deadline : ℤ
  armedAt : ℤ
  deriving DecidableEq, Repr

/-- Where a thread stands.  In `addLock`, `removeLock` and `timeoutLock` it is about to lock
`m_timed_events_mutex`; `updateNow` is the reading of the clock for `update_timeout`, and
`updateRead` and `updateSet` are its two steps, run with the mutex held or not. -/
inductive Pc (κ : Type*) where
  | idle
  | addLock (tp : ℤ) (k : κ)
  | removeLock (k : κ)
  | timeoutLock (now : ℤ)
  | updateNow (locked : Bool)
  | updateRead (locked : Bool) (now : ℤ)
  | updateSet (locked : Bool) (r : Option Rearm)
  deriving DecidableEq, Repr

/-- The timed events, the OS timer and the threads; the keys `κ` stand for the `poll_info`s. -/
structure State (ι κ : Type*) where
  clock : ℤ
  mTimedEvents : TimedQueue ℤ κ
  -- Who has locked `m_timed_events_mutex` and is in a critical section of more than one step.
  mTimedEventsMutex : Option (Agent ι)
  timer : Option ArmedTimer
  pc : Agent ι → Pc κ

/-- The moves: time passes, a thread calls `add_timer_token`, the event loop calls
`remove_timer_token` or `process_timeout_execute`, or a thread takes its next step. -/
inductive Action (ι κ : Type*) where
  | tick (d : ℕ)
  | add (a : Agent ι) (tp : ℤ) (k : κ)
  | remove (k : κ)
  | processTimeout
  | advance (a : Agent ι)
  deriving DecidableEq, Repr

/-- The timer after `watch_timer` or, without an entry, `unwatch_timer` at the time `clock`. -/
def setTimer (clock : ℤ) : Option Rearm → Option ArmedTimer
  | some r => some { deadline := clock + watchTimerDelay (r.tp - r.now), armedAt := clock }
  | none => none

variable {ι κ : Type*} [DecidableEq ι] [DecidableEq κ]

/-- Moves the control point of a thread. -/
def State.goto (s : State ι κ) (a : Agent ι) (p : Pc κ) : State ι κ :=
  { s with pc := Function.update s.pc a p }

/-- What `update_timeout(now)` reads. -/
def State.readEarliest (s : State ι κ) (now : ℤ) : Option Rearm :=
  s.mTimedEvents.earliest.map fun e => { tp := e.1, now := now }

/-- `add_timer_token` under the lock, up to a call of `update_timeout`. -/
def addTimerToken (s : State ι κ) (a : Agent ι) (tp : ℤ) (k : κ) : State ι κ :=
  if s.mTimedEvents.isFirst tp then
    { s.goto a (.updateNow true) with
      mTimedEvents := s.mTimedEvents.emplace tp k
      mTimedEventsMutex := some a }
  else { s.goto a .idle with mTimedEvents := s.mTimedEvents.emplace tp k }

/-- `remove_timer_token` under the lock, up to a call of `update_timeout`. -/
def removeTimerToken (s : State ι κ) (a : Agent ι) (k : κ) : State ι κ :=
  if s.mTimedEvents.earliest.any (·.2 = k) then
    { s.goto a (.updateNow true) with
      mTimedEvents := s.mTimedEvents.erase k
      mTimedEventsMutex := some a }
  else { s.goto a .idle with mTimedEvents := s.mTimedEvents.erase k }

/-- The next step of a thread. -/
def advance (s : State ι κ) (a : Agent ι) : Option (State ι κ) :=
  match s.pc a with
  | .idle => none
  | .addLock tp k => if s.mTimedEventsMutex = none then some (addTimerToken s a tp k) else none
  | .removeLock k => if s.mTimedEventsMutex = none then some (removeTimerToken s a k) else none
  | .timeoutLock now =>
    if s.mTimedEventsMutex = none then
      some { s.goto a (.updateNow false) with mTimedEvents := s.mTimedEvents.dropDue now }
    else none
  | .updateNow locked => some (s.goto a (.updateRead locked s.clock))
  | .updateRead locked now => some (s.goto a (.updateSet locked (s.readEarliest now)))
  | .updateSet locked r =>
    some { s.goto a .idle with
      timer := setTimer s.clock r
      mTimedEventsMutex := if locked then none else s.mTimedEventsMutex }

/-- One step of the system. -/
def step (s : State ι κ) : Action ι κ → Option (State ι κ)
  | .tick d => some { s with clock := s.clock + d }
  | .add a tp k => if s.pc a = .idle then some (s.goto a (.addLock tp k)) else none
  | .remove k =>
    if s.pc .loop = .idle ∧ s.mTimedEvents.entries.any (·.2 = k) then
      some (s.goto .loop (.removeLock k))
    else none
  | .processTimeout =>
    if s.pc .loop = .idle then some (s.goto .loop (.timeoutLock s.clock)) else none
  | .advance a => advance s a

/-- No timed event, the timer disarmed, the clock at `c`. -/
def start (c : ℤ) : State ι κ where
  clock := c
  mTimedEvents := TimedQueue.empty
  mTimedEventsMutex := none
  timer := none
  pc _ := .idle

/-- The threads as a machine, for every initial value of the clock. -/
def machine (ι κ : Type*) [DecidableEq ι] [DecidableEq κ] (c : ℤ) :
    Machine (State ι κ) (Action ι κ) where
  start := start c
  step := step

end Timer

end Libcoro.Scheduler
