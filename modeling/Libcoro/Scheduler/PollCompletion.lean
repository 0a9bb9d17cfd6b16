import Libcoro.Scheduler.Poll
import Libcoro.Foundations.TimedQueue

/-!
# How polls are completed

`scheduler::poll`, `yield_for` and `yield_until` with their time points, and the event loop that
completes them.  The polling coroutine inserts its `poll_info` into `m_timed_events` and stores the
iterator in `m_timer_pos` once it is back from the insertion; then it registers its descriptors and
suspends.  The loop gets a batch of events, in any order and with repetitions: the timer, the
schedule pipe, the shutdown pipe, and events of the descriptors and of the stop tokens of polls that
have been registered and have not returned.  It ends a poll by the first of them that it takes up.

Reading the clock, each insertion into `m_timed_events` and removal from it, and each look at
`m_processed` or `m_awaiting_coroutine` is a step of its own.  A coroutine whose handle is handed to
the thread pool returns from its poll some time later; with inline processing it does so at once,
which is one of these runs.  What the notifier holds is modelled in `Libcoro.Scheduler.Poll`, and
`Libcoro.Scheduler.PollSimulation` connects the two; here a registration may be reported as long as
the poll has not returned, whether or not it was removed.  Time points are integers, in nanoseconds,
and a `poll_info` is used for one poll only.
-/

namespace Libcoro.Scheduler.PollCompletion

open Foundations Poll Function

/-- Where a polling coroutine is; `assignPos` is between the return from `add_timer_token` and the
assignment to `m_timer_pos`, and at `resumed` its handle has been handed over, but it has not yet
read the status in `await_resume`. -/
inductive Pc where
  | idle
  | addTimer (tp : ℤ)
  | assignPos
  | watch
  | watchCancel
  | suspend
  | suspended
  | resumed
  | returned
  deriving DecidableEq, Repr

/-- What `epoll_wait` reports. -/
inductive Ready (π : Type*) where
  | timer
  | schedule
  | shutdown
  | fd (p : π) (events : EpollEvents)
  | cancel (p : π)
  deriving DecidableEq, Repr

/-- An element of `m_recent_events`. -/
inductive Event (π : Type*) where
  | timer
  | schedule
  | shutdown
  | poll (p : π) (status : PollStatus)
  deriving DecidableEq, Repr

/-- Where the event loop is.  In `process_event_execute` it is about to call `remove_timer_token`,
or waits for the coroutine to suspend; in `process_timeout_execute` it has read the clock, goes
through the polls that are due, or waits for one of them to suspend. -/
inductive LoopPc (π : Type*) where
  | idle
  | processing
  | removeTimer (p : π) (status : PollStatus)
  | awaitEvent (p : π)
  | timeoutLock (now : ℤ)
  | timeouts (due : List π)
  | awaitTimeout (p : π) (due : List π)
  deriving DecidableEq, Repr

/-- The scheduler as far as the completion of polls is concerned. -/
structure State (π φ : Type*) where
  clock : ℤ
  pc : π → Pc
  info : π → PollInfo φ
  mTimedEvents : TimedQueue ℤ π
  mRecentEvents : List (Event π)
  loop : LoopPc π
  -- `none` stands for a coroutine that was scheduled.
  mHandlesToResume : List (Option π)
  -- History, read by no step: the time point of the entry of a poll, the time at which the loop has
  -- found it due, the events and timeouts that the loop has taken up, the polls whose handle it has
  -- appended to `m_handles_to_resume`, and what a poll has returned.
  timePoint : π → Option ℤ
  timedOutAt : π → Option ℤ
  occurred : List (π × PollStatus)
  appended : List π
  returned : π → Option PollStatus

/-- Time passes, a coroutine begins to poll or to yield or takes its next step, `epoll_wait`
returns, or the loop takes its next step, where `scheduled` is the number of scheduled coroutines
that it finds when it takes up the schedule pipe. -/
inductive Action (π φ : Type*) where
  | tick (d : ℕ)
  | poll (p : π) (fd : φ) (timeout : ℤ) (cancelTrigger : Option φ)
  | yieldUntil (p : π) (tp : ℤ)
  | advance (p : π)
  | nextEvents (ready : List (Ready π))
  | loop (scheduled : ℕ)
  deriving DecidableEq, Repr

variable {π φ : Type*}

/-- The descriptor of the poll has been registered, and the poll has not returned. -/
def Pc.watched : Pc → Bool
  | .watchCancel => true
  | .suspend => true
  | .suspended => true
  | .resumed => true
  | _ => false

/-- The stop token of the poll has been registered, and the poll has not returned. -/
def Pc.watchedCancel : Pc → Bool
  | .suspend => true
  | .suspended => true
  | .resumed => true
  | _ => false

/-- The element of `m_recent_events` for a reported event, if it can be reported. -/
def State.event (s : State π φ) : Ready π → Option (Event π)
  | .timer => some .timer
  | .schedule => some .schedule
  | .shutdown => some .shutdown
  | .fd p events =>
    if (s.pc p).watched ∧ (s.info p).mFd.isSome then (eventToPollStatus events).map (.poll p)
    else none
  | .cancel p =>
    if (s.pc p).watchedCancel ∧ (s.info p).mCancelTrigger.isSome then some (.poll p .cancelled)
    else none

variable [DecidableEq π]

/-- The coroutine of `p` goes on to `c`. -/
@[simp] def State.goto (s : State π φ) (p : π) (c : Pc) : State π φ :=
  { s with pc := update s.pc p c }

/-- Overwrites the `poll_info` of `p`. -/
@[simp] def State.setInfo (s : State π φ) (p : π) (pi : PollInfo φ) : State π φ :=
  { s with info := update s.info p pi }

/-- The handle of `p` is appended to `m_handles_to_resume`. -/
@[simp] def State.append (s : State π φ) (p : π) : State π φ :=
  { s with mHandlesToResume := s.mHandlesToResume ++ [some p], appended := s.appended ++ [p] }

/-- The loop takes up an event or the timeout of `p`. -/
@[simp] def State.takeUp (s : State π φ) (p : π) (status : PollStatus) : State π φ :=
  { s with occurred := s.occurred ++ [(p, status)] }

/-- The next step of a polling coroutine. -/
def advance (s : State π φ) (p : π) : Option (State π φ) :=
  match s.pc p with
  | .addTimer tp =>
    -- a yield has no descriptor and does not keep the timer position
    some { s.goto p (if (s.info p).mFd.isSome then .assignPos else .suspend) with
      mTimedEvents := s.mTimedEvents.emplace tp p
      timePoint := update s.timePoint p (some tp) }
  | .assignPos => some ((s.setInfo p { s.info p with mTimerPos := true }).goto p .watch)
  | .watch => some (s.goto p .watchCancel)
  | .watchCancel => some (s.goto p .suspend)
  | .suspend =>
    some ((s.setInfo p { s.info p with mAwaitingCoroutine := true }).goto p .suspended)
  | .resumed =>
    some { s.goto p .returned with
      returned := update s.returned p (some (s.info p).mPollStatus) }
  | .idle | .suspended | .returned => none

/-- The next element of `m_recent_events`, or the end of `process_events_execute`. -/
def process (s : State π φ) (scheduled : ℕ) : State π φ :=
  match s.mRecentEvents with
  | [] =>
    { s with
      pc := fun p => if some p ∈ s.mHandlesToResume then .resumed else s.pc p
      mHandlesToResume := []
      loop := .idle }
  | .timer :: rest => { s with mRecentEvents := rest, loop := .timeoutLock s.clock }
  | .schedule :: rest =>
    { s with
      mRecentEvents := rest
      mHandlesToResume := s.mHandlesToResume ++ List.replicate scheduled none }
  | .shutdown :: rest => { s with mRecentEvents := rest }
  | .poll p status :: rest =>
    if (s.info p).mProcessed then { s.takeUp p status with mRecentEvents := rest }
    else if (s.info p).mTimerPos then
      { (s.takeUp p status).setInfo p { s.info p with mProcessed := true } with
        mRecentEvents := rest
        loop := .removeTimer p status }
    else
      { (s.takeUp p status).setInfo p
          { s.info p with mProcessed := true, mPollStatus := status } with
        mRecentEvents := rest
        loop := .awaitEvent p }

/-- The next step of `process_events_execute` after `epoll_wait`.  There is none if an iterator is
erased that is not in the map. -/
def loop (s : State π φ) (scheduled : ℕ) : Option (State π φ) :=
  match s.loop with
  | .idle => none
  | .processing => some (process s scheduled)
  | .removeTimer p status =>
    if p ∈ s.mTimedEvents.keys then
      some { s.setInfo p { s.info p with mPollStatus := status } with
        mTimedEvents := s.mTimedEvents.erase p
        loop := .awaitEvent p }
    else none
  | .awaitEvent p =>
    if (s.info p).mAwaitingCoroutine then some { s.append p with loop := .processing } else none
  | .timeoutLock now =>
    some { s with
      mTimedEvents := s.mTimedEvents.dropDue now
      loop := .timeouts ((s.mTimedEvents.due now).map Prod.snd)
      timedOutAt := fun p =>
        if p ∈ (s.mTimedEvents.due now).map Prod.snd then some now else s.timedOutAt p }
  | .timeouts [] => some { s with loop := .processing }
  | .timeouts (p :: due) =>
    if (s.info p).mProcessed then some { s.takeUp p .timeout with loop := .timeouts due }
    else
      some { (s.takeUp p .timeout).setInfo p { s.info p with mProcessed := true } with
        loop := .awaitTimeout p due }
  | .awaitTimeout p due =>
    if (s.info p).mAwaitingCoroutine then
      some { (s.append p).setInfo p { s.info p with mPollStatus := .timeout } with
        loop := .timeouts due }
    else none

/-- One step of the system. -/
def step (s : State π φ) : Action π φ → Option (State π φ)
  | .tick d => some { s with clock := s.clock + d }
  | .poll p fd timeout cancelTrigger =>
    if s.pc p = .idle then
      some ((s.setInfo p { mFd := some fd, mCancelTrigger := cancelTrigger }).goto p
        (if 0 < timeout then .addTimer (s.clock + timeout * 1000000) else .watch))
    else none
  | .yieldUntil p tp =>
    if s.pc p = .idle then some ((s.setInfo p {}).goto p (.addTimer tp)) else none
  | .advance p => advance s p
  | .nextEvents ready =>
    if s.loop = .idle ∧ ∀ r ∈ ready, (s.event r).isSome then
      some { s with
        mRecentEvents := ready.filterMap s.event
        loop := .processing }
    else none
  | .loop scheduled => loop s scheduled

/-- Nothing is polled, and the clock is at `c`. -/
def start (c : ℤ) : State π φ where
  clock := c
  pc _ := .idle
  info _ := {}
  mTimedEvents := TimedQueue.empty
  mRecentEvents := []
  loop := .idle
  mHandlesToResume := []
  timePoint _ := none
  timedOutAt _ := none
  occurred := []
  appended := []
  returned _ := none

/-- The polls and the event loop as a machine, for every initial value of the clock. -/
def machine (π φ : Type*) [DecidableEq π] (c : ℤ) :
    Machine (State π φ) (Action π φ) where
  start := start c
  step := step

/-! ## The transitions -/

/-- The moves of a coroutine that change nothing but its control point. -/
inductive Quiet : Pc → Pc → Prop
  | watch : Quiet .watch .watchCancel
  | watchCancel : Quiet .watchCancel .suspend

/-- What a step can do. -/
inductive Transition (s : State π φ) : State π φ → Prop
  | tick {c : ℤ} : Transition s { s with clock := c }
  | begin {p : π} {pi : PollInfo φ} {c : Pc} : s.pc p = .idle → pi.mProcessed = false →
      pi.mTimerPos = false → (pi.mCancelTrigger.isSome → pi.mFd.isSome) →
      (c = .watch ∨ ∃ tp, c = .addTimer tp) → Transition s ((s.setInfo p pi).goto p c)
  | addTimer {p : π} {tp : ℤ} : s.pc p = .addTimer tp →
      Transition s { s.goto p (if (s.info p).mFd.isSome then .assignPos else .suspend) with
        mTimedEvents := s.mTimedEvents.emplace tp p
        timePoint := update s.timePoint p (some tp) }
  | assignPos {p : π} : s.pc p = .assignPos →
      Transition s ((s.setInfo p { s.info p with mTimerPos := true }).goto p .watch)
  | quiet {p : π} {c : Pc} : Quiet (s.pc p) c → Transition s (s.goto p c)
  | suspend {p : π} : s.pc p = .suspend →
      Transition s ((s.setInfo p { s.info p with mAwaitingCoroutine := true }).goto p .suspended)
  | awaitResume {p : π} : s.pc p = .resumed →
      Transition s { s.goto p .returned with
        returned := update s.returned p (some (s.info p).mPollStatus) }
  | nextEvents {ready : List (Ready π)} : s.loop = .idle →
      Transition s { s with mRecentEvents := ready.filterMap s.event, loop := .processing }
  | resumeAll : s.loop = .processing →
      Transition s { s with
        pc := fun p => if some p ∈ s.mHandlesToResume then .resumed else s.pc p
        mHandlesToResume := []
        loop := .idle }
  | timerEvent {rest : List (Event π)} : s.loop = .processing → s.mRecentEvents = .timer :: rest →
      Transition s { s with mRecentEvents := rest, loop := .timeoutLock s.clock }
  | otherEvent {e : Event π} {rest : List (Event π)} {k : ℕ} : s.loop = .processing →
      s.mRecentEvents = e :: rest →
      Transition s { s with
        mRecentEvents := rest
        mHandlesToResume := s.mHandlesToResume ++ List.replicate k none }
  | discardEvent {p : π} {st : PollStatus} {rest : List (Event π)} : s.loop = .processing →
      s.mRecentEvents = .poll p st :: rest → (s.info p).mProcessed = true →
      Transition s { s.takeUp p st with mRecentEvents := rest }
  | endTimed {p : π} {st : PollStatus} {rest : List (Event π)} : s.loop = .processing →
      s.mRecentEvents = .poll p st :: rest → (s.info p).mProcessed = false →
      (s.info p).mTimerPos = true →
      Transition s { (s.takeUp p st).setInfo p { s.info p with mProcessed := true } with
        mRecentEvents := rest
        loop := .removeTimer p st }
  | endUntimed {p : π} {st : PollStatus} {rest : List (Event π)} : s.loop = .processing →
      s.mRecentEvents = .poll p st :: rest → (s.info p).mProcessed = false →
      (s.info p).mTimerPos = false →
      Transition s { (s.takeUp p st).setInfo p
          { s.info p with mProcessed := true, mPollStatus := st } with
        mRecentEvents := rest
        loop := .awaitEvent p }
  | removeTimer {p : π} {st : PollStatus} : s.loop = .removeTimer p st →
      Transition s { s.setInfo p { s.info p with mPollStatus := st } with
        mTimedEvents := s.mTimedEvents.erase p
        loop := .awaitEvent p }
  | appendEvent {p : π} : s.loop = .awaitEvent p →
      Transition s { s.append p with loop := .processing }
  | timeoutLock {now : ℤ} : s.loop = .timeoutLock now →
      Transition s { s with
        mTimedEvents := s.mTimedEvents.dropDue now
        loop := .timeouts ((s.mTimedEvents.due now).map Prod.snd)
        timedOutAt := fun p =>
          if p ∈ (s.mTimedEvents.due now).map Prod.snd then some now else s.timedOutAt p }
  | timeoutsDone : s.loop = .timeouts [] → Transition s { s with loop := .processing }
  | discardTimeout {p : π} {due : List π} : s.loop = .timeouts (p :: due) →
      (s.info p).mProcessed = true →
      Transition s { s.takeUp p .timeout with loop := .timeouts due }
  | endByTimeout {p : π} {due : List π} : s.loop = .timeouts (p :: due) →
      (s.info p).mProcessed = false →
      Transition s { (s.takeUp p .timeout).setInfo p { s.info p with mProcessed := true } with
        loop := .awaitTimeout p due }
  | appendTimeout {p : π} {due : List π} : s.loop = .awaitTimeout p due →
      Transition s { (s.append p).setInfo p { s.info p with mPollStatus := .timeout } with
        loop := .timeouts due }

variable {s t : State π φ}

/-- Every step of a coroutine is one of the listed transitions. -/
lemma advance_transition {p : π} (h : advance s p = some t) : Transition s t := by
  unfold advance at h
  split at h <;> rename_i hc
  · cases h
    exact .addTimer hc
  · cases h
    exact .assignPos hc
  · cases h
    exact .quiet (hc ▸ .watch)
  · cases h
    exact .quiet (hc ▸ .watchCancel)
  · cases h
    exact .suspend hc
  · cases h
    exact .awaitResume hc
  all_goals simp at h

/-- Taking up the next event is one of the listed transitions. -/
lemma process_transition {k : ℕ} (hl : s.loop = .processing) : Transition s (process s k) := by
  unfold process
  split <;> rename_i he
  · exact .resumeAll hl
  · exact .timerEvent hl he
  · exact .otherEvent hl he
  · simpa using Transition.otherEvent (k := 0) hl he
  · split_ifs with hproc hpos
    · exact .discardEvent hl he hproc
    · exact .endTimed hl he (by simpa using hproc) hpos
    · exact .endUntimed hl he (by simpa using hproc) (by simpa using hpos)

/-- Every step of the event loop is one of the listed transitions. -/
lemma loop_transition {k : ℕ} (h : loop s k = some t) : Transition s t := by
  unfold loop at h
  split at h <;> rename_i hl
  · simp at h
  · cases h
    exact process_transition hl
  · split_ifs at h
    cases h
    exact .removeTimer hl
  · split_ifs at h
    cases h
    exact .appendEvent hl
  · cases h
    exact .timeoutLock hl
  · cases h
    exact .timeoutsDone hl
  · split_ifs at h with hproc
    · cases h
      exact .discardTimeout hl hproc
    · cases h
      exact .endByTimeout hl (by simpa using hproc)
  · split_ifs at h
    cases h
    exact .appendTimeout hl

/-- Every step of the system is one of the listed transitions. -/
lemma step_transition {a : Action π φ} (h : step s a = some t) : Transition s t := by
  cases a with
  | tick d =>
    cases h
    exact .tick
  | poll p fd timeout cancelTrigger =>
    simp only [step] at h
    split_ifs at h with hc
    · cases h
      exact .begin hc rfl rfl (fun _ => rfl) (Or.inr ⟨_, rfl⟩)
    · cases h
      exact .begin hc rfl rfl (fun _ => rfl) (Or.inl rfl)
  | yieldUntil p tp =>
    simp only [step] at h
    split_ifs at h with hc
    cases h
    exact .begin hc rfl rfl id (Or.inr ⟨_, rfl⟩)
  | advance p => exact advance_transition h
  | nextEvents ready =>
    simp only [step] at h
    split_ifs at h with hl
    cases h
    exact .nextEvents hl.1
  | loop k => exact loop_transition h

end Libcoro.Scheduler.PollCompletion
