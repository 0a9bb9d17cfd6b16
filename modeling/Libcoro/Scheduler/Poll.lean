import Libcoro.Foundations.Machine
import Libcoro.Foundations.InterestList

/-!
# Polls and the event loop

`scheduler::poll` with the epoll notifier behind it: the polling coroutine adds its timer entry,
registers its descriptor and the descriptor of its stop token, and suspends, while the event loop
takes a batch of events from epoll and ends the polls that these events belong to.  A poll is
named by its `poll_info`, which is never used for a second one.

Every call of `epoll_ctl` is one step: the two descriptors of `watch(poll_info&)` are added in
two steps, `next_events` takes one step for each event that it reports, and the other side may run
in between.
-/

namespace Libcoro.Scheduler.Poll

open Foundations Function

/-- `coro::poll_status`. -/
inductive PollStatus
  | read
  | write
  | timeout
  | error
  | closed
  | cancelled
  deriving DecidableEq, Repr

/-- The event bits of epoll that the notifier looks at. -/
structure EpollEvents where
  epollin : Bool := false
  epollout : Bool := false
  epollerr : Bool := false
  epollrdhup : Bool := false
  epollhup : Bool := false
  deriving DecidableEq, Repr

/-- `io_notifier_epoll::event_to_poll_status`; `none` is the exception at its end. -/
def eventToPollStatus (e : EpollEvents) : Option PollStatus :=
  if e.epollin then some .read
  else if e.epollout then some .write
  else if e.epollerr then some .error
  else if e.epollrdhup || e.epollhup then some .closed
  else none

/-- No event of a descriptor has the status of a timeout or of a cancellation. -/
lemma ne_timeout_ne_cancelled_of_event {e : EpollEvents} {st : PollStatus}
    (h : eventToPollStatus e = some st) : st ≠ .timeout ∧ st ≠ .cancelled := by
  unfold eventToPollStatus at h
  split_ifs at h <;> cases h <;> simp

/-- The fields of `poll_info`; `m_awaiting_coroutine` is set or null, and a descriptor of `-1` is
`none`. -/
structure PollInfo (φ : Type*) where
  mFd : Option φ := none
  mTimerPos : Bool := false
  mAwaitingCoroutine : Bool := false
  mPollStatus : PollStatus := .error
  mProcessed : Bool := false
  mCancelTrigger : Option φ := none
  deriving DecidableEq, Repr

/-- What `encode_udata` puts into an epoll entry of a poll. -/
structure UserData (π : Type*) where
  poll : π
  isCancelEvent : Bool
  deriving DecidableEq, Repr

/-- The descriptor under which an entry of a poll is registered. -/
def PollInfo.key {φ : Type*} (pi : PollInfo φ) (isCancelEvent : Bool) : Option φ :=
  if isCancelEvent then pi.mCancelTrigger else pi.mFd

/-- Where a polling coroutine is. -/
inductive Pc
  | idle
  | addTimer
  | watch
  | watchCancel
  | suspend
  | suspended
  | resumed
  deriving DecidableEq, Repr

/-- What `epoll_wait` reports: the timer or a descriptor with its event bits. -/
inductive Ready (φ : Type*)
  | timer
  | fd (f : φ) (events : EpollEvents)
  deriving DecidableEq, Repr

/-- An element of `m_recent_events`. -/
inductive Event (π : Type*)
  | timer
  | poll (p : π) (status : PollStatus)
  deriving DecidableEq, Repr

/-- Where the event loop is.  In `next_events` it has reported events left to collect.  It waits
for a coroutine whose poll it has ended to suspend, either in `process_event_execute` or, with the
rest of the due polls, in `process_timeout_execute`. -/
inductive LoopPc (π : Type*)
  | idle
  | collect (reported : List (Event π))
  | processing
  | timeouts (due : List π)
  | awaitEvent (p : π)
  | awaitTimeout (p : π) (due : List π)
  deriving DecidableEq, Repr

/-- The scheduler as far as polls are concerned; `queued` records the polls whose handle has ever
been put into `m_handles_to_resume`. -/
structure State (π φ : Type*) where
  pc : π → Pc
  info : π → PollInfo φ
  interest : InterestList φ (UserData π)
  mTimedEvents : List π
  mRecentEvents : List (Event π)
  loop : LoopPc π
  mHandlesToResume : List π
  queued : π → Bool

/-- The steps of the coroutines and of the event loop.  `loop due` carries the polls whose time
point is over, which matters only when the loop takes up the timer. -/
inductive Action (π φ : Type*)
  | poll (p : π) (fd : φ) (timeout : Bool) (cancelTrigger : Option φ)
  | yieldFor (p : π)
  | advance (p : π)
  | nextEvents (ready : List (Ready φ))
  | loop (due : List π)
  deriving DecidableEq, Repr

variable {π φ : Type*}

/-- The descriptors among the reported events. -/
def reportedFds (ready : List (Ready φ)) : List φ :=
  ready.filterMap fun
    | .timer => none
    | .fd f _ => some f

/-- The element of `m_recent_events` for a reported event, if epoll can report it. -/
@[simp] def State.event (s : State π φ) : Ready φ → Option (Event π)
  | .timer => some .timer
  | .fd f events =>
    (s.interest f).bind fun r =>
      if r.enabled then
        if r.data.isCancelEvent then some (.poll r.data.poll .cancelled)
        else (eventToPollStatus events).map (.poll r.data.poll)
      else none

/-- The descriptor that `next_events` unwatches when it reports an event. -/
def State.unwatchedBy (s : State π φ) : Event π → Option φ
  | .timer => none
  | .poll p .cancelled => (s.info p).mFd
  | .poll p _ => (s.info p).mCancelTrigger

/-- Nothing is polled. -/
def start : State π φ where
  pc := fun _ => .idle
  info := fun _ => {}
  interest := InterestList.empty
  mTimedEvents := []
  mRecentEvents := []
  loop := .idle
  mHandlesToResume := []
  queued := fun _ => false

variable [DecidableEq π]

/-- The coroutine of `p` goes on to `c`. -/
@[simp] def State.goto (s : State π φ) (p : π) (c : Pc) : State π φ :=
  { s with pc := update s.pc p c }

/-- Overwrites the `poll_info` of `p`. -/
@[simp] def State.setInfo (s : State π φ) (p : π) (pi : PollInfo φ) : State π φ :=
  { s with info := update s.info p pi }

/-- The handle of `p` is put into `m_handles_to_resume`. -/
@[simp] def State.enqueue (s : State π φ) (p : π) : State π φ :=
  { s with
    mHandlesToResume := s.mHandlesToResume ++ [p]
    queued := update s.queued p true }

variable [DecidableEq φ]

/-- The descriptor of `p` is unwatched and `m_processed` set, as an event and a timeout both do;
an event sets the status as well. -/
def State.finish (s : State π φ) (p : π) (status : PollStatus) : State π φ :=
  { s.setInfo p { s.info p with mProcessed := true, mPollStatus := status } with
    interest := s.interest.del (s.info p).mFd }

/-- The next step of a polling coroutine. -/
def advance (s : State π φ) (p : π) : Option (State π φ) :=
  match s.pc p with
  | .idle => none
  | .addTimer =>
    -- a yield has no descriptor and does not keep the timer position
    some { (s.setInfo p { s.info p with mTimerPos := (s.info p).mFd.isSome }).goto p
        (if (s.info p).mFd.isSome then .watch else .suspend) with
      mTimedEvents := p :: s.mTimedEvents }
  | .watch =>
    match (s.info p).mFd with
    | none => none
    | some f =>
      some { s.goto p .watchCancel with
        interest := s.interest.add f { poll := p, isCancelEvent := false } }
  | .watchCancel =>
    match (s.info p).mCancelTrigger with
    | none => some (s.goto p .suspend)
    | some f =>
      some { s.goto p .suspend with
        interest := s.interest.add f { poll := p, isCancelEvent := true } }
  | .suspend =>
    some ((s.setInfo p { s.info p with mAwaitingCoroutine := true }).goto p .suspended)
  | .suspended => none
  | .resumed => none

/-- The next step of `process_events_execute` after `epoll_wait`. -/
def advanceLoop (s : State π φ) (due : List π) : Option (State π φ) :=
  match s.loop with
  | .idle => none
  | .collect [] => some { s with loop := .processing }
  | .collect (e :: reported) =>
    some { s with
      mRecentEvents := s.mRecentEvents ++ [e]
      interest := s.interest.del (s.unwatchedBy e)
      loop := .collect reported }
  | .processing =>
    match s.mRecentEvents with
    | [] =>
      some { s with
        pc := fun p => if p ∈ s.mHandlesToResume then .resumed else s.pc p
        mHandlesToResume := []
        loop := .idle }
    | .timer :: rest =>
      if due.Nodup ∧ ∀ p ∈ due, p ∈ s.mTimedEvents then
        some { s with
          mTimedEvents := s.mTimedEvents.filter (· ∉ due)
          mRecentEvents := rest
          loop := .timeouts due }
      else none
    | .poll p status :: rest =>
      if (s.info p).mProcessed then some { s with mRecentEvents := rest }
      else
        some { s.finish p status with
          mTimedEvents :=
            if (s.info p).mTimerPos then s.mTimedEvents.erase p else s.mTimedEvents
          mRecentEvents := rest
          loop := .awaitEvent p }
  | .timeouts [] => some { s with loop := .processing }
  | .timeouts (p :: due) =>
    if (s.info p).mProcessed then some { s with loop := .timeouts due }
    else some { s.finish p (s.info p).mPollStatus with loop := .awaitTimeout p due }
  | .awaitEvent p =>
    if (s.info p).mAwaitingCoroutine then some { s.enqueue p with loop := .processing } else none
  | .awaitTimeout p due =>
    if (s.info p).mAwaitingCoroutine then
      some { (s.enqueue p).setInfo p { s.info p with mPollStatus := .timeout } with
        loop := .timeouts due }
    else none

/-- One step of the system. -/
def step (s : State π φ) : Action π φ → Option (State π φ)
  | .poll p fd timeout cancelTrigger =>
    if s.pc p = .idle then
      some ((s.setInfo p { mFd := some fd, mCancelTrigger := cancelTrigger }).goto p
        (if timeout then .addTimer else .watch))
    else none
  | .yieldFor p =>
    if s.pc p = .idle then some ((s.setInfo p {}).goto p .addTimer) else none
  | .advance p => advance s p
  | .nextEvents ready =>
    -- the data of an event is fixed when epoll reports it, whatever is unwatched afterwards
    if s.loop = .idle ∧ (reportedFds ready).Nodup ∧ ∀ r ∈ ready, (s.event r).isSome then
      some { s with
        mRecentEvents := []
        interest := (reportedFds ready).foldl InterestList.disable s.interest
        loop := .collect (ready.filterMap s.event) }
    else none
  | .loop due => advanceLoop s due

/-- What one step can do. -/
inductive Transition (s : State π φ) : Action π φ → State π φ → Prop
  | poll {p : π} {fd : φ} {timeout : Bool} {cancelTrigger : Option φ} : s.pc p = .idle →
      Transition s (.poll p fd timeout cancelTrigger)
        ((s.setInfo p { mFd := some fd, mCancelTrigger := cancelTrigger }).goto p
          (if timeout then .addTimer else .watch))
  | yieldFor {p : π} : s.pc p = .idle →
      Transition s (.yieldFor p) ((s.setInfo p {}).goto p .addTimer)
  | addTimer {p : π} : s.pc p = .addTimer →
      Transition s (.advance p)
        { (s.setInfo p { s.info p with mTimerPos := (s.info p).mFd.isSome }).goto p
            (if (s.info p).mFd.isSome then .watch else .suspend) with
          mTimedEvents := p :: s.mTimedEvents }
  | watch {p : π} {f : φ} : s.pc p = .watch → (s.info p).mFd = some f →
      Transition s (.advance p)
        { s.goto p .watchCancel with interest := s.interest.add f ⟨p, false⟩ }
  | noToken {p : π} : s.pc p = .watchCancel → (s.info p).mCancelTrigger = none →
      Transition s (.advance p) (s.goto p .suspend)
  | watchCancel {p : π} {f : φ} : s.pc p = .watchCancel → (s.info p).mCancelTrigger = some f →
      Transition s (.advance p)
        { s.goto p .suspend with interest := s.interest.add f ⟨p, true⟩ }
  | suspend {p : π} : s.pc p = .suspend →
      Transition s (.advance p)
        ((s.setInfo p { s.info p with mAwaitingCoroutine := true }).goto p .suspended)
  | nextEvents {ready : List (Ready φ)} : s.loop = .idle → (reportedFds ready).Nodup →
      (∀ r ∈ ready, (s.event r).isSome) →
      Transition s (.nextEvents ready)
        { s with
          mRecentEvents := []
          interest := (reportedFds ready).foldl InterestList.disable s.interest
          loop := .collect (ready.filterMap s.event) }
  | collect {due : List π} {e : Event π} {reported : List (Event π)} :
      s.loop = .collect (e :: reported) →
      Transition s (.loop due)
        { s with
          mRecentEvents := s.mRecentEvents ++ [e]
          interest := s.interest.del (s.unwatchedBy e)
          loop := .collect reported }
  | collected {due : List π} : s.loop = .collect [] →
      Transition s (.loop due) { s with loop := .processing }
  | resumeAll {due : List π} : s.loop = .processing → s.mRecentEvents = [] →
      Transition s (.loop due)
        { s with
          pc := fun p => if p ∈ s.mHandlesToResume then .resumed else s.pc p
          mRecentEvents := []
          mHandlesToResume := []
          loop := .idle }
  | timer {due : List π} {rest : List (Event π)} : s.loop = .processing →
      s.mRecentEvents = .timer :: rest → due.Nodup → (∀ p ∈ due, p ∈ s.mTimedEvents) →
      Transition s (.loop due)
        { s with
          mTimedEvents := s.mTimedEvents.filter (· ∉ due)
          mRecentEvents := rest
          loop := .timeouts due }
  | discardEvent {due : List π} {p : π} {st : PollStatus} {rest : List (Event π)} :
      s.loop = .processing → s.mRecentEvents = .poll p st :: rest →
      (s.info p).mProcessed = true →
      Transition s (.loop due) { s with mRecentEvents := rest, loop := .processing }
  | endByEvent {due : List π} {p : π} {st : PollStatus} {rest : List (Event π)} :
      s.loop = .processing → s.mRecentEvents = .poll p st :: rest →
      (s.info p).mProcessed = false →
      Transition s (.loop due)
        { s.finish p st with
          mTimedEvents :=
            if (s.info p).mTimerPos then s.mTimedEvents.erase p else s.mTimedEvents
          mRecentEvents := rest
          loop := .awaitEvent p }
  | timeoutsDone {due : List π} : s.loop = .timeouts [] →
      Transition s (.loop due) { s with loop := .processing }
  | discardTimeout {due rest : List π} {p : π} : s.loop = .timeouts (p :: rest) →
      (s.info p).mProcessed = true →
      Transition s (.loop due) { s with loop := .timeouts rest }
  | endByTimeout {due rest : List π} {p : π} : s.loop = .timeouts (p :: rest) →
      (s.info p).mProcessed = false →
      Transition s (.loop due)
        { s.finish p (s.info p).mPollStatus with loop := .awaitTimeout p rest }
  | queueEvent {due : List π} {p : π} : s.loop = .awaitEvent p →
      (s.info p).mAwaitingCoroutine = true →
      Transition s (.loop due) { s.enqueue p with loop := .processing }
  | queueTimeout {due rest : List π} {p : π} : s.loop = .awaitTimeout p rest →
      (s.info p).mAwaitingCoroutine = true →
      Transition s (.loop due)
        { (s.enqueue p).setInfo p { s.info p with mPollStatus := .timeout } with
          loop := .timeouts rest }

variable {s s' : State π φ}

lemma advance_transition {p : π} (h : advance s p = some s') :
    Transition s (.advance p) s' := by
  unfold advance at h
  split at h <;> rename_i hc
  · cases h
  · cases h
    exact .addTimer hc
  · split at h <;> rename_i hf
    · cases h
    · cases h
      exact .watch hc hf
  · split at h <;> rename_i hf
    · cases h
      exact .noToken hc hf
    · cases h
      exact .watchCancel hc hf
  · cases h
    exact .suspend hc
  all_goals cases h

lemma process_transition {due : List π} (hl : s.loop = .processing)
    (h : advanceLoop s due = some s') : Transition s (.loop due) s' := by
  simp only [advanceLoop, hl] at h
  split at h <;> rename_i he
  · cases h
    exact he ▸ .resumeAll hl he
  · obtain ⟨⟨hnodup, hdue⟩, ⟨⟩⟩ := Option.ite_none_right_eq_some.mp h
    exact .timer hl he hnodup hdue
  · next p st rest =>
    by_cases hp : (s.info p).mProcessed
    · rw [if_pos hp] at h
      cases h
      simpa only [hl] using Transition.discardEvent hl he hp
    · rw [if_neg hp] at h
      cases h
      exact .endByEvent hl he (by simpa using hp)

lemma advanceLoop_transition {due : List π}
    (h : advanceLoop s due = some s') : Transition s (.loop due) s' := by
  cases hl : s.loop with
  | idle => simp [advanceLoop, hl] at h
  | collect reported =>
    simp only [advanceLoop, hl] at h
    cases reported <;> cases h
    · exact .collected hl
    · exact .collect hl
  | processing => exact process_transition hl h
  | timeouts rest =>
    simp only [advanceLoop, hl] at h
    cases rest with
    | nil =>
      cases h
      exact .timeoutsDone hl
    | cons p rest =>
      simp only at h
      split_ifs at h with hp
      · cases h
        exact .discardTimeout hl hp
      · cases h
        exact .endByTimeout hl (by simpa using hp)
  | awaitEvent p =>
    simp only [advanceLoop, hl, Option.ite_none_right_eq_some, Option.some.injEq] at h
    exact h.2 ▸ .queueEvent hl h.1
  | awaitTimeout p rest =>
    simp only [advanceLoop, hl, Option.ite_none_right_eq_some, Option.some.injEq] at h
    exact h.2 ▸ .queueTimeout hl h.1

/-- Every step is one of the transitions. -/
lemma step_transition {a : Action π φ} (h : step s a = some s') :
    Transition s a s' := by
  cases a with
  | poll p fd timeout cancelTrigger =>
    obtain ⟨hc, ⟨⟩⟩ := Option.ite_none_right_eq_some.mp h
    exact .poll hc
  | yieldFor p =>
    obtain ⟨hc, ⟨⟩⟩ := Option.ite_none_right_eq_some.mp h
    exact .yieldFor hc
  | advance p => exact advance_transition h
  | nextEvents ready =>
    obtain ⟨⟨hl, hnodup, hsome⟩, ⟨⟩⟩ := Option.ite_none_right_eq_some.mp h
    exact .nextEvents hl hnodup hsome
  | loop due => exact advanceLoop_transition h

/-- The polls of a scheduler and its event loop. -/
def machine (π φ : Type*) [DecidableEq π] [DecidableEq φ] :
    Machine (State π φ) (Action π φ) where
  start := start
  step := step

end Libcoro.Scheduler.Poll
