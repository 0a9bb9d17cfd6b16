import Libcoro.Foundations.Machine
import Libcoro.Foundations.LinkedStack

/-!
# `coro::scheduler::schedule` with inline processing

An awaited `schedule()`, or a `resume` of a handle, pushes a `schedule_operation` onto the list
`m_scheduled_ops`.  A thread that then finds `m_schedule_pipe_triggered` unset sets it and writes to
the schedule pipe.  The event loop, told by the pipe, drains it, clears the flag, detaches the whole
list, reverses it and appends the handles to `m_handles_to_resume`, which it resumes when it is
through with its events.

Every load, exchange and compare-exchange of the list and of the flag, every read and write of an
`m_next` and every read and write of the pipe is a step of its own; a weak compare-exchange may fail
without a reason.  The pipe is registered edge triggered: a write to an empty pipe is signalled, and
a write to one that is not empty may be.

An operation lies in the frame of a coroutine or has been allocated for one handle, so that its
address can come again once its handle is in `m_handles_to_resume`, also while the thread that has
pushed it is on its way to the flag.
-/

namespace Libcoro.Scheduler.Schedule

open Foundations Function

/-- Where a thread is in `await_suspend`. -/
inductive Pc (κ : Type*) where
  | idle
  | pushLoad (op : κ)
  | pushLink (op : κ) (current : Option κ)
  | pushExchange (op : κ) (current : Option κ)
  | trigger
  | write
  deriving DecidableEq, Repr

/-- Where the event loop is: in `next_events`, among the events it has got, in
`process_scheduled_execute_inline`, or resuming what has been collected.  `events schedule` says
whether the event of the schedule pipe is one of those that it has yet to process. -/
inductive LoopPc (κ η : Type*) where
  | wait
  | events (schedule : Bool)
  | drain
  | clear
  | popLoad
  | popExchange (head : κ)
  | reverseTest (curr : κ)
  | reverseNext (curr prev : Option κ)
  | reverseLink (curr : κ) (prev next : Option κ)
  | collect (ops : Option κ)
  | append (op : κ) (next : Option κ)
  | resume (rest : List (Option η))
  deriving DecidableEq, Repr

/-- The list, the flag and the pipe, the threads `τ` and the event loop.  The operations are `κ`
and the coroutine handles `η`. -/
structure State (τ κ η : Type*) where
  mScheduledOps : Option κ
  mNext : κ → Option κ
  mAwaitingCoroutine : κ → η
  mSchedulePipeTriggered : Bool
  -- How many integers are in the schedule pipe, and whether it will be reported as readable.
  mSchedulePipe : ℕ
  signalled : Bool
  -- `none` stands for the handle of a poll or of a timer.
  mHandlesToResume : List (Option η)
  thread : τ → Pc κ
  loop : LoopPc κ η
  -- Whether an operation is being pushed, on the list, or detached from it.
  used : κ → Bool
  -- History, read by no step: the operations on the list, the first one pushed first; those that
  -- the loop has detached and not appended, in the order in which it will; and the handles that
  -- have been pushed and resumed.
  listed : List κ
  detached : List κ
  pushed : List η
  resumed : List η

/-- A thread begins to schedule a handle with an operation, or takes its next step, where
`signalled` says whether a write to a pipe that is not empty is signalled; `next_events` returns,
with or without the event of the schedule pipe; another event is processed; the loop takes its next
step; or a weak compare-exchange fails without a reason. -/
inductive Action (τ κ η : Type*) where
  | schedule (th : τ) (op : κ) (h : η)
  | advance (th : τ) (signalled : Bool)
  | spurious (th : τ)
  | nextEvents (schedule : Bool)
  | otherEvent
  | loop
  | loopSpurious
  deriving DecidableEq, Repr

variable {τ κ η : Type*} [DecidableEq τ] [DecidableEq κ]

/-- Moves the control point of a thread. -/
def State.goto (s : State τ κ η) (th : τ) (p : Pc κ) : State τ κ η :=
  { s with thread := update s.thread th p }

/-- `await_suspend` is called for the operation `op`. -/
def schedule (s : State τ κ η) (th : τ) (op : κ) (h : η) : State τ κ η :=
  { s.goto th (.pushLoad op) with
    mAwaitingCoroutine := update s.mAwaitingCoroutine op h
    used := update s.used op true }

/-- The operation `op` is the new head of the list. -/
def push (s : State τ κ η) (th : τ) (op : κ) : State τ κ η :=
  { s.goto th .trigger with
    mScheduledOps := some op
    listed := s.listed ++ [op]
    pushed := s.pushed ++ [s.mAwaitingCoroutine op] }

/-- The next step of a thread in `await_suspend`. -/
def advance (s : State τ κ η) (th : τ) (signalled : Bool) : Option (State τ κ η) :=
  match s.thread th with
  | .pushLoad op => some (s.goto th (.pushLink op s.mScheduledOps))
  | .pushLink op current =>
    some { s.goto th (.pushExchange op current) with
      mNext := update s.mNext op current }
  | .pushExchange op current =>
    if s.mScheduledOps = current then some (push s th op)
    else some (s.goto th (.pushLink op s.mScheduledOps))
  | .trigger =>
    if s.mSchedulePipeTriggered then some (s.goto th .idle)
    else some { s.goto th .write with mSchedulePipeTriggered := true }
  | .write =>
    some { s.goto th .idle with
      mSchedulePipe := s.mSchedulePipe + 1
      signalled := s.signalled || s.mSchedulePipe == 0 || signalled }
  | .idle => none

/-- The test of the loop in `awaiter_list_pop_all`, and the return from it with null. -/
def popTest (s : State τ κ η) : State τ κ η :=
  match s.mScheduledOps with
  | none => { s with loop := .events false }
  | some head => { s with loop := .popExchange head }

/-- The exchange of `awaiter_list_pop_all`. -/
def detach (s : State τ κ η) (head : κ) : State τ κ η :=
  { s with
    mScheduledOps := none
    loop := .reverseTest head
    listed := []
    detached := s.listed }

/-- The handle of `op` is appended to `m_handles_to_resume`, and `op` is deleted if it was
allocated. -/
def append (s : State τ κ η) (op : κ) (next : Option κ) : State τ κ η :=
  { s with
    mHandlesToResume := s.mHandlesToResume ++ [some (s.mAwaitingCoroutine op)]
    loop := .collect next
    used := update s.used op false
    detached := s.detached.tail }

/-- The next step of the event loop.  A read of the pipe takes four integers, if there are. -/
def loop (s : State τ κ η) : Option (State τ κ η) :=
  match s.loop with
  | .wait => none
  | .events true => some { s with loop := .drain }
  | .events false => some { s with loop := .resume s.mHandlesToResume }
  | .drain =>
    some { s with
      mSchedulePipe := s.mSchedulePipe - 4
      loop := if 4 ≤ s.mSchedulePipe then .drain else .clear }
  | .clear => some { s with mSchedulePipeTriggered := false, loop := .popLoad }
  | .popLoad => some (popTest s)
  | .popExchange head =>
    if s.mScheduledOps = some head then some (detach s head) else some (popTest s)
  | .reverseTest x =>
    if s.mNext x = none then some { s with loop := .collect (some x) }
    else some { s with loop := .reverseNext (some x) none }
  | .reverseNext none prev => some { s with loop := .collect prev }
  | .reverseNext (some x) prev => some { s with loop := .reverseLink x prev (s.mNext x) }
  | .reverseLink x prev next =>
    some { s with
      mNext := update s.mNext x prev
      loop := .reverseNext next (some x) }
  | .collect none => some { s with loop := .events false }
  | .collect (some op) => some { s with loop := .append op (s.mNext op) }
  | .append op next => some (append s op next)
  | .resume [] => some { s with mHandlesToResume := [], loop := .wait }
  | .resume (h :: rest) =>
    some { s with loop := .resume rest, resumed := s.resumed ++ h.toList }

/-- One step of the system. -/
def step (s : State τ κ η) : Action τ κ η → Option (State τ κ η)
  | .schedule th op h =>
    if s.thread th = .idle ∧ s.used op = false then some (schedule s th op h) else none
  | .advance th signalled => advance s th signalled
  | .spurious th =>
    match s.thread th with
    | .pushExchange op _ => some (s.goto th (.pushLink op s.mScheduledOps))
    | _ => none
  | .nextEvents schedule =>
    match s.loop with
    | .wait =>
      if schedule = true ∧ s.signalled = false then none
      else some { s with loop := .events schedule, signalled := s.signalled && !schedule }
    | _ => none
  | .otherEvent =>
    match s.loop with
    | .events _ => some { s with mHandlesToResume := s.mHandlesToResume ++ [none] }
    | _ => none
  | .loop => loop s
  | .loopSpurious =>
    match s.loop with
    | .popExchange _ => some (popTest s)
    | _ => none

/-- Nothing has been scheduled.  What an operation holds at first is never read. -/
def start [Inhabited η] : State τ κ η where
  mScheduledOps := none
  mNext _ := none
  mAwaitingCoroutine _ := default
  mSchedulePipeTriggered := false
  mSchedulePipe := 0
  signalled := false
  mHandlesToResume := []
  thread _ := .idle
  loop := .wait
  used _ := false
  listed := []
  detached := []
  pushed := []
  resumed := []

/-- The inline scheduler as a machine. -/
def machine (τ κ η : Type*) [DecidableEq τ] [DecidableEq κ] [Inhabited η] :
    Machine (State τ κ η) (Action τ κ η) where
  start := start
  step := step

/-! ## The transitions -/

/-- The moves of a thread that change nothing but its control point. -/
inductive Quiet (s : State τ κ η) : Pc κ → Pc κ → Prop
  | load {op : κ} : Quiet s (.pushLoad op) (.pushLink op s.mScheduledOps)
  | reload {op : κ} {current : Option κ} :
      Quiet s (.pushExchange op current) (.pushLink op s.mScheduledOps)
  | triggered : s.mSchedulePipeTriggered = true → Quiet s .trigger .idle

/-- The moves of the event loop that change nothing but its control point. -/
inductive LoopQuiet (s : State τ κ η) : LoopPc κ η → LoopPc κ η → Prop
  | scheduleEvent : LoopQuiet s (.events true) .drain
  | lastEvent : LoopQuiet s (.events false) (.resume s.mHandlesToResume)
  | loadEmpty : s.mScheduledOps = none → LoopQuiet s .popLoad (.events false)
  | load {h : κ} : s.mScheduledOps = some h → LoopQuiet s .popLoad (.popExchange h)
  | reloadEmpty {h : κ} : s.mScheduledOps = none → LoopQuiet s (.popExchange h) (.events false)
  | reload {h h' : κ} : s.mScheduledOps = some h' → LoopQuiet s (.popExchange h) (.popExchange h')
  | reverseShort {x : κ} : s.mNext x = none → LoopQuiet s (.reverseTest x) (.collect (some x))
  | reverseLong {x : κ} : LoopQuiet s (.reverseTest x) (.reverseNext (some x) none)
  | reverseNext {x : κ} {prev : Option κ} :
      LoopQuiet s (.reverseNext (some x) prev) (.reverseLink x prev (s.mNext x))
  | reverseDone {prev : Option κ} : LoopQuiet s (.reverseNext none prev) (.collect prev)
  | collectNext {op : κ} : LoopQuiet s (.collect (some op)) (.append op (s.mNext op))
  | collectDone : LoopQuiet s (.collect none) (.events false)

/-- What a step can do. -/
inductive Transition (s : State τ κ η) : State τ κ η → Prop
  | quiet {th : τ} {p : Pc κ} : Quiet s (s.thread th) p → Transition s (s.goto th p)
  | schedule {th : τ} {op : κ} {h : η} : s.thread th = .idle → s.used op = false →
      Transition s (schedule s th op h)
  | link {th : τ} {op : κ} {current : Option κ} : s.thread th = .pushLink op current →
      Transition s { s.goto th (.pushExchange op current) with
        mNext := update s.mNext op current }
  | push {th : τ} {op : κ} : s.thread th = .pushExchange op s.mScheduledOps →
      Transition s (push s th op)
  | trigger {th : τ} : s.thread th = .trigger → s.mSchedulePipeTriggered = false →
      Transition s { s.goto th .write with mSchedulePipeTriggered := true }
  | write {th : τ} {b : Bool} : s.thread th = .write →
      Transition s { s.goto th .idle with
        mSchedulePipe := s.mSchedulePipe + 1
        signalled := s.signalled || s.mSchedulePipe == 0 || b }
  | nextEvents {b : Bool} : s.loop = .wait → (b = true → s.signalled = true) →
      Transition s { s with loop := .events b, signalled := s.signalled && !b }
  | otherEvent {b : Bool} : s.loop = .events b →
      Transition s { s with mHandlesToResume := s.mHandlesToResume ++ [none] }
  | loop {p : LoopPc κ η} : LoopQuiet s s.loop p → Transition s { s with loop := p }
  | drain : s.loop = .drain →
      Transition s { s with
        mSchedulePipe := s.mSchedulePipe - 4
        loop := if 4 ≤ s.mSchedulePipe then .drain else .clear }
  | clear : s.loop = .clear →
      Transition s { s with mSchedulePipeTriggered := false, loop := .popLoad }
  | detach {h : κ} : s.loop = .popExchange h → s.mScheduledOps = some h →
      Transition s (detach s h)
  | relink {x : κ} {prev next : Option κ} : s.loop = .reverseLink x prev next →
      Transition s { s with
        mNext := update s.mNext x prev
        loop := .reverseNext next (some x) }
  | append {op : κ} {next : Option κ} : s.loop = .append op next → Transition s (append s op next)
  | finish : s.loop = .resume [] → Transition s { s with mHandlesToResume := [], loop := .wait }
  | resume {h : Option η} {rest : List (Option η)} : s.loop = .resume (h :: rest) →
      Transition s { s with loop := .resume rest, resumed := s.resumed ++ h.toList }

variable {s t : State τ κ η}

/-- Every step of a thread is one of the listed transitions. -/
lemma advance_transition {th : τ} {b : Bool} (h : advance s th b = some t) : Transition s t := by
  unfold advance at h
  split at h <;> rename_i hth
  · cases h
    exact .quiet (hth ▸ .load)
  · cases h
    exact .link hth
  · split_ifs at h with hsame
    · cases h
      subst hsame
      exact .push hth
    · cases h
      exact .quiet (hth ▸ .reload)
  · split_ifs at h with hset
    · cases h
      exact .quiet (hth ▸ .triggered hset)
    · cases h
      exact .trigger hth (by simpa using hset)
  · cases h
    exact .write hth
  · simp at h

/-- The test of `awaiter_list_pop_all` is a quiet move. -/
lemma popTest_transition (hempty : s.mScheduledOps = none → LoopQuiet s s.loop (.events false))
    (hhead : ∀ h, s.mScheduledOps = some h → LoopQuiet s s.loop (.popExchange h)) :
    Transition s (popTest s) := by
  unfold popTest
  split <;> rename_i hops
  · exact .loop (hempty hops)
  · exact .loop (hhead _ hops)

/-- Every step of the event loop is one of the listed transitions. -/
lemma loop_transition (h : loop s = some t) : Transition s t := by
  unfold loop at h
  split at h <;> rename_i hl
  · simp at h
  · cases h
    exact .loop (hl ▸ .scheduleEvent)
  · cases h
    exact .loop (hl ▸ .lastEvent)
  · cases h
    exact .drain hl
  · cases h
    exact .clear hl
  · cases h
    exact popTest_transition (fun hops => hl ▸ .loadEmpty hops) fun _ hops => hl ▸ .load hops
  · split_ifs at h with hsame
    · cases h
      exact .detach hl hsame
    · cases h
      exact popTest_transition (fun hops => hl ▸ .reloadEmpty hops) fun _ hops => hl ▸ .reload hops
  · split_ifs at h with hshort
    · cases h
      exact .loop (hl ▸ .reverseShort hshort)
    · cases h
      exact .loop (hl ▸ .reverseLong)
  · cases h
    exact .loop (hl ▸ .reverseDone)
  · cases h
    exact .loop (hl ▸ .reverseNext)
  · cases h
    exact .relink hl
  · cases h
    exact .loop (hl ▸ .collectDone)
  · cases h
    exact .loop (hl ▸ .collectNext)
  · cases h
    exact .append hl
  · cases h
    exact .finish hl
  · cases h
    exact .resume hl

/-- Every step of the system is one of the listed transitions. -/
lemma step_transition {a : Action τ κ η} (h : step s a = some t) : Transition s t := by
  cases a with
  | schedule th op h' =>
    obtain ⟨⟨hth, hop⟩, rfl⟩ := by simpa [step] using h
    exact .schedule hth hop
  | advance th b => exact advance_transition h
  | spurious th =>
    simp only [step] at h
    split at h <;> rename_i hth
    · cases h
      exact .quiet (hth ▸ .reload)
    · simp at h
  | nextEvents b =>
    simp only [step] at h
    split at h <;> rename_i hl
    · split_ifs at h with hb
      cases h
      exact .nextEvents hl (by simpa using hb)
    · simp at h
  | otherEvent =>
    simp only [step] at h
    split at h <;> rename_i hl
    · cases h
      exact .otherEvent hl
    · simp at h
  | loop => exact loop_transition h
  | loopSpurious =>
    simp only [step] at h
    split at h <;> rename_i hl
    · cases h
      exact popTest_transition (fun hops => hl ▸ .reloadEmpty hops) fun _ hops => hl ▸ .reload hops
    · simp at h

end Libcoro.Scheduler.Schedule
