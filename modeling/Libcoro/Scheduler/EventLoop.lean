import Libcoro.ThreadPool.Accounting

/-!
# The scheduler and its event loop

`coro::scheduler` with its counter `m_size`, its thread pool and its dedicated event loop, for both
execution strategies.  As in the pool, every call that hands a coroutine to the scheduler has a
name of its own: a call of `resume` or `spawn_detached`, an awaited `schedule()`, and a wait in
`yield_for`, `yield_until` or `poll`.  The pool keeps the name of what the scheduler passes on.

A load, an increment or a decrement of an atomic is one step.  The two loads of `size()` are two
steps, whose order the language leaves open, so the loop chooses it each time.  What makes a wait
end is not modelled here: the loop may collect any coroutine that is suspended in one.
-/

namespace Libcoro.Scheduler.EventLoop

open Foundations Function

/-- `scheduler::execution_strategy_t`. -/
inductive ExecutionStrategy
  | processTasksOnThreadPool
  | processTasksInline
  deriving DecidableEq, Repr

/-- The two counters that `scheduler::size` adds. -/
inductive Counter
  | scheduler
  | pool
  deriving DecidableEq, Repr

/-- Where a call is. -/
inductive Pc
  | idle
  -- `resume(handle)`, before it looks at `m_shutdown_requested`
  | resume
  -- `schedule_operation::await_suspend`, before and after its increment
  | await
  | push
  -- in `m_scheduled_ops`
  | scheduled
  -- a wait that has been counted, and one that is suspended in a timer or poll
  | register
  | waiting
  -- in `m_handles_to_resume`, and resumed by the loop itself
  | collected
  | resumed
  -- handed over to the pool and counted there only
  | inPool
  | done
  | rejected
  deriving DecidableEq, Repr

/-- Where the event loop is. -/
inductive LoopPc (κ : Type*)
  -- the condition of `process_events_dedicated_thread`
  | test
  | size
  | second (first : Counter) (value : ℕ)
  -- `process_events_execute`: collecting, resuming inline or by the pool, and the decrement
  | events
  | resume (handles : List κ)
  | rangeLock (r : κ)
  | rangeUndo (r : κ)
  | sub
  | left
  deriving DecidableEq, Repr

/-- The scheduler; `charge`, `spawned` and `finished` are kept as in the pool. -/
structure State (κ ω : Type*) where
  pool : ThreadPool.State κ ω
  mShutdownRequested : Bool
  mSize : ℕ
  pc : κ → Pc
  mScheduledOps : List κ
  mHandlesToResume : List κ
  loop : LoopPc κ
  charge : κ → ℕ
  spawned : κ → Bool
  finished : κ → Bool

/-- The steps.  `loop first` names the counter that `size()` loads first, which matters only
there; the pool moves on its own by a call in progress or by a worker. -/
inductive Action (κ ω : Type*)
  | spawnDetached (k : κ)
  | resume (k : κ) (h : ThreadPool.Handle)
  | schedule (k : κ)
  | wait (k : κ)
  | advance (k : κ)
  | loop (first : Counter)
  | collect (ks : List κ)
  | collectScheduled
  | poolAdvance (k : κ)
  | poolWorker (w : ω)
  | finalSuspend (k : κ)
  | shutdown
  | poolShutdown
  deriving DecidableEq, Repr

variable {κ ω : Type*}

/-- The scheduler after `make_unique`. -/
def start : State κ ω where
  pool := ThreadPool.start
  mShutdownRequested := false
  mSize := 0
  pc := fun _ => .idle
  mScheduledOps := []
  mHandlesToResume := []
  loop := .test
  charge := fun _ => 0
  spawned := fun _ => false
  finished := fun _ => false

/-- The value of one of the two counters. -/
def State.counter (s : State κ ω) : Counter → ℕ
  | .scheduler => s.mSize
  | .pool => s.pool.mSize

/-- The counter that `size()` loads after the other one. -/
def Counter.other : Counter → Counter
  | .scheduler => .pool
  | .pool => .scheduler

/-- `scheduler::size` if nobody moves while it runs. -/
def State.size (s : State κ ω) : ExecutionStrategy → ℕ
  | .processTasksInline => s.mSize
  | .processTasksOnThreadPool => s.mSize + s.pool.mSize

/-- The coroutine of a call has been resumed, by the loop or by a worker. -/
def State.begun (s : State κ ω) (k : κ) : Bool :=
  match s.pc k with
  | .resumed | .done => true
  | _ => (s.pool.pc k).Begun

variable [DecidableEq κ]

/-- `m_size.fetch_add(1)`. -/
def State.fetchAdd (s : State κ ω) (k : κ) : State κ ω :=
  { s with mSize := s.mSize + 1, charge := credit [k] s.charge }

/-- `m_size.fetch_sub`, once for every call on the list. -/
def State.fetchSub (s : State κ ω) (ks : List κ) : State κ ω :=
  { s with mSize := s.mSize - ks.length, charge := debit ks s.charge }

/-- The call `k` goes on to `c`. -/
@[simp] def State.goto (s : State κ ω) (k : κ) (c : Pc) : State κ ω :=
  { s with pc := update s.pc k c }

/-- All calls on the list go on to `c`. -/
@[simp] def State.gotoAll (s : State κ ω) (ks : List κ) (c : Pc) : State κ ω :=
  { s with pc := fun k => if k ∈ ks then c else s.pc k }

variable [DecidableEq ω]

/-- The pool takes a step. -/
def State.poolStep (s : State κ ω) (a : ThreadPool.Action κ ω) : Option (State κ ω) :=
  (ThreadPool.step s.pool a).map fun p => { s with pool := p }

variable (strategy : ExecutionStrategy)

/-- The next step of a call in progress. -/
def advance (s : State κ ω) (k : κ) : Option (State κ ω) :=
  match s.pc k with
  | .resume => some (s.goto k (if s.mShutdownRequested then .rejected else .await))
  | .await =>
    match strategy with
    | .processTasksInline => some ((s.fetchAdd k).goto k .push)
    | .processTasksOnThreadPool => (s.goto k .inPool).poolStep (.resume k .ready)
  | .push => some { s.goto k .scheduled with mScheduledOps := k :: s.mScheduledOps }
  | .register => some (s.goto k .waiting)
  | _ => none

/-- The next step of the event loop, except for collecting. -/
def advanceLoop (s : State κ ω) (first : Counter) : Option (State κ ω) :=
  match s.loop with
  | .test => some { s with loop := if s.mShutdownRequested then .size else .events }
  | .size =>
    match strategy with
    | .processTasksInline => some { s with loop := if 0 < s.mSize then .events else .left }
    | .processTasksOnThreadPool => some { s with loop := .second first (s.counter first) }
  | .second c value =>
    some { s with loop := if 0 < value + s.counter c.other then .events else .left }
  | .events =>
    match s.mHandlesToResume with
    | [] => some { s with loop := .test }
    | r :: _ =>
      match strategy with
      | .processTasksInline => some { s with loop := .resume s.mHandlesToResume }
      | .processTasksOnThreadPool =>
        State.poolStep { s with loop := .rangeLock r }
          (.resumeRange r (s.mHandlesToResume.map fun k => (k, true)))
  | .resume [] => some { s with loop := .sub }
  | .resume (k :: ks) => some { s.goto k .resumed with loop := .resume ks }
  | .rangeLock r => State.poolStep { s with loop := .rangeUndo r } (.advanceRange r)
  | .rangeUndo r => State.poolStep { s with loop := .sub } (.advanceRange r)
  | .sub =>
    some { (s.fetchSub s.mHandlesToResume).gotoAll s.mHandlesToResume
        (match strategy with
          | .processTasksInline => .done
          | .processTasksOnThreadPool => .inPool) with
      mHandlesToResume := []
      loop := .test }
  | .left => none

/-- One step of the scheduler. -/
def step (s : State κ ω) : Action κ ω → Option (State κ ω)
  | .spawnDetached k =>
    if s.pc k = .idle then
      some { (s.fetchAdd k).goto k .resume with spawned := update s.spawned k true }
    else none
  | .resume k h =>
    if s.pc k = .idle then some (s.goto k (if h = .ready then .resume else .rejected)) else none
  | .schedule k => if s.pc k = .idle then some (s.goto k .await) else none
  | .wait k => if s.pc k = .idle then some ((s.fetchAdd k).goto k .register) else none
  | .advance k => advance strategy s k
  | .loop first => advanceLoop strategy s first
  | .collect ks =>
    -- `process_event_execute` and `process_timeout_execute`
    if s.loop = .events ∧ ks.Nodup ∧ ∀ k ∈ ks, s.pc k = .waiting then
      some { s.gotoAll ks .collected with mHandlesToResume := s.mHandlesToResume ++ ks }
    else none
  | .collectScheduled =>
    -- `process_scheduled_execute_inline` takes the oldest operation first
    if s.loop = .events then
      some { s.gotoAll s.mScheduledOps .collected with
        mHandlesToResume := s.mHandlesToResume ++ s.mScheduledOps.reverse
        mScheduledOps := [] }
    else none
  | .poolAdvance k => s.poolStep (.advance k)
  | .poolWorker w => s.poolStep (.worker w)
  | .finalSuspend k =>
    if s.spawned k = true ∧ s.finished k = false ∧ s.begun k = true then
      some { s.fetchSub [k] with finished := update s.finished k true }
    else none
  | .shutdown => some { s with mShutdownRequested := true }
  | .poolShutdown => if s.mShutdownRequested then s.poolStep .shutdown else none

/-- What one step can do. -/
inductive Transition (s : State κ ω) : Action κ ω → State κ ω → Prop
  | spawnDetached {k : κ} : s.pc k = .idle →
      Transition s (.spawnDetached k)
        { (s.fetchAdd k).goto k .resume with spawned := update s.spawned k true }
  | resume {k : κ} {h : ThreadPool.Handle} : s.pc k = .idle →
      Transition s (.resume k h) (s.goto k (if h = .ready then .resume else .rejected))
  | schedule {k : κ} : s.pc k = .idle → Transition s (.schedule k) (s.goto k .await)
  | wait {k : κ} : s.pc k = .idle →
      Transition s (.wait k) ((s.fetchAdd k).goto k .register)
  | resumeAccept {k : κ} : s.pc k = .resume → s.mShutdownRequested = false →
      Transition s (.advance k) (s.goto k .await)
  | resumeReject {k : κ} : s.pc k = .resume → s.mShutdownRequested = true →
      Transition s (.advance k) (s.goto k .rejected)
  | awaitInline {k : κ} : strategy = .processTasksInline → s.pc k = .await →
      Transition s (.advance k) ((s.fetchAdd k).goto k .push)
  | awaitPool {k : κ} {p : ThreadPool.State κ ω} : strategy = .processTasksOnThreadPool →
      s.pc k = .await → ThreadPool.step s.pool (.resume k .ready) = some p →
      Transition s (.advance k) { s.goto k .inPool with pool := p }
  | push {k : κ} : s.pc k = .push →
      Transition s (.advance k)
        { s.goto k .scheduled with mScheduledOps := k :: s.mScheduledOps }
  | register {k : κ} : s.pc k = .register → Transition s (.advance k) (s.goto k .waiting)
  | test {first : Counter} : s.loop = .test →
      Transition s (.loop first)
        { s with loop := if s.mShutdownRequested then .size else .events }
  | sizeInline {first : Counter} : strategy = .processTasksInline → s.loop = .size →
      Transition s (.loop first) { s with loop := if 0 < s.mSize then .events else .left }
  | sizeFirst {first : Counter} : strategy = .processTasksOnThreadPool → s.loop = .size →
      Transition s (.loop first) { s with loop := .second first (s.counter first) }
  | sizeSecond {first c : Counter} {value : ℕ} : s.loop = .second c value →
      Transition s (.loop first)
        { s with loop := if 0 < value + s.counter c.other then .events else .left }
  | noHandles {first : Counter} : s.loop = .events → s.mHandlesToResume = [] →
      Transition s (.loop first) { s with loop := .test }
  | beginResume {first : Counter} : strategy = .processTasksInline → s.loop = .events →
      s.mHandlesToResume ≠ [] →
      Transition s (.loop first) { s with loop := .resume s.mHandlesToResume }
  | resumeHandle {first : Counter} {k : κ} {ks : List κ} : s.loop = .resume (k :: ks) →
      Transition s (.loop first) { s.goto k .resumed with loop := .resume ks }
  | resumeDone {first : Counter} : s.loop = .resume [] →
      Transition s (.loop first) { s with loop := .sub }
  | beginRange {first : Counter} {r : κ} {p : ThreadPool.State κ ω} :
      strategy = .processTasksOnThreadPool → s.loop = .events →
      s.mHandlesToResume.head? = some r →
      ThreadPool.step s.pool (.resumeRange r (s.mHandlesToResume.map fun k => (k, true))) =
        some p →
      Transition s (.loop first) { s with loop := .rangeLock r, pool := p }
  | lockRange {first : Counter} {r : κ} {p : ThreadPool.State κ ω} : s.loop = .rangeLock r →
      ThreadPool.step s.pool (.advanceRange r) = some p →
      Transition s (.loop first) { s with loop := .rangeUndo r, pool := p }
  | undoRange {first : Counter} {r : κ} {p : ThreadPool.State κ ω} : s.loop = .rangeUndo r →
      ThreadPool.step s.pool (.advanceRange r) = some p →
      Transition s (.loop first) { s with loop := .sub, pool := p }
  | sub {first : Counter} : s.loop = .sub →
      Transition s (.loop first)
        { (s.fetchSub s.mHandlesToResume).gotoAll s.mHandlesToResume
            (match strategy with
              | .processTasksInline => .done
              | .processTasksOnThreadPool => .inPool) with
          mHandlesToResume := []
          loop := .test }
  | collect {ks : List κ} : s.loop = .events → ks.Nodup → (∀ k ∈ ks, s.pc k = .waiting) →
      Transition s (.collect ks)
        { s.gotoAll ks .collected with mHandlesToResume := s.mHandlesToResume ++ ks }
  | collectScheduled : s.loop = .events →
      Transition s .collectScheduled
        { s.gotoAll s.mScheduledOps .collected with
          mHandlesToResume := s.mHandlesToResume ++ s.mScheduledOps.reverse
          mScheduledOps := [] }
  | poolAdvance {k : κ} {p : ThreadPool.State κ ω} :
      ThreadPool.step s.pool (.advance k) = some p →
      Transition s (.poolAdvance k) { s with pool := p }
  | poolWorker {w : ω} {p : ThreadPool.State κ ω} :
      ThreadPool.step s.pool (.worker w) = some p →
      Transition s (.poolWorker w) { s with pool := p }
  | finalSuspend {k : κ} : s.spawned k = true → s.finished k = false → s.begun k = true →
      Transition s (.finalSuspend k)
        { s.fetchSub [k] with finished := update s.finished k true }
  | shutdown : Transition s .shutdown { s with mShutdownRequested := true }
  | poolShutdown {p : ThreadPool.State κ ω} : s.mShutdownRequested = true →
      ThreadPool.step s.pool .shutdown = some p →
      Transition s .poolShutdown { s with pool := p }

variable {strategy}

variable {s s' : State κ ω}

lemma poolStep_eq_some {a : ThreadPool.Action κ ω} :
    s.poolStep a = some s' ↔
      ∃ p, ThreadPool.step s.pool a = some p ∧ { s with pool := p } = s' := by
  simp [State.poolStep]

lemma advance_transition {k : κ} (h : advance strategy s k = some s') :
    Transition strategy s (.advance k) s' := by
  unfold advance at h
  split at h <;> rename_i hc
  · split_ifs at h with hf
    · cases h
      exact .resumeReject hc hf
    · cases h
      exact .resumeAccept hc (by simpa using hf)
  · split at h
    · cases h
      exact .awaitInline rfl hc
    · obtain ⟨p, hp, rfl⟩ := poolStep_eq_some.mp h
      exact .awaitPool rfl hc hp
  · cases h
    exact .push hc
  · cases h
    exact .register hc
  · cases h

lemma events_transition {first : Counter} (hl : s.loop = .events)
    (h : advanceLoop strategy s first = some s') : Transition strategy s (.loop first) s' := by
  simp only [advanceLoop, hl] at h
  cases hh : s.mHandlesToResume with
  | nil =>
    simp only [hh, Option.some.injEq] at h
    exact h ▸ hh ▸ .noHandles hl hh
  | cons r rest =>
    cases strategy with
    | processTasksInline =>
      simp only [hh, Option.some.injEq] at h
      exact h ▸ hh ▸ .beginResume rfl hl (by simp [hh])
    | processTasksOnThreadPool =>
      simp only [hh] at h
      obtain ⟨p, hp, rfl⟩ := poolStep_eq_some.mp h
      exact hh ▸ .beginRange rfl hl (by simp [hh]) (hh ▸ hp)

lemma advanceLoop_transition {first : Counter}
    (h : advanceLoop strategy s first = some s') : Transition strategy s (.loop first) s' := by
  cases hl : s.loop with
  | test =>
    simp only [advanceLoop, hl] at h
    cases h
    exact .test hl
  | size =>
    simp only [advanceLoop, hl] at h
    cases strategy <;> cases h
    · exact .sizeFirst rfl hl
    · exact .sizeInline rfl hl
  | second c value =>
    simp only [advanceLoop, hl] at h
    cases h
    exact .sizeSecond hl
  | events => exact events_transition hl h
  | resume ks =>
    simp only [advanceLoop, hl] at h
    cases ks <;> cases h
    · exact .resumeDone hl
    · exact .resumeHandle hl
  | rangeLock r =>
    simp only [advanceLoop, hl] at h
    obtain ⟨p, hp, rfl⟩ := poolStep_eq_some.mp h
    exact .lockRange hl hp
  | rangeUndo r =>
    simp only [advanceLoop, hl] at h
    obtain ⟨p, hp, rfl⟩ := poolStep_eq_some.mp h
    exact .undoRange hl hp
  | sub =>
    simp only [advanceLoop, hl] at h
    cases h
    exact .sub hl
  | left => simp [advanceLoop, hl] at h

/-- Every step is one of the transitions. -/
lemma step_transition {a : Action κ ω} (h : step strategy s a = some s') :
    Transition strategy s a s' := by
  cases a with
  | spawnDetached k =>
    obtain ⟨hc, ⟨⟩⟩ := Option.ite_none_right_eq_some.mp h
    exact .spawnDetached hc
  | resume k handle =>
    obtain ⟨hc, ⟨⟩⟩ := Option.ite_none_right_eq_some.mp h
    exact .resume hc
  | schedule k =>
    obtain ⟨hc, ⟨⟩⟩ := Option.ite_none_right_eq_some.mp h
    exact .schedule hc
  | wait k =>
    obtain ⟨hc, ⟨⟩⟩ := Option.ite_none_right_eq_some.mp h
    exact .wait hc
  | advance k => exact advance_transition h
  | loop first => exact advanceLoop_transition h
  | collect ks =>
    obtain ⟨⟨hl, hnodup, hwaiting⟩, ⟨⟩⟩ := Option.ite_none_right_eq_some.mp h
    exact .collect hl hnodup hwaiting
  | collectScheduled =>
    obtain ⟨hl, ⟨⟩⟩ := Option.ite_none_right_eq_some.mp h
    exact .collectScheduled hl
  | poolAdvance k =>
    obtain ⟨p, hp, rfl⟩ := poolStep_eq_some.mp h
    exact .poolAdvance hp
  | poolWorker w =>
    obtain ⟨p, hp, rfl⟩ := poolStep_eq_some.mp h
    exact .poolWorker hp
  | finalSuspend k =>
    obtain ⟨⟨hspawned, hfinished, hbegun⟩, ⟨⟩⟩ := Option.ite_none_right_eq_some.mp h
    exact .finalSuspend hspawned hfinished hbegun
  | shutdown =>
    cases h
    exact .shutdown
  | poolShutdown =>
    obtain ⟨hshut, h⟩ := Option.ite_none_right_eq_some.mp h
    obtain ⟨p, hp, rfl⟩ := poolStep_eq_some.mp h
    exact .poolShutdown hshut hp

/-- The scheduler with its callers, its pool and its event loop. -/
def machine (strategy : ExecutionStrategy) (κ ω : Type*) [DecidableEq κ]
    [DecidableEq ω] : Machine (State κ ω) (Action κ ω) where
  start := start
  step := step strategy

end Libcoro.Scheduler.EventLoop
