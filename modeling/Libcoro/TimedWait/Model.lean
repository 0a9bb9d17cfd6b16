import Libcoro.ConditionVariable.Model
import Libcoro.Foundations.Machine

/-!
# Timed waits on a condition variable

`wait_for` and `wait_until` of `coro::condition_variable`, beside the untimed waits and all notify
functions.  A timed wait hands its caller over to three tasks that live longer than the awaiter
object: the controller pushes a hook on `m_awaiters`, releases the mutex of the user and starts the
other two; the on-notify callback waits for the event `m_notify_callback`; the timeout task sleeps.
A notifier that finds the hook and the timeout task compete for `m_awaiter_completed` under
`m_event_mutex`, and the winner sees to it that the caller is resumed.

Every access to a variable that the tasks share is a step of its own.  A push, a pop and a
`pop_all` on `m_awaiters` are one step each, and a mutex appears through its owner alone, so that a
hand-over is the release of the mutex followed by the step in which the waiter takes it.  The fields
of the awaiter object keep their values after the caller has returned.

Every wait has a name of its own; one that finds its predicate true does not suspend its caller.
-/

namespace Libcoro.TimedWait

open Foundations ConditionVariable Function

/-- `std::cv_status`. -/
inductive CvStatus where
  | noTimeout
  | timeout
  deriving DecidableEq, Repr

/-- Who has won `m_awaiter_completed`. -/
inductive Winner where
  | notify
  | timeout
  deriving DecidableEq, Repr

/-- Where the controller task stands.  `idle` is a wait that has not begun, and `ready` one whose
`await_ready` has returned true. -/
inductive Controller where
  | idle
  | ready
  | push
  | unlock
  | startCallback
  | startTimeout
  | done
  deriving DecidableEq, Repr

/-- Where the on-notify callback task stands: `ready` is about to read `m_status`, and `resuming`
about to resume the caller. -/
inductive Callback where
  | notStarted
  | waitingEvent
  | ready
  | resuming
  | done
  deriving DecidableEq, Repr

/-- Where the timeout task stands. -/
inductive Timeout where
  | notStarted
  | sleeping
  | eventLock
  | exchange
  | setStatus
  | wonUnlock
  | lock
  | evaluate
  | resume
  | lostUnlock
  | done
  deriving DecidableEq, Repr

/-- Where a notifier stands inside `on_notify` of an awaiter, and, in `requeue`, right after it.
`deadUnlock` and `deadSet` are the path of a hook whose wait has timed out; `complete`, `setStatus`,
`unlock` and `set` that of a hook which is ready; `notReady` releases the mutex of the user and
`eventUnlock` the event mutex.  An untimed awaiter knows `lock`, `evaluate`, `notReady`, `requeue`
and `resume` only. -/
inductive Stage where
  | eventLock
  | eventTest
  | deadUnlock
  | deadSet
  | lock
  | evaluate
  | complete
  | setStatus
  | unlock
  | set
  | notReady
  | eventUnlock
  | requeue
  | resume
  deriving DecidableEq, Repr

/-- Who holds the event mutex of a wait. -/
inductive Party (ι : Type*) where
  | notifier (c : ι)
  | timeout
  deriving DecidableEq, Repr

/-- Who owns a mutex of the user: a coroutine, or the tasks of a wait on behalf of its caller. -/
inductive Holder (ι ω : Type*) where
  | coroutine (c : ι)
  | wait (w : ω)
  deriving DecidableEq, Repr

/-- A wait: its awaiter object, the data of its controller and where its tasks stand. -/
structure Wait (ι μ δ : Type*) where
  caller : ι
  mutex : μ
  timed : Bool
  awaiter : Awaiter δ
  -- `m_stop_token.stop_requested()`.
  stopRequested : Bool
  controller : Controller
  callback : Callback
  timeout : Timeout
  -- `m_event_mutex` and `m_notify_callback`.
  eventOwner : Option (Party ι)
  mNotifyCallback : Bool
  mAwaiterCompleted : Bool
  mStatus : Option CvStatus
  mPredicateResult : Bool
  -- History, read by no step: who has won `m_awaiter_completed`, how often the caller has been
  -- resumed, and `m_status` and `m_predicate_result` as the last resumption has found them.
  winner : Option Winner
  resumptions : ℕ
  returned : Option (Option CvStatus × Bool)

/-- Where a coroutine stands.  `hook st w k` is inside `on_notify` of `w`, called by `notify_one` if
`k` is `none` and by `notify_all` with the awaiters `ws` to go if `k` is `some ws`. -/
inductive Pc (ω : Type*) where
  | unused
  | running
  | waiting (w : ω)
  | notifyOne
  | notifyAll
  | notifyAllExecutor
  | notifying (ws : List ω)
  | spawning (ws : List ω)
  | hook (st : Stage) (w : ω) (k : Option (List ω))
  deriving DecidableEq, Repr

/-- The mutexes, the data that they protect, the condition variable, the waits and the
coroutines. -/
structure State (ι ω μ δ : Type*) where
  owner : μ → Option (Holder ι ω)
  data : μ → δ
  mAwaiters : List ω
  wait : ω → Wait ι μ δ
  pc : ι → Pc ω
  -- History, read by no step: the awaiters whose task the executor has refused.
  lost : List ω

/-- The moves: those of user code, those of the executor, the next step of a coroutine inside a
notify call, and the steps of the tasks of a wait.  `wait c w m timed a stop` is the wait `w` of `c`
on the mutex `m`. -/
inductive Action (ι ω μ δ : Type*) where
  | begin (c : ι)
  | lock (c : ι) (m : μ)
  | unlock (c : ι) (m : μ)
  | write (c : ι) (m : μ) (d : δ)
  | wait (c : ι) (w : ω) (m : μ) (timed : Bool) (a : Awaiter δ) (stop : Bool)
  | notifyOne (c : ι)
  | notifyAll (c : ι)
  | notifyAllExecutor (c : ι)
  | requestStop (w : ω)
  | spawn (c k : ι)
  | refuse (c : ι)
  | advance (c : ι)
  | controller (w : ω)
  | callback (w : ω)
  | timerFires (w : ω)
  | timeout (w : ω)

variable {ι ω μ δ : Type*}

/-! ## One wait -/

/-- The predicate of an awaiter, where there is one. -/
def predicate : Awaiter δ → Option (δ → Bool)
  | .plain => none
  | .withPredicate p => some p
  | .withPredicateStopToken p => some p

/-- Whether an awaiter has a stop token. -/
def hasStopToken : Awaiter δ → Bool
  | .withPredicateStopToken _ => true
  | _ => false

namespace Wait

/-- A wait that has not begun. -/
def idle (c : ι) (m : μ) : Wait ι μ δ where
  caller := c
  mutex := m
  timed := false
  awaiter := .plain
  stopRequested := false
  controller := .idle
  callback := .notStarted
  timeout := .notStarted
  eventOwner := none
  mNotifyCallback := false
  mAwaiterCompleted := false
  mStatus := none
  mPredicateResult := false
  winner := none
  resumptions := 0
  returned := none

/-- `await_ready` on the data `d`, and the begin of `await_suspend` if that is false. -/
def start (c : ι) (m : μ) (timed : Bool) (a : Awaiter δ) (stop : Bool) (d : δ) : Wait ι μ δ :=
  { (idle c m : Wait ι μ δ) with
    timed := timed
    awaiter := a
    stopRequested := stop
    controller := if a.awaitReady d then .ready else .push
    mStatus := if timed && a.awaitReady d && hasStopToken a && stop then some .noTimeout else none
    mPredicateResult := if timed then a.awaitReady d else a.predicateResult d false }

/-- Whether `on_notify` finds the awaiter ready on the data `d`. -/
def ready (y : Wait ι μ δ) (d : δ) : Bool :=
  y.awaiter.ready d y.stopRequested

/-- What the evaluation by `on_notify` leaves in `m_predicate_result`. -/
def evaluated (y : Wait ι μ δ) (d : δ) : Bool :=
  match y.timed, predicate y.awaiter with
  | true, some p => p d
  | true, none => y.mPredicateResult
  | false, _ => y.awaiter.predicateResult d y.mPredicateResult

/-- What the timeout task leaves in `m_predicate_result`. -/
def timedOut (y : Wait ι μ δ) (d : δ) : Bool :=
  match predicate y.awaiter with
  | some p => p d
  | none => true

/-- `m_notify_callback.set()`, which resumes the callback task if that is waiting. -/
def set (y : Wait ι μ δ) : Wait ι μ δ :=
  { y with
    mNotifyCallback := true
    callback := if y.callback = .waitingEvent then .ready else y.callback }

/-- The caller is resumed and takes the result with it. -/
def resume (y : Wait ι μ δ) : Wait ι μ δ :=
  { y with
    resumptions := y.resumptions + 1
    returned := some (y.mStatus, y.mPredicateResult) }

end Wait

/-- Where a notifier goes on when `on_notify` has returned `ready` or, after the push,
`not_ready`. -/
def Pc.after : Option (List ω) → Pc ω
  | none => .running
  | some ws => .notifying ws

/-- Where a notifier goes on when `on_notify` has returned `awaiter_dead`. -/
def Pc.again : Option (List ω) → Pc ω
  | none => .notifyOne
  | some ws => .notifying ws

/-! ## The system -/

/-- The call of `on_notify` for the awaiter `w`. -/
def State.visit (s : State ι ω μ δ) (w : ω) (k : Option (List ω)) : Pc ω :=
  .hook (if (s.wait w).timed then .eventLock else .lock) w k

/-- Moves the control point of `c`. -/
@[simp] def State.goto [DecidableEq ι] (s : State ι ω μ δ) (c : ι) (p : Pc ω) : State ι ω μ δ :=
  { s with pc := update s.pc c p }

/-- Sets the owner of the mutex `m`. -/
@[simp] def State.setOwner [DecidableEq μ] (s : State ι ω μ δ) (m : μ) (o : Option (Holder ι ω)) :
    State ι ω μ δ :=
  { s with owner := update s.owner m o }

/-- Replaces the wait `w`. -/
@[simp] def State.setWait [DecidableEq ω] (s : State ι ω μ δ) (w : ω) (y : Wait ι μ δ) :
    State ι ω μ δ :=
  { s with wait := update s.wait w y }

variable [DecidableEq ι] [DecidableEq ω] [DecidableEq μ]

/-- `m_awaiting_coroutine.resume()` for the wait `w`, which is `y` from then on but for the
resumption.  The caller owns the mutex. -/
@[simp] def State.resume (s : State ι ω μ δ) (w : ω) (y : Wait ι μ δ) : State ι ω μ δ :=
  ((s.setWait w y.resume).setOwner y.mutex (some (.coroutine y.caller))).goto y.caller .running

/-- The next step of `c` inside `on_notify` of the awaiter `w`. -/
def onNotify (s : State ι ω μ δ) (c : ι) (st : Stage) (w : ω) (k : Option (List ω)) :
    Option (State ι ω μ δ) :=
  let y := s.wait w
  match st with
  | .eventLock =>
    if y.eventOwner = none then
      some ((s.setWait w { y with eventOwner := some (.notifier c) }).goto c (.hook .eventTest w k))
    else none
  | .eventTest =>
    some (s.goto c (.hook (if y.mAwaiterCompleted then .deadUnlock else .lock) w k))
  | .deadUnlock => some ((s.setWait w { y with eventOwner := none }).goto c (.hook .deadSet w k))
  | .deadSet => some ((s.setWait w y.set).goto c (.again k))
  | .lock =>
    if s.owner y.mutex = none then
      some ((s.setOwner y.mutex (some (.coroutine c))).goto c (.hook .evaluate w k))
    else none
  | .evaluate =>
    let d := s.data y.mutex
    some ((s.setWait w { y with mPredicateResult := y.evaluated d }).goto c
      (.hook (if y.ready d then (if y.timed then .complete else .resume) else .notReady) w k))
  | .complete =>
    some (((s.setWait w { y with mAwaiterCompleted := true, winner := some .notify }).setOwner
      y.mutex (some (.wait w))).goto c (.hook .setStatus w k))
  | .setStatus =>
    some ((s.setWait w { y with mStatus := some .noTimeout }).goto c (.hook .unlock w k))
  | .unlock => some ((s.setWait w { y with eventOwner := none }).goto c (.hook .set w k))
  | .set => some ((s.setWait w y.set).goto c (.after k))
  | .notReady =>
    some ((s.setOwner y.mutex none).goto c
      (.hook (if y.timed then .eventUnlock else .requeue) w k))
  | .eventUnlock =>
    some ((s.setWait w { y with eventOwner := none }).goto c (.hook .requeue w k))
  | .requeue => some { s.goto c (.after k) with mAwaiters := w :: s.mAwaiters }
  | .resume => some ((s.resume w y).goto c (.after k))

/-- The next step of the coroutine `c` inside a notify call. -/
def advance (s : State ι ω μ δ) (c : ι) : Option (State ι ω μ δ) :=
  match s.pc c with
  | .notifyOne =>
    match s.mAwaiters with
    | [] => some (s.goto c .running)
    | w :: ws => some { s.goto c (s.visit w none) with mAwaiters := ws }
  | .notifyAll => some { s.goto c (.notifying s.mAwaiters) with mAwaiters := [] }
  | .notifyAllExecutor => some { s.goto c (.spawning s.mAwaiters) with mAwaiters := [] }
  | .notifying [] => some (s.goto c .running)
  | .notifying (w :: ws) => some (s.goto c (s.visit w (some ws)))
  | .spawning [] => some (s.goto c .running)
  | .hook st w k => onNotify s c st w k
  | .unused | .running | .waiting _ | .spawning (_ :: _) => none

/-- The executor takes the next task of the loop of `notify_all(executor)`, which runs as `k`. -/
def spawn (s : State ι ω μ δ) (c k : ι) : Option (State ι ω μ δ) :=
  match s.pc c, s.pc k with
  | .spawning (w :: ws), .unused => some ((s.goto k (s.visit w (some []))).goto c (.spawning ws))
  | _, _ => none

/-- The executor refuses the next task of the loop of `notify_all(executor)`. -/
def refuse (s : State ι ω μ δ) (c : ι) : Option (State ι ω μ δ) :=
  match s.pc c with
  | .spawning (w :: ws) => some { s.goto c (.spawning ws) with lost := w :: s.lost }
  | _ => none

/-- The next step of the controller task of `w`, or of `await_suspend` of an untimed wait. -/
def controller (s : State ι ω μ δ) (w : ω) : Option (State ι ω μ δ) :=
  let y := s.wait w
  match y.controller with
  | .push =>
    some { s.setWait w { y with controller := .unlock } with mAwaiters := w :: s.mAwaiters }
  | .unlock =>
    some ((s.setWait w { y with controller := if y.timed then .startCallback else .done }).setOwner
      y.mutex none)
  | .startCallback =>
    some (s.setWait w { y with
      controller := .startTimeout
      callback := if y.mNotifyCallback then .ready else .waitingEvent })
  | .startTimeout => some (s.setWait w { y with controller := .done, timeout := .sleeping })
  | .idle | .ready | .done => none

/-- The next step of the on-notify callback task of `w`; `m_status.value()` throws if there is no
status. -/
def callback (s : State ι ω μ δ) (w : ω) : Option (State ι ω μ δ) :=
  let y := s.wait w
  match y.callback with
  | .ready =>
    match y.mStatus with
    | some .noTimeout => some (s.setWait w { y with callback := .resuming })
    | some .timeout => some (s.setWait w { y with callback := .done })
    | none => none
  | .resuming => some (s.resume w { y with callback := .done })
  | .notStarted | .waitingEvent | .done => none

/-- The next step of the timeout task of `w`, once it has slept. -/
def timeout (s : State ι ω μ δ) (w : ω) : Option (State ι ω μ δ) :=
  let y := s.wait w
  match y.timeout with
  | .eventLock =>
    if y.eventOwner = none then
      some (s.setWait w { y with eventOwner := some .timeout, timeout := .exchange })
    else none
  | .exchange =>
    if y.mAwaiterCompleted then some (s.setWait w { y with timeout := .lostUnlock })
    else some (s.setWait w { y with
      mAwaiterCompleted := true
      winner := some .timeout
      timeout := .setStatus })
  | .setStatus => some (s.setWait w { y with mStatus := some .timeout, timeout := .wonUnlock })
  | .wonUnlock => some (s.setWait w { y with eventOwner := none, timeout := .lock })
  | .lock =>
    if s.owner y.mutex = none then
      some ((s.setWait w { y with timeout := .evaluate }).setOwner y.mutex (some (.wait w)))
    else none
  | .evaluate =>
    some (s.setWait w { y with
      mPredicateResult := y.timedOut (s.data y.mutex)
      timeout := .resume })
  | .resume => some (s.resume w { y with timeout := .done })
  | .lostUnlock => some (s.setWait w { y with eventOwner := none, timeout := .done })
  | .notStarted | .sleeping | .done => none

/-- A wait begins, or finds its predicate true. -/
def wait (s : State ι ω μ δ) (c : ι) (w : ω) (m : μ) (timed : Bool) (a : Awaiter δ) (stop : Bool) :
    State ι ω μ δ :=
  (s.setWait w (Wait.start c m timed a stop (s.data m))).goto c
    (if a.awaitReady (s.data m) then .running else .waiting w)

/-- One step of the system. -/
def step (s : State ι ω μ δ) : Action ι ω μ δ → Option (State ι ω μ δ)
  | .begin c => if s.pc c = .unused then some (s.goto c .running) else none
  | .lock c m =>
    if s.pc c = .running ∧ s.owner m = none then some (s.setOwner m (some (.coroutine c)))
    else none
  | .unlock c m =>
    if s.pc c = .running ∧ s.owner m = some (.coroutine c) then some (s.setOwner m none) else none
  | .write c m d =>
    if s.pc c = .running ∧ s.owner m = some (.coroutine c) then
      some { s with data := update s.data m d }
    else none
  | .wait c w m timed a stop =>
    if s.pc c = .running ∧ s.owner m = some (.coroutine c) ∧ (s.wait w).controller = .idle then
      some (wait s c w m timed a stop)
    else none
  | .notifyOne c => if s.pc c = .running then some (s.goto c .notifyOne) else none
  | .notifyAll c => if s.pc c = .running then some (s.goto c .notifyAll) else none
  | .notifyAllExecutor c =>
    if s.pc c = .running then some (s.goto c .notifyAllExecutor) else none
  | .requestStop w => some (s.setWait w { s.wait w with stopRequested := true })
  | .spawn c k => spawn s c k
  | .refuse c => refuse s c
  | .advance c => advance s c
  | .controller w => controller s w
  | .callback w => callback s w
  | .timerFires w =>
    if (s.wait w).timeout = .sleeping then
      some (s.setWait w { s.wait w with timeout := .eventLock })
    else none
  | .timeout w => timeout s w

/-- No coroutine has begun, the mutexes are free and protect the data `d`. -/
def start [Inhabited ι] [Inhabited μ] (d : μ → δ) : State ι ω μ δ where
  owner _ := none
  data := d
  mAwaiters := []
  wait _ := .idle default default
  pc _ := .unused
  lost := []

/-- The system as a machine, for every initial value of the data. -/
def machine (ι ω : Type*) {μ δ : Type*} [DecidableEq ι] [DecidableEq ω]
    [DecidableEq μ] [Inhabited ι] [Inhabited μ] (d : μ → δ) :
    Machine (State ι ω μ δ) (Action ι ω μ δ) where
  start := start d
  step := step

end Libcoro.TimedWait
