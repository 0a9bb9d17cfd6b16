import Libcoro.Notification.Model

/-!
# The list of awaiters, pointer by pointer

The condition variable of `Libcoro.Notification.Model` with `m_awaiters` and the `m_next` fields as
they are in memory.  Every load and compare-exchange of `m_awaiters`, every write and every read of
an `m_next` in `awaiter_list_push`, `awaiter_list_pop`, `awaiter_list_pop_all` and the loops over a
detached chain is a step of its own; a weak compare-exchange may fail without a reason.

The awaiter of a coroutine is named by the coroutine.  It is a part of the frame of the coroutine,
so that a coroutine that waits again pushes an awaiter with the same address.
-/

namespace Libcoro.AwaiterList

open Foundations ConditionVariable Function

/-- Who calls `awaiter_list_push`: `await_suspend` for the coroutine itself, or a notifier that
pushes the awaiter `w` back and then goes on with the chain that `rest` heads. -/
inductive Pusher (ι : Type*) where
  | wait
  | requeue (w : ι) (rest : Option ι)
  deriving DecidableEq, Repr

/-- Who calls `awaiter_list_pop_all`: the two overloads of `notify_all`. -/
inductive Detacher where
  | notifyAll
  | notifyAllExecutor
  deriving DecidableEq, Repr

/-- Where a coroutine stands; the names are those of `Notification.Pc` where a step is the same.

A push loads `m_awaiters`, writes `m_next` of the node and exchanges.  A pop loads `m_awaiters`,
reads `m_next` of the awaiter that it has seen and exchanges; a `pop_all` loads and exchanges.  A
failed exchange has loaded `m_awaiters` again. -/
inductive Pc (ι : Type*) where
  | unused
  | running
  | pushLoad (k : Pusher ι)
  | pushLink (k : Pusher ι) (current : Option ι)
  | pushExchange (k : Pusher ι) (current : Option ι)
  | waitUnlock
  | waiting
  | popLoad
  | popNext (waiter : ι)
  | popExchange (waiter : ι) (next : Option ι)
  | popAllLoad (k : Detacher)
  | popAllExchange (k : Detacher) (head : ι)
  | notifying (waiter : Option ι)
  | spawning (waiter : Option ι)
  | spawnTask (waiter : ι) (next : Option ι)
  | locking (w : ι) (rest : Option ι)
  | evaluating (w : ι) (rest : Option ι)
  | notReady (w : ι) (rest : Option ι)
  deriving DecidableEq, Repr

variable {ι μ δ : Type*}

/-- The node that a push by `c` puts on the list. -/
def Pusher.node (c : ι) : Pusher ι → ι
  | .wait => c
  | .requeue w _ => w

/-- What follows a push. -/
def Pusher.done : Pusher ι → Pc ι
  | .wait => .waitUnlock
  | .requeue _ rest => .notifying rest

/-- What follows a `pop_all` that has returned `head`. -/
def Detacher.done (head : Option ι) : Detacher → Pc ι
  | .notifyAll => .notifying head
  | .notifyAllExecutor => .spawning head

/-- The mutexes, the data that they protect, the list in memory and the coroutines. -/
structure State (ι μ δ : Type*) where
  owner : μ → Option ι
  data : μ → δ
  mAwaiters : Option ι
  mNext : ι → Option ι
  mutex : ι → μ
  awaiter : ι → Awaiter δ
  mPredicateResult : ι → Bool
  stopRequested : ι → Bool
  pc : ι → Pc ι
  -- History, read by no step: how often a coroutine has begun to suspend itself in a wait, and how
  -- often a notifier has resumed it.
  waits : ι → ℕ
  resumptions : ι → ℕ

/-- The moves of `Notification.Action`, and the failure of a weak compare-exchange that finds what
it expects. -/
inductive Action (ι μ δ : Type*) where
  | move (a : Notification.Action ι μ δ)
  | spurious (c : ι)

variable [DecidableEq ι]

/-- Moves the control point of `c`. -/
@[simp] def State.goto (s : State ι μ δ) (c : ι) (p : Pc ι) : State ι μ δ :=
  { s with pc := update s.pc c p }

/-- The test of the loop in `awaiter_list_pop`. -/
def popTest (s : State ι μ δ) (c : ι) : State ι μ δ :=
  match s.mAwaiters with
  | none => s.goto c .running
  | some w => s.goto c (.popNext w)

/-- The test of the loop in `awaiter_list_pop_all`. -/
def popAllTest (s : State ι μ δ) (c : ι) (k : Detacher) : State ι μ δ :=
  match s.mAwaiters with
  | none => s.goto c (k.done none)
  | some h => s.goto c (.popAllExchange k h)

variable [DecidableEq μ]

/-- Sets the owner of the mutex `m`. -/
def State.setOwner (s : State ι μ δ) (m : μ) (o : Option ι) : State ι μ δ :=
  { s with owner := update s.owner m o }

/-- `await_ready` of a wait with the awaiter `a`. -/
def wait (s : State ι μ δ) (c : ι) (m : μ) (a : Awaiter δ) (stop : Bool) : State ι μ δ :=
  { s.goto c (if a.awaitReady (s.data m) then .running else .pushLoad .wait) with
    mutex := update s.mutex c m
    awaiter := update s.awaiter c a
    stopRequested := update s.stopRequested c stop
    mPredicateResult :=
      update s.mPredicateResult c (a.predicateResult (s.data m) false)
    waits := update s.waits c
      (if a.awaitReady (s.data m) then s.waits c else s.waits c + 1) }

/-- Whether `on_notify` finds the awaiter `w` ready. -/
def State.ready (s : State ι μ δ) (w : ι) : Bool :=
  (s.awaiter w).ready (s.data (s.mutex w)) (s.stopRequested w)

/-- What an evaluation by `on_notify` leaves in the awaiter `w`. -/
def State.evaluated (s : State ι μ δ) (w : ι) : State ι μ δ :=
  { s with
    mPredicateResult := update s.mPredicateResult w
      ((s.awaiter w).predicateResult (s.data (s.mutex w)) (s.mPredicateResult w)) }

/-- `m_awaiting_coroutine.resume()` for the awaiter `w`, whose coroutine returns from its wait. -/
@[simp] def State.resume (s : State ι μ δ) (w : ι) : State ι μ δ :=
  { s.goto w .running with resumptions := update s.resumptions w (s.resumptions w + 1) }

/-- The part of `on_notify` that follows the lock, run by `c` for the awaiter `w`. -/
def onNotify (s : State ι μ δ) (c w : ι) (rest : Option ι) : State ι μ δ :=
  if s.ready w then
    (((s.evaluated w).setOwner (s.mutex w) (some w)).resume w).goto c (.notifying rest)
  else (s.evaluated w).goto c (.notReady w rest)

/-- The next step of the coroutine `c` inside a call of the library. -/
def advance (s : State ι μ δ) (c : ι) : Option (State ι μ δ) :=
  match s.pc c with
  | .pushLoad k => some (s.goto c (.pushLink k s.mAwaiters))
  | .pushLink k current =>
    some { s.goto c (.pushExchange k current) with
      mNext := update s.mNext (k.node c) current }
  | .pushExchange k current =>
    if s.mAwaiters = current then
      some { s.goto c k.done with mAwaiters := some (k.node c) }
    else some (s.goto c (.pushLink k s.mAwaiters))
  | .waitUnlock => some ((s.setOwner (s.mutex c) none).goto c .waiting)
  | .popLoad => some (popTest s c)
  | .popNext w => some (s.goto c (.popExchange w (s.mNext w)))
  | .popExchange w next =>
    if s.mAwaiters = some w then some { s.goto c (.locking w none) with mAwaiters := next }
    else some (popTest s c)
  | .popAllLoad k => some (popAllTest s c k)
  | .popAllExchange k h =>
    if s.mAwaiters = some h then some { s.goto c (k.done (some h)) with mAwaiters := none }
    else some (popAllTest s c k)
  | .notifying none => some (s.goto c .running)
  | .notifying (some w) => some (s.goto c (.locking w (s.mNext w)))
  | .spawning none => some (s.goto c .running)
  | .spawning (some w) => some (s.goto c (.spawnTask w (s.mNext w)))
  | .locking w rest =>
    if s.owner (s.mutex w) = none then
      some ((s.setOwner (s.mutex w) (some c)).goto c (.evaluating w rest))
    else none
  | .evaluating w rest => some (onNotify s c w rest)
  | .notReady w rest =>
    some ((s.setOwner (s.mutex w) none).goto c (.pushLoad (.requeue w rest)))
  | .unused | .running | .waiting | .spawnTask _ _ => none

/-- The weak compare-exchange of `c` fails without a reason. -/
def spurious (s : State ι μ δ) (c : ι) : Option (State ι μ δ) :=
  match s.pc c with
  | .pushExchange k _ => some (s.goto c (.pushLink k s.mAwaiters))
  | .popExchange _ _ => some (popTest s c)
  | .popAllExchange k _ => some (popAllTest s c k)
  | _ => none

/-- The executor takes the next task of the loop of `notify_all(executor)`, which runs as `k`. -/
def spawn (s : State ι μ δ) (c k : ι) : Option (State ι μ δ) :=
  match s.pc c, s.pc k with
  | .spawnTask w next, .unused => some ((s.goto k (.locking w none)).goto c (.spawning next))
  | _, _ => none

/-- The executor refuses the next task of the loop of `notify_all(executor)`. -/
def refuse (s : State ι μ δ) (c : ι) : Option (State ι μ δ) :=
  match s.pc c with
  | .spawnTask _ next => some (s.goto c (.spawning next))
  | _ => none

/-- One move. -/
def move (s : State ι μ δ) : Notification.Action ι μ δ → Option (State ι μ δ)
  | .begin c => if s.pc c = .unused then some (s.goto c .running) else none
  | .lock c m =>
    if s.pc c = .running ∧ s.owner m = none then some (s.setOwner m (some c)) else none
  | .unlock c m =>
    if s.pc c = .running ∧ s.owner m = some c then some (s.setOwner m none) else none
  | .write c m d =>
    if s.pc c = .running ∧ s.owner m = some c then
      some { s with data := update s.data m d }
    else none
  | .wait c m a stop =>
    if s.pc c = .running ∧ s.owner m = some c then some (wait s c m a stop) else none
  | .notifyOne c => if s.pc c = .running then some (s.goto c .popLoad) else none
  | .notifyAll c =>
    if s.pc c = .running then some (s.goto c (.popAllLoad .notifyAll)) else none
  | .notifyAllExecutor c =>
    if s.pc c = .running then some (s.goto c (.popAllLoad .notifyAllExecutor)) else none
  | .notifyOneExecutor c k =>
    if s.pc c = .running ∧ s.pc k = .unused then some (s.goto k .popLoad) else none
  | .requestStop c => some { s with stopRequested := update s.stopRequested c true }
  | .spawn c k => spawn s c k
  | .refuse c => refuse s c
  | .advance c => advance s c

/-- One step of the system. -/
def step (s : State ι μ δ) : Action ι μ δ → Option (State ι μ δ)
  | .move a => move s a
  | .spurious c => spurious s c

/-- No coroutine has begun, the mutexes are free and protect the data `d`. -/
def start [Inhabited μ] (d : μ → δ) : State ι μ δ where
  owner _ := none
  data := d
  mAwaiters := none
  mNext _ := none
  mutex _ := default
  awaiter _ := .plain
  mPredicateResult _ := false
  stopRequested _ := false
  pc _ := .unused
  waits _ := 0
  resumptions _ := 0

/-- The coroutines as a machine, for every initial value of the data. -/
def machine (ι : Type*) {μ δ : Type*} [DecidableEq ι] [DecidableEq μ] [Inhabited μ]
    (d : μ → δ) : Machine (State ι μ δ) (Action ι μ δ) where
  start := start d
  step := step

end Libcoro.AwaiterList
