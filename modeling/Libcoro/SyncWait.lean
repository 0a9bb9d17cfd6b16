import Libcoro.Foundations.Machine

/-!
# `coro::sync_wait`

A thread waits for an awaitable.  `sync_wait` wraps the awaitable into a coroutine whose promise
keeps the outcome, starts this coroutine and blocks on a `sync_wait_event`; in its final suspend
point the coroutine sets the event, on whichever thread it then runs, perhaps inside of `start()`.
The event and the coroutine are local variables of `sync_wait`: they are gone once it has returned.

`set()` locks the mutex, exchanges `m_set`, notifies and unlocks; each of them is a step.  `wait()`
tests `m_set` with the mutex, and gives the mutex up as it falls asleep.
-/

namespace Libcoro.SyncWait

open Foundations

/-- The thread in `sync_wait`, and whoever resumes the coroutine for the last time. -/
inductive Party
  | waiter
  | setter
  deriving DecidableEq, Repr

/-- Where `sync_wait` is. -/
inductive WaiterPc (α ε : Type*)
  -- in `start()`
  | starting
  -- in `wait()`: before the mutex, with it, and asleep
  | locking
  | testing
  | sleeping
  | waited
  -- `result()` has been called, and the local variables are destroyed
  | resulted (r : Except ε α)
  | returned (r : Except ε α)

/-- Where the coroutine is; all but the first are in its final suspend point. -/
inductive SetterPc
  | running
  | lock
  | exchange
  | notify
  | unlock
  | done
  deriving DecidableEq, Repr

/-- The local variables of `sync_wait` and the two parties. -/
structure State (α ε : Type*) where
  waiter : WaiterPc α ε
  setter : SetterPc
  -- the coroutine ends inside of `start()`
  inlined : Bool
  mMutex : Option Party
  mSet : Bool
  mStorage : Option (Except ε α)

/-- The steps. -/
inductive Action (α ε : Type*)
  -- `return_value` or `unhandled_exception`
  | complete (r : Except ε α) (inlined : Bool)
  | set
  | wait
  -- `m_cv.wait` returns without a notification
  | spurious

variable {α ε : Type*}

/-- The caller has not called `wait` yet. -/
def WaiterPc.isStarting : WaiterPc α ε → Bool
  | .starting => true
  | _ => false

/-- The caller sleeps on the condition variable. -/
def WaiterPc.isSleeping : WaiterPc α ε → Bool
  | .sleeping => true
  | _ => false

/-- A sleeper has to get the mutex again. -/
def WaiterPc.wake : WaiterPc α ε → WaiterPc α ε
  | .sleeping => .locking
  | pc => pc

/-- The next step of the final suspend point, `sync_wait_event::set`. -/
def set (s : State α ε) : Option (State α ε) :=
  match s.setter with
  | .running => none
  | .lock =>
    if s.mMutex = none then some { s with mMutex := some .setter, setter := .exchange } else none
  | .exchange => some { s with mSet := true, setter := .notify }
  | .notify => some { s with waiter := s.waiter.wake, setter := .unlock }
  | .unlock => some { s with mMutex := none, setter := .done }
  | .done => none

/-- The next step of `sync_wait`; `unset` is what `result()` gives if nothing is stored. -/
def wait (unset : Except ε α) (s : State α ε) : Option (State α ε) :=
  match s.waiter with
  | .starting =>
    if s.inlined = true ∧ s.setter ≠ .done then none else some { s with waiter := .locking }
  | .locking =>
    if s.mMutex = none then some { s with mMutex := some .waiter, waiter := .testing } else none
  | .testing => some { s with mMutex := none, waiter := if s.mSet then .waited else .sleeping }
  | .sleeping => none
  | .waited => some { s with waiter := .resulted (s.mStorage.getD unset) }
  | .resulted r => some { s with waiter := .returned r }
  | .returned _ => none

/-- One step. -/
def step (unset : Except ε α) (s : State α ε) : Action α ε → Option (State α ε)
  | .complete r inlined =>
    if s.setter = .running ∧ (inlined = true → s.waiter.isStarting = true) then
      some { s with mStorage := some r, inlined := inlined, setter := .lock }
    else none
  | .set => set s
  | .wait => wait unset s
  | .spurious =>
    if s.waiter.isSleeping = true then some { s with waiter := s.waiter.wake } else none

/-- A call of `sync_wait`. -/
def machine (unset : Except ε α) : Machine (State α ε) (Action α ε) where
  start := ⟨.starting, .running, false, none, false, none⟩
  step := step unset

/-! ## The invariant -/

/-- The coroutine has set `m_set`. -/
def SetterPc.hasSet : SetterPc → Bool
  | .notify => true
  | .unlock => true
  | .done => true
  | _ => false

/-- The coroutine holds the mutex. -/
def SetterPc.holds : SetterPc → Bool
  | .exchange => true
  | .notify => true
  | .unlock => true
  | _ => false

/-- The coroutine has notified. -/
def SetterPc.hasNotified : SetterPc → Bool
  | .unlock => true
  | .done => true
  | _ => false

/-- The caller is about to test `m_set`. -/
def WaiterPc.isTesting : WaiterPc α ε → Bool
  | .testing => true
  | _ => false

/-- `wait()` has returned. -/
def WaiterPc.hasWaited : WaiterPc α ε → Bool
  | .waited => true
  | .resulted _ => true
  | .returned _ => true
  | _ => false

/-- The outcome that `sync_wait` returns. -/
def WaiterPc.result : WaiterPc α ε → Option (Except ε α)
  | .resulted r => some r
  | .returned r => some r
  | _ => none

/-- What holds throughout. -/
structure Sound (s : State α ε) : Prop where
  set_iff : s.mSet = s.setter.hasSet
  setter_owns : s.mMutex = some .setter ↔ s.setter.holds = true
  waiter_owns : s.mMutex = some .waiter ↔ s.waiter.isTesting = true
  -- the mutex keeps `wait()` from returning before `set()` has done its last step
  done : s.waiter.hasWaited = true → s.setter = .done
  -- nobody sleeps after the notification
  asleep : s.waiter.isSleeping = true → s.setter.hasNotified = false
  stored : s.mStorage.isSome = true ↔ s.setter ≠ .running
  result : ∀ r, s.waiter.result = some r → s.mStorage = some r

attribute [simp] SetterPc.hasSet SetterPc.holds SetterPc.hasNotified WaiterPc.isTesting
  WaiterPc.hasWaited WaiterPc.result WaiterPc.isSleeping WaiterPc.isStarting WaiterPc.wake

variable {unset : Except ε α} {s s' : State α ε}

namespace Sound

/-- The awaitable ends, and its result is stored before anything is set. -/
lemma complete {r : Except ε α} {inlined : Bool} (hs : Sound s)
    (hstep : step unset s (.complete r inlined) = some s') : Sound s' := by
  obtain ⟨hset, hsetter, hwaiter, hdone, hasleep, hstored, hresult⟩ := hs
  simp only [step, Option.ite_none_right_eq_some, Option.some.injEq] at hstep
  obtain ⟨⟨hrunning, -⟩, rfl⟩ := hstep
  constructor <;> simp_all

/-- The steps of `set`, under the mutex from the lock to the notification. -/
lemma set (hs : Sound s) (hstep : SyncWait.set s = some s') : Sound s' := by
  obtain ⟨hset, hsetter, hwaiter, hdone, hasleep, hstored, hresult⟩ := hs
  cases hc : s.setter with
  | running | done => simp [SyncWait.set, hc] at hstep
  | lock =>
    simp only [SyncWait.set, hc, Option.ite_none_right_eq_some, Option.some.injEq] at hstep
    obtain ⟨hfree, rfl⟩ := hstep
    constructor <;> simp_all
  | exchange | unlock =>
    simp only [SyncWait.set, hc, Option.some.injEq] at hstep
    subst hstep
    constructor <;> simp_all
  | notify =>
    simp only [SyncWait.set, hc, Option.some.injEq] at hstep
    subst hstep
    cases hw : s.waiter <;> constructor <;> simp_all

/-- The steps of `wait`, which tests `m_set` under the mutex. -/
lemma wait (hs : Sound s) (hstep : SyncWait.wait unset s = some s') : Sound s' := by
  obtain ⟨hset, hsetter, hwaiter, hdone, hasleep, hstored, hresult⟩ := hs
  cases hc : s.waiter with
  | returned r | sleeping => simp [SyncWait.wait, hc] at hstep
  | starting =>
    simp only [SyncWait.wait, hc, Option.ite_none_left_eq_some, Option.some.injEq] at hstep
    obtain ⟨-, rfl⟩ := hstep
    constructor <;> simp_all
  | locking =>
    simp only [SyncWait.wait, hc, Option.ite_none_right_eq_some, Option.some.injEq] at hstep
    obtain ⟨hfree, rfl⟩ := hstep
    constructor <;> simp_all
  | testing =>
    simp only [SyncWait.wait, hc, Option.some.injEq] at hstep
    subst hstep
    -- the coroutine does not hold the mutex: it has not begun `set()` or has ended it
    cases hc' : s.setter <;> constructor <;> simp_all
  | waited =>
    simp only [SyncWait.wait, hc, Option.some.injEq] at hstep
    subst hstep
    obtain ⟨r, hr⟩ := Option.isSome_iff_exists.mp (hstored.mpr (by simp_all))
    constructor <;> simp_all
  | resulted r =>
    simp only [SyncWait.wait, hc, Option.some.injEq] at hstep
    subst hstep
    constructor <;> simp_all

/-- A wakeup without a notification leads to another test. -/
lemma spurious (hs : Sound s) (hstep : step unset s .spurious = some s') : Sound s' := by
  obtain ⟨hset, hsetter, hwaiter, hdone, hasleep, hstored, hresult⟩ := hs
  simp only [step, Option.ite_none_right_eq_some, Option.some.injEq] at hstep
  obtain ⟨hsleeping, rfl⟩ := hstep
  cases hw : s.waiter <;> constructor <;> simp_all

/-- The run lemma. -/
lemma of_reachable (hs : (machine unset).Reachable s) : Sound s := by
  refine hs.invariant ?_ fun t a t' _ ht hstep => ?_
  · constructor <;> simp [machine]
  · have hstep : step unset t a = some t' := hstep
    cases a with
    | complete r inlined => exact ht.complete hstep
    | set => exact ht.set hstep
    | wait => exact ht.wait hstep
    | spurious => exact ht.spurious hstep

end Sound

/-- `sync_wait` gives the outcome of the awaitable, and it does not call `result()` before the
coroutine has done its last step: nothing uses the event or the coroutine after it has returned. -/
theorem sync_wait_outcome (hs : (machine unset).Reachable s) {r : Except ε α}
    (hr : s.waiter.result = some r) : s.mStorage = some r ∧ s.setter = .done := by
  have hsound := Sound.of_reachable hs
  exact ⟨hsound.result r hr, hsound.done (by cases hw : s.waiter <;> simp_all)⟩

/-- The awaitable ends inside of `start()`. -/
def inlinedTrace : List (Action ℕ Unit) :=
  [.complete (.ok 7) true, .set, .set, .set, .set, .wait, .wait, .wait, .wait, .wait]

/-- In the run above the value is returned, and `set` has been left. -/
theorem sync_wait_outcome_inlined : ∃ s,
    (machine (.error ())).run (machine (.error ())).start inlinedTrace = some s ∧
    s.waiter.result = some (.ok 7) ∧ s.mStorage = some (.ok 7) ∧ s.setter = .done :=
  ⟨_, rfl, rfl, sync_wait_outcome (Machine.reachable_of_run (M := machine (.error ()))
    (l := inlinedTrace) rfl) rfl⟩

/-! ## Progress -/

/-- The steps that the completing thread has left. -/
@[simp] def SetterPc.rank : SetterPc → ℕ
  | .running => 5
  | .lock => 4
  | .exchange => 3
  | .notify => 2
  | .unlock => 1
  | .done => 0

/-- How many steps `sync_wait` makes at most before it sleeps or returns. -/
@[simp] def WaiterPc.rank (notified : Bool) : WaiterPc α ε → ℕ
  | .starting => if notified then 6 else 9
  | .locking => if notified then 5 else 8
  | .testing => if notified then 4 else 7
  | .sleeping => 6
  | .waited => 2
  | .resulted _ => 1
  | .returned _ => 0

/-- A bound on the steps of both parties. -/
@[simp] def State.effort (s : State α ε) : ℕ :=
  s.setter.rank + s.waiter.rank s.setter.hasNotified

/-- Each step of the two parties counts, and leaves the outcome alone. -/
lemma effort_lt_set (hstep : set s = some s') :
    s'.effort < s.effort ∧ s'.mStorage = s.mStorage ∧ s'.setter ≠ .running := by
  cases hc : s.setter with
  | running | done => simp [set, hc] at hstep
  | lock =>
    simp only [set, hc, Option.ite_none_right_eq_some, Option.some.injEq] at hstep
    obtain ⟨-, rfl⟩ := hstep
    simp [hc]
  | exchange | unlock =>
    simp only [set, hc, Option.some.injEq] at hstep
    subst hstep
    simp [hc]
  | notify =>
    simp only [set, hc, Option.some.injEq] at hstep
    subst hstep
    cases hw : s.waiter <;> simp [hc, hw]

/-- A step of the caller lowers the effort, and touches neither the result nor the other thread. -/
lemma effort_lt_wait (hs : Sound s) (hstep : wait unset s = some s') :
    s'.effort < s.effort ∧ s'.mStorage = s.mStorage ∧ s'.setter = s.setter := by
  have hset := hs.set_iff
  cases hc : s.waiter with
  | returned r | sleeping => simp [wait, hc] at hstep
  | starting =>
    simp only [wait, hc, Option.ite_none_left_eq_some, Option.some.injEq] at hstep
    obtain ⟨-, rfl⟩ := hstep
    cases hc' : s.setter <;> simp [hc, hc']
  | locking =>
    simp only [wait, hc, Option.ite_none_right_eq_some, Option.some.injEq] at hstep
    obtain ⟨-, rfl⟩ := hstep
    cases hc' : s.setter <;> simp [hc, hc']
  | testing =>
    simp only [wait, hc, Option.some.injEq] at hstep
    subst hstep
    cases hc' : s.setter <;> simp_all
  | waited | resulted r =>
    simp only [wait, hc, Option.some.injEq] at hstep
    subst hstep
    simp [hc]

/-- Where neither party can move, `sync_wait` has returned. -/
lemma returned_of_stuck (hs : Sound s) (hrunning : s.setter ≠ .running) (hset : set s = none)
    (hwait : wait unset s = none) : ∃ r, s.waiter = .returned r := by
  obtain ⟨-, hsetter, hwaiter, -, hasleep, -, -⟩ := hs
  -- whoever holds the mutex can go on
  have hfree : s.setter.holds = false → s.waiter.isTesting = false → s.mMutex = none := by
    intro hholds htesting
    cases hm : s.mMutex with
    | none => rfl
    | some p => cases p <;> simp_all
  have htesting : s.waiter.isTesting = false := by
    cases hw : s.waiter <;> simp_all [wait]
  have hdone : s.setter = .done := by
    cases hc : s.setter <;> simp_all [set]
  cases hw : s.waiter <;> simp_all [wait]

/-- A run of the two parties. -/
lemma effort_of_run {t : State α ε} {l : List (Action α ε)} (hs : (machine unset).Reachable s)
    (hended : s.setter ≠ .running) (hl : ∀ a ∈ l, a = .set ∨ a = .wait)
    (hrun : (machine unset).run s l = some t) : (machine unset).Reachable t ∧
      l.length + t.effort ≤ s.effort ∧ t.mStorage = s.mStorage ∧ t.setter ≠ .running := by
  induction l generalizing s with
  | nil =>
    obtain rfl : s = t := by simpa using hrun
    exact ⟨hs, by simp, rfl, hended⟩
  | cons a l ih =>
    obtain ⟨r, hstep, hrun⟩ := Machine.run_cons.mp hrun
    have hone : r.effort < s.effort ∧ r.mStorage = s.mStorage ∧ r.setter ≠ .running := by
      rcases hl a (by simp) with rfl | rfl
      · exact effort_lt_set hstep
      · obtain ⟨hlt, hstorage, hsetter⟩ := effort_lt_wait (Sound.of_reachable hs) hstep
        exact ⟨hlt, hstorage, hsetter ▸ hended⟩
    obtain ⟨ht, heffort, hstorage, hended'⟩ :=
      ih (hs.tail hstep) hone.2.2 (fun b hb => hl b (by simp [hb])) hrun
    refine ⟨ht, ?_, hstorage.trans hone.2.1, hended'⟩
    simp only [List.length_cons]
    omega

/-- The effort when the awaitable has ended. -/
lemma effort_le (hended : s.setter ≠ .running) : s.effort ≤ 13 := by
  have hsetter : s.setter.rank ≤ 4 := by
    cases hc : s.setter <;> simp_all
  have hwaiter : ∀ notified, s.waiter.rank notified ≤ 9 := by
    intro notified
    cases s.waiter <;> cases notified <;> simp
  exact Nat.add_le_add hsetter (hwaiter _)

/-- Once the awaitable has ended, the two threads make at most 13 steps in whatever order, apart
from spurious wake-ups, and where neither can make another one `sync_wait` has returned the
outcome. -/
theorem sync_wait_returns {t : State α ε} {l : List (Action α ε)}
    (hs : (machine unset).Reachable s) (hended : s.setter ≠ .running)
    (hl : ∀ a ∈ l, a = .set ∨ a = .wait) (hrun : (machine unset).run s l = some t) :
    l.length ≤ 13 ∧ (set t = none → wait unset t = none →
      ∃ r, t.waiter = .returned r ∧ s.mStorage = some r) := by
  obtain ⟨ht, heffort, hstorage, hended'⟩ := effort_of_run hs hended hl hrun
  have hle := effort_le hended
  refine ⟨by omega, fun hset hwait => ?_⟩
  obtain ⟨r, hr⟩ := returned_of_stuck (Sound.of_reachable ht) hended' hset hwait
  exact ⟨r, hr, hstorage ▸ (Sound.of_reachable ht).result r (by rw [hr, WaiterPc.result])⟩

/-- The thread falls asleep and the awaitable ends on another one with the number 7. -/
def asleepTrace : List (Action ℕ Unit) :=
  [.wait, .wait, .wait, .complete (.ok 7) false]

/-- Both go on. -/
def wokenTrace : List (Action ℕ Unit) :=
  [.set, .set, .set, .set, .wait, .wait, .wait, .wait]

/-- From the first of the two runs above the second one leads to the return of the result. -/
theorem sync_wait_returns_woken : ∃ s t,
    (machine (.error ())).run (machine (.error ())).start asleepTrace = some s ∧
    (machine (.error ())).run s wokenTrace = some t ∧
    ∃ r, t.waiter = .returned r ∧ s.mStorage = some r :=
  ⟨_, _, rfl, rfl, (sync_wait_returns (Machine.reachable_of_run (M := machine (.error ()))
    (l := asleepTrace) rfl) (by decide) (by simp [wokenTrace]) (l := wokenTrace) rfl).2 rfl rfl⟩

end Libcoro.SyncWait
