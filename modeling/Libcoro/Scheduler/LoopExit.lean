import Libcoro.Scheduler.Accounting

/-!
# When the event loop leaves

At every instant the two counters together cover all coroutines of the scheduler.  `size()` loads
them one after the other, and a coroutine that moves in between from the counter that is still to
be loaded to the one already loaded is in neither value, so that the loop may leave while it is
suspended (`loop_leaves_pending`).  If the counter that was loaded first is not incremented in
between, the loop leaves only when nothing is pending (`loop_leaves_idle`).
-/

namespace Libcoro.Scheduler.EventLoop

open Foundations

variable {κ ω : Type*}

/-- The counter that a step of anybody but the loop increments. -/
@[simp] def State.addsTo (s : State κ ω) : Action κ ω → Option Counter
  | .spawnDetached _ | .wait _ => some .scheduler
  | .advance k => if s.pc k = .await then some .pool else none
  | .poolAdvance k =>
    match s.pool.pc k with
    | .spawnResume => some .pool
    | _ => none
  | _ => none

/-- While `size()` has loaded one counter as zero and not yet the other, nobody increments the
loaded one. -/
def FirstCounterKept (s : State κ ω) (a : Action κ ω) : Prop :=
  match s.loop with
  | .second c 0 => s.addsTo a ≠ some c
  | _ => True

instance (s : State κ ω) (a : Action κ ω) : Decidable (FirstCounterKept s a) :=
  match h : s.loop with
  | .second c 0 => decidable_of_iff (s.addsTo a ≠ some c) (by simp [FirstCounterKept, h])
  | .second _ (_ + 1) | .test | .size | .events | .resume _ | .rangeLock _ | .rangeUndo _ | .sub
  | .left => isTrue (by simp [FirstCounterKept, h])

/-- No coroutine is queued or executed in the pool, and none is suspended in a timer or poll or
about to be. -/
structure State.Idle (s : State κ ω) : Prop where
  queue : s.pool.mQueue = []
  workers : ∀ w, (s.pool.worker w).hand = [] ∧ (s.pool.worker w).executes = []
  waits : ∀ k, s.pc k ≠ .register ∧ s.pc k ≠ .waiting

variable [DecidableEq κ] [DecidableEq ω]

variable {s s' : State κ ω} {a : Action κ ω}

/-- A step that does not increment the counter `c` while the loop is between its two loads. -/
lemma Transition.counter_le (ht : Transition .processTasksOnThreadPool s a s') {c : Counter}
    {value : ℕ} (hl : s.loop = .second c value) (hadds : s.addsTo a ≠ some c) :
    s'.counter c ≤ s.counter c := by
  cases ht with
  | spawnDetached _ | wait _ =>
    cases c with
    | scheduler => exact (hadds rfl).elim
    | pool => exact le_rfl
  | awaitInline hst _ => simp at hst
  | awaitPool _ hk _ =>
    cases c with
    | scheduler => exact le_rfl
    | pool => simp [hk] at hadds
  | beginRange _ hl' _ _ | lockRange hl' _ | undoRange hl' _ | sub hl' => simp [hl] at hl'
  | poolAdvance hp =>
    cases c with
    | scheduler => exact le_rfl
    | pool =>
      refine (ThreadPool.step_transition hp).mSize_le rfl fun j hj => ?_
      obtain rfl := ThreadPool.Action.advance.inj hj
      intro hspawn
      simp [hspawn] at hadds
  | poolWorker hp | poolShutdown _ hp =>
    cases c with
    | scheduler => exact le_rfl
    | pool => exact (ThreadPool.step_transition hp).mSize_le rfl (by simp)
  | finalSuspend _ _ _ =>
    cases c with
    | scheduler => exact Nat.sub_le _ _
    | pool => exact le_rfl
  | _ => cases c <;> exact le_rfl

/-- The loop comes between its two loads by the first of them, or has been there before. -/
lemma Transition.second (ht : Transition .processTasksOnThreadPool s a s') {c : Counter}
    {value : ℕ} (hl : s'.loop = .second c value) :
    s.loop = .second c value ∨ s'.counter c = value := by
  cases ht with
  | sizeFirst _ _ =>
    obtain ⟨rfl, rfl⟩ := LoopPc.second.inj hl
    exact Or.inr rfl
  | test _ | sizeSecond _ => split_ifs at hl
  | sizeInline hst _ => simp at hst
  | noHandles _ _ | beginResume _ _ _ | resumeHandle _ | resumeDone _ | beginRange _ _ _ _
  | lockRange _ _ | undoRange _ _ | sub _ => simp at hl
  | _ => exact Or.inl hl

/-- What the loop has loaded as zero is still zero. -/
lemma counter_of_reachable
    (h : (machine .processTasksOnThreadPool κ ω).ReachableUnder FirstCounterKept s) :
    ∀ c, s.loop = .second c 0 → s.counter c = 0 := by
  refine h.invariant (I := fun s => ∀ c, s.loop = .second c 0 → s.counter c = 0)
    (by simp [machine, start]) fun s a s' _ hs hG hstep c hl => ?_
  have ht := step_transition hstep
  rcases ht.second hl with hl' | hzero
  · have hadds : s.addsTo a ≠ some c := by simpa [FirstCounterKept, hl'] using hG
    have := ht.counter_le hl' hadds
    have := hs c hl'
    omega
  · exact hzero

/-- Both counters are zero only if nothing is pending. -/
lemma idle_of_counters {strategy : ExecutionStrategy} (h : (machine strategy κ ω).Reachable s)
    (hsize : s.mSize = 0) (hpool : s.pool.mSize = 0) : s.Idle := by
  have hempty := ThreadPool.contents_eq_nil (pool_reachable h).2 hpool
  have hunits : ∀ k, (s.pc k).units ≠ 1 := fun k hk => by
    have := (accounts_of_reachable h).2.mSize_pos hk
    omega
  refine ⟨hempty .queue, fun w => ⟨hempty (.taken w), hempty (.executing w)⟩, fun k => ?_⟩
  constructor
  · intro hk
    exact hunits k (by simp [hk, Pc.units])
  · intro hk
    exact hunits k (by simp [hk, Pc.units])

/-- **The event loop does not leave with work pending.**  In every run in which, between the two
loads of `size()`, nobody increments the counter that was loaded first, the loop leaves only in a
state in which no coroutine is queued or executed in the pool and none is suspended in a timer or
poll. -/
theorem loop_leaves_idle
    (h : (machine .processTasksOnThreadPool κ ω).ReachableUnder FirstCounterKept s)
    (hstep : step .processTasksOnThreadPool s a = some s') (hin : s.loop ≠ .left)
    (hleft : s'.loop = .left) : s'.Idle := by
  cases step_transition hstep with
  | @sizeSecond first c value hl =>
    have hzero : value = 0 ∧ s.counter c.other = 0 := by
      by_contra hpos
      have : 0 < value + s.counter c.other := by omega
      simp [this] at hleft
    obtain ⟨rfl, hother⟩ := hzero
    have hfirst := counter_of_reachable h c hl
    have hidle : s.Idle := by
      cases c with
      | scheduler => exact idle_of_counters h.reachable hfirst hother
      | pool => exact idle_of_counters h.reachable hother hfirst
    exact { hidle with }
  | sizeInline hst _ => simp at hst
  | sizeFirst _ _ | noHandles _ _ | beginResume _ _ _ | resumeHandle _ | resumeDone _
  | beginRange _ _ _ _ | lockRange _ _ | undoRange _ _ | sub _ => simp at hleft
  | test _ => split_ifs at hleft
  | _ => exact (hin hleft).elim

/-- A coroutine is resumed on the only worker, which executes it. -/
def executeSteps : List (Action (Fin 2) (Fin 1)) :=
  [.resume 0 .ready, .advance 0, .advance 0, .poolAdvance 0, .poolAdvance 0] ++
    List.replicate 3 (.poolWorker 0)

/-- The coroutine waits, is collected by the loop and executed again before the loop leaves. -/
def idleTrace : List (Action (Fin 2) (Fin 1)) :=
  executeSteps ++ [.wait 1, .advance 1, .poolWorker 0, .loop .pool, .shutdown, .collect [1]] ++
    List.replicate 4 (.loop .pool) ++ List.replicate 5 (.poolWorker 0) ++
    [.loop .pool, .loop .pool]

lemma idleTrace_leaves : ∃ s s',
    (machine .processTasksOnThreadPool (Fin 2) (Fin 1)).runUnder FirstCounterKept start idleTrace =
      some s ∧
    step .processTasksOnThreadPool s (.loop .pool) = some s' ∧ s.loop = .second .pool 0 ∧
    s'.loop = .left ∧ s'.pool.resumed = [0, 1] :=
  ⟨_, _, rfl, rfl, rfl, rfl, rfl⟩

/-- The loop leaves after the coroutine has been executed for the second time. -/
theorem loop_leaves_idle_executed : ∃ s s',
    (machine .processTasksOnThreadPool (Fin 2) (Fin 1)).runUnder FirstCounterKept start idleTrace =
      some s ∧
    step .processTasksOnThreadPool s (.loop .pool) = some s' ∧ s.loop ≠ .left ∧ s'.loop = .left ∧
    s'.pool.resumed = [0, 1] ∧ s'.Idle := by
  obtain ⟨s, s', hrun, hstep, hloop, hleft, hresumed⟩ := idleTrace_leaves
  have hin : s.loop ≠ .left := by simp [hloop]
  exact ⟨s, s', hrun, hstep, hin, hleft, hresumed,
    loop_leaves_idle (Machine.reachableUnder_of_run hrun) hstep hin hleft⟩

/-- Between the two loads the coroutine moves from the pool to a timer. -/
def pendingTrace : List (Action (Fin 2) (Fin 1)) :=
  executeSteps ++ [.shutdown, .loop .scheduler, .loop .scheduler, .wait 1, .advance 1,
    .poolWorker 0]

/-- The loop leaves while a coroutine is suspended in a timer or poll. -/
theorem loop_leaves_pending : ∃ s s',
    (machine .processTasksOnThreadPool (Fin 2) (Fin 1)).run start pendingTrace = some s ∧
    (machine .processTasksOnThreadPool (Fin 2) (Fin 1)).Reachable s ∧
    step .processTasksOnThreadPool s (.loop .scheduler) = some s' ∧ s.loop ≠ .left ∧
    s'.loop = .left ∧ s'.pc 1 = .waiting :=
  ⟨_, _, rfl, Machine.reachable_of_run (l := pendingTrace) rfl, rfl, by decide, rfl, rfl⟩

end Libcoro.Scheduler.EventLoop
