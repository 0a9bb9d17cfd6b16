import Libcoro.WhenAny.Delivery

/-!
# When `when_any` comes to rest

The coroutine of `when_any`, the controller and the tasks take steps of their own until they wait
for an awaitable.  Each of these steps takes something from `State.work`, so that they come to an
end.  In a state at rest every awaitable that has not completed is being awaited, and if one has
returned, then so has `when_any`.
-/

namespace Libcoro.WhenAny

open Foundations Event Function

variable {n : ℕ} {ε : Type*} {α : Fin n → Type*} {kind : Kind} {stopSource : Bool}
  {s t : State n ε α}

/-! ## The steps of the code -/

/-- A step of the code, neither the completion of an awaitable nor a compare-exchange that fails
without a reason. -/
def Action.Code : Action n ε α → Prop
  | .caller => True
  | .controller => True
  | .destroy => True
  | .task _ => True
  | .complete _ _ => False
  | .spurious => False

instance (b : Action n ε α) : Decidable b.Code := by
  unfold Action.Code
  split <;> infer_instance

/-- Nobody has a step to take. -/
def AtRest (kind : Kind) (stopSource : Bool) (s : State n ε α) : Prop :=
  step kind stopSource s .caller = none ∧ step kind stopSource s .controller = none ∧
    step kind stopSource s .destroy = none ∧ ∀ i, step kind stopSource s (.task i) = none

instance (kind : Kind) (stopSource : Bool) (s : State n ε α) :
    Decidable (AtRest kind stopSource s) :=
  decidable_of_iff ((step kind stopSource s .caller).isNone = true ∧
    (step kind stopSource s .controller).isNone = true ∧
    (step kind stopSource s .destroy).isNone = true ∧
    ∀ i, (step kind stopSource s (.task i)).isNone = true) (by simp [AtRest])

/-- Somebody has a step to take, unless the state is at rest. -/
lemma exists_code_step (h : ¬ AtRest kind stopSource s) :
    ∃ b t, b.Code ∧ step kind stopSource s b = some t := by
  by_contra hnone
  push Not at hnone
  have hrest : ∀ b : Action n ε α, b.Code → step kind stopSource s b = none := fun b hb =>
    Option.eq_none_iff_forall_ne_some.mpr fun t => hnone b t hb
  exact h ⟨hrest _ trivial, hrest _ trivial, hrest _ trivial, fun _ => hrest _ trivial⟩

/-- Only an awaitable that completes has a new outcome. -/
lemma outcome_of_step {b : Action n ε α} (hb : ∀ i r, b ≠ .complete i r)
    (h : step kind stopSource s b = some t) : t.outcome = s.outcome := by
  have htest : (suspendTest stopSource s).outcome = s.outcome := by
    unfold suspendTest
    split_ifs <;> rfl
  cases b with
  | caller =>
    simp only [step, caller] at h
    split at h
    all_goals try split_ifs at h
    all_goals cases h
    all_goals first | rfl | exact htest
  | controller =>
    obtain ⟨a, -, rfl⟩ := Option.map_eq_some_iff.mp h
    rfl
  | destroy =>
    obtain ⟨-, rfl⟩ := by simpa [step] using h
    rfl
  | complete i r => exact (hb i r rfl).elim
  | task i =>
    simp only [step, task] at h
    split at h
    case h_5 =>
      obtain ⟨a, -, rfl⟩ := Option.map_eq_some_iff.mp h
      rfl
    all_goals try split_ifs at h
    all_goals cases h
    all_goals rfl
  | spurious =>
    obtain ⟨-, rfl⟩ := by simpa [step] using h
    exact htest

/-- Who has won stays the winner. -/
lemma wins_of_transition (hraced : Raced kind s) (ht : Transition kind stopSource s t)
    (hwon : s.wins ≠ []) : t.wins = s.wins := by
  cases ht with
  | win _ hfirst => simp [hraced.first.mpr hwon] at hfirst
  | _ => rfl

/-- A `when_any` that has returned does nothing more. -/
lemma returned_of_transition (hraced : Raced kind s) (ht : Transition kind stopSource s t)
    (hret : s.caller = .returned) : t.caller = .returned := by
  cases ht with
  | quiet hq =>
    have hfresh := hq.fresh.1
    rw [hret] at hfresh
    exact hfresh.elim
  | suspend hc | requestStop hc | readValue hc => simp [hret] at hc
  | resume hi => simp [(hraced.suspended_of_resume hi).2.2.1] at hret
  | _ => exact hret

variable {i : Fin n}

/-- The winner has returned a value. -/
lemma outcome_of_wins (h : (machine n ε α kind stopSource).Reachable s)
    (hi : s.wins = [i]) : ∃ a, s.outcome i = some (.ok a) := by
  have hnested := nested_of_reachable h
  cases (raced_of_reachable h).stage with
  | racing hw _ => simp [hw] at hi
  | @writing j hw ht _ =>
    obtain rfl : j = i := by simpa [hw] using hi
    obtain ⟨a, -, ha⟩ := hnested.returned (i := j) (by simp [ht]) (by simp [ht])
    exact ⟨a, ha⟩
  | setting hw _ _ hs | resuming hw _ _ _ hs | settled hw _ _ _ hs =>
    obtain rfl : _ = i := by simpa [hw] using hi
    obtain ⟨a, ha, -⟩ := hs
    exact ⟨a, ha⟩

/-- What `when_any` has returned is the value of the winner, if there is a value. -/
lemma returned_spec (h : (machine n ε α kind stopSource).Reachable s)
    (hret : s.caller = .returned) :
    ∃ i a, s.wins = [i] ∧ s.outcome i = some (.ok a) ∧
      (kind ≠ .voidRange → s.returned = some ⟨i, a⟩) := by
  obtain ⟨i, hw, -, -, a, hout, hvalue⟩ :=
    (raced_of_reachable h).stage.settled_of_past (by simp [hret, CallerPc.Waiting])
  exact ⟨i, a, hw, hout, fun hk => ((awaited_of_reachable h).value hret).trans (hvalue hk)⟩

/-- An awaitable completes once, and nothing else changes that others can see. -/
lemma complete_spec (h : (machine n ε α kind stopSource).Reachable s)
    {r : Except ε (α i)} (hstep : step kind stopSource s (.complete i r) = some t) :
    s.outcome i = none ∧ t.outcome = update s.outcome i (some r) ∧ t.wins = s.wins ∧
      t.caller = s.caller := by
  simp only [step, complete] at hstep
  split_ifs at hstep with hi
  refine ⟨?_, ?_⟩
  · have hholds := (nested_of_reachable h).holds i
    rwa [hi.2] at hholds
  · cases r with
    | ok a | error e =>
      cases hstep
      exact ⟨rfl, rfl, rfl⟩

/-! ## The work that is left -/

/-- The steps that the coroutine of `when_any` may still take, its resumption included. -/
@[simp] def CallerPc.work : CallerPc → ℕ
  | .controller => 7
  | .awaitReady => 6
  | .suspendLoad => 5
  | .suspendExchange => 4
  | .suspended => 3
  | .requestStop => 2
  | .readValue => 1
  | .returned => 0

/-- The steps that the controller may still take in its `co_await`. -/
def awaiterWork (n : ℕ) : WhenAll.AwaiterPc → ℕ
  | .awaitReady => n + 3
  | .starting k => n - k + 2
  | .tryAwait => 1
  | _ => 0

/-- The steps of a task from the return of its awaitable to its end; after the last one it has to
notify the latch. -/
@[simp] def TaskPc.work : TaskPc → ℕ
  | .exchange => 7
  | .write => 6
  | .set => 5
  | .resume => 4
  | _ => 0

/-- The steps of a task of `when_all` after its awaitable has completed. -/
def notifyWork : WhenAll.TaskPc → ℕ
  | .notifying => 2
  | .resuming => 1
  | _ => 0

/-- The work of the `i`-th task. -/
@[simp] def State.taskWork (s : State n ε α) (i : Fin n) : ℕ :=
  (s.task i).work + notifyWork (s.all.task i)

/-- The work that is left if no awaitable completes. -/
def State.work (s : State n ε α) : ℕ :=
  s.caller.work + awaiterWork n s.all.awaiter + (if s.controllerFrame then 1 else 0) +
    ∑ i, s.taskWork i

lemma notified_work : (notified stopSource).work ≤ 2 := by
  cases stopSource <;> decide

lemma won_work : kind.won.work ≤ 6 := by
  cases kind <;> decide

/-- One task has less to do and the others have as much as before. -/
lemma sum_taskWork_lt (hi : t.taskWork i < s.taskWork i)
    (hother : ∀ j, j ≠ i → t.taskWork j = s.taskWork j) :
    ∑ j, t.taskWork j < ∑ j, s.taskWork j := by
  refine Finset.sum_lt_sum (fun j _ => ?_) ⟨i, Finset.mem_univ i, hi⟩
  rcases eq_or_ne j i with rfl | hj
  · exact hi.le
  · exact (hother j hj).le

/-- A task moves on, and perhaps it resumes the coroutine of `when_any`. -/
lemma work_lt_of_task (hcaller : t.caller.work ≤ s.caller.work)
    (hawaiter : awaiterWork n t.all.awaiter ≤ awaiterWork n s.all.awaiter)
    (hframe : t.controllerFrame = s.controllerFrame) (hi : t.taskWork i < s.taskWork i)
    (hother : ∀ j, j ≠ i → t.taskWork j = s.taskWork j) : t.work < s.work := by
  have hsum := sum_taskWork_lt hi hother
  unfold State.work
  rw [hframe]
  omega

/-- A task that ends has to notify the latch, which is less than it had to do. -/
lemma finish_taskWork_lt {r : Except ε Unit} (hi : 3 ≤ (s.task i).work) :
    (s.finish i r).taskWork i < s.taskWork i := by
  have htwo : (s.finish i r).taskWork i = 2 := by
    simp [WhenAll.complete, notifyWork]
  unfold State.taskWork at htwo ⊢
  omega

lemma finish_taskWork_of_ne {j : Fin n} {r : Except ε Unit} (hj : j ≠ i) :
    (s.finish i r).taskWork j = s.taskWork j := by
  simp [WhenAll.complete, hj]

/-- Every step of the coroutine of `when_any` is work done. -/
lemma caller_work_lt (hraced : Raced kind s) (h : caller stopSource s = some t) :
    t.work < s.work := by
  -- only the control point matters
  have moves : ∀ u : State n ε α, u.all = s.all → u.task = s.task →
      u.controllerFrame = s.controllerFrame → u.caller.work < s.caller.work → u.work < s.work := by
    intro u hall htask hframe hlt
    have hsum : ∀ i, u.taskWork i = s.taskWork i := fun i => by
      simp only [State.taskWork, hall, htask]
    simp only [State.work, hsum, hall, hframe]
    omega
  have hnotified : (notified stopSource).work ≤ 2 := notified_work
  have htest : ∀ {p}, s.caller = p → 4 ≤ p.work → (s.notify ≠ .this → 5 ≤ p.work) →
      (suspendTest stopSource s).work < s.work := by
    intro p hp hfour hfive
    unfold suspendTest
    split_ifs with hset
    · refine moves _ rfl rfl rfl ?_
      rw [hp]
      change (notified stopSource).work < p.work
      omega
    · refine moves _ rfl rfl rfl ?_
      rw [hp]
      exact hfive hset
  unfold caller at h
  split at h <;> rename_i hc
  · split_ifs at h
    cases h
    exact moves _ rfl rfl rfl (by simp [hc])
  · split_ifs at h <;> cases h
    · refine moves _ rfl rfl rfl ?_
      rw [hc]
      exact lt_of_le_of_lt hnotified (by decide)
    · exact moves _ rfl rfl rfl (by simp [hc])
  · cases h
    exact htest hc (by decide) fun _ => by decide
  · split_ifs at h with hnull <;> cases h
    · exact moves _ rfl rfl rfl (by simp [hc])
    · -- nobody but this coroutine can be on the list
      refine htest hc (by decide) fun hset => ?_
      have hawaiter : s.notify ≠ .awaiter () := by
        intro hawaiter
        cases hraced.stage with
        | racing _ ho | writing _ _ ho | setting _ _ ho _ =>
          simp [ho.suspended.mpr hawaiter] at hc
        | resuming _ _ hn _ _ | settled _ _ hn _ _ => exact hset hn
      cases hn : s.notify with
      | null => exact (hnull hn).elim
      | this => exact (hset hn).elim
      | awaiter a => exact (hawaiter hn).elim
  · cases h
    exact moves _ rfl rfl rfl (by simp [hc])
  · cases h
    exact moves _ rfl rfl rfl (by simp [hc])
  all_goals cases h

/-- Every step of the controller is work done. -/
lemma controller_work_lt {a : WhenAll.State n ε fun _ => Unit}
    (h : WhenAll.await kind.form s.all = some a) : { s with all := a }.work < s.work := by
  have moves : ∀ b : WhenAll.State n ε fun _ => Unit,
      (∀ i, notifyWork (b.task i) ≤ notifyWork (s.all.task i)) →
      awaiterWork n b.awaiter < awaiterWork n s.all.awaiter →
      { s with all := b }.work < s.work := by
    intro b htask hlt
    have hsum : ∑ i, { s with all := b }.taskWork i ≤ ∑ i, s.taskWork i :=
      Finset.sum_le_sum fun i _ => Nat.add_le_add_left (htask i) _
    unfold State.work
    dsimp only at hsum ⊢
    omega
  unfold WhenAll.await at h
  split at h <;> rename_i ha
  · split_ifs at h <;> cases h <;>
      exact moves _ (fun _ => le_rfl) (by simp [ha, awaiterWork])
  · split_ifs at h with hk <;> cases h
    · refine moves _ (fun i => ?_) ?_
      · rcases eq_or_ne i ⟨_, hk⟩ with rfl | hi
        · simp [notifyWork]
        · simp [hi]
      · simp only [ha, awaiterWork]
        omega
    · exact moves _ (fun _ => le_rfl) (by simp [ha, awaiterWork])
  · cases h
    refine moves _ (fun _ => le_rfl) ?_
    dsimp only
    split_ifs <;> simp [ha, awaiterWork]
  all_goals cases h

/-- Every step of a task is work done. -/
lemma task_work_lt (hraced : Raced kind s) (h : task kind stopSource s i = some t) :
    t.work < s.work := by
  -- a task that goes on without an end changes its control point only
  have moves : ∀ (u : State n ε α) (p : TaskPc), u.caller = s.caller → u.all = s.all →
      u.controllerFrame = s.controllerFrame → u.task = update s.task i p →
      p.work < (s.task i).work → u.work < s.work := by
    intro u p hcaller hall hframe htask hlt
    refine work_lt_of_task (by rw [hcaller]) (by rw [hall]) hframe (i := i) ?_ fun j hj => ?_
    · simp only [State.taskWork, hall, htask, update_self]
      omega
    · simp [hall, htask, hj]
  -- a task that ends leaves the coroutine of `when_any` alone or resumes it
  have ends : ∀ u : State n ε α, u.caller.work ≤ s.caller.work →
      u.all = (s.finish i (.ok ())).all → u.task = (s.finish i (.ok ())).task →
      u.controllerFrame = s.controllerFrame → 3 ≤ (s.task i).work → u.work < s.work := by
    intro u hcaller hall htask hframe hthree
    have hwork : ∀ j, u.taskWork j = (s.finish i (.ok ())).taskWork j := fun j => by
      simp only [State.taskWork, hall, htask]
    refine work_lt_of_task hcaller (by rw [hall]; exact le_rfl) hframe (i := i) ?_ fun j hj => ?_
    · rw [hwork]
      exact finish_taskWork_lt hthree
    · rw [hwork]
      exact finish_taskWork_of_ne hj
  unfold task at h
  split at h <;> rename_i hi
  · split_ifs at h <;> cases h
    · exact ends _ le_rfl rfl rfl rfl (by simp [hi])
    · refine moves _ _ rfl rfl rfl rfl ?_
      rw [hi]
      exact lt_of_le_of_lt won_work (by decide)
  · cases h
    exact moves _ _ rfl rfl rfl rfl (by simp [hi])
  · split_ifs at h <;> cases h
    · exact moves _ _ rfl rfl rfl rfl (by simp [hi])
    · exact ends _ le_rfl rfl rfl rfl (by simp [hi])
  · cases h
    refine ends _ ?_ rfl rfl rfl (by simp [hi])
    rw [(hraced.suspended_of_resume hi).2.2.1]
    exact notified_work.trans (by decide)
  · obtain ⟨a, ha, rfl⟩ := Option.map_eq_some_iff.mp h
    unfold WhenAll.notify at ha
    split at ha <;> rename_i hall
    · cases ha
      refine work_lt_of_task le_rfl le_rfl rfl (i := i) ?_ fun j hj => ?_
      · simp only [State.taskWork, hall, update_self]
        split_ifs <;> simp [notifyWork]
      · simp [hj]
    · split_ifs at ha
      cases ha
      refine work_lt_of_task le_rfl (Nat.zero_le _) rfl (i := i) ?_ fun j hj => ?_
      · simp [hall, notifyWork]
      · simp [hj]
    all_goals cases ha
  · cases h

/-- Every step of the code is work done. -/
lemma code_work_lt (hraced : Raced kind s) {b : Action n ε α} (hb : b.Code)
    (h : step kind stopSource s b = some t) : t.work < s.work := by
  cases b with
  | caller => exact caller_work_lt hraced h
  | controller =>
    obtain ⟨a, ha, rfl⟩ := Option.map_eq_some_iff.mp h
    exact controller_work_lt ha
  | destroy =>
    obtain ⟨⟨-, hframe⟩, rfl⟩ := by simpa [step] using h
    simp [State.work, hframe]
  | task i => exact task_work_lt hraced h
  | complete i r | spurious => exact hb.elim

/-! ## States at rest -/

namespace AtRest

/-- The controller has returned control to the coroutine of `when_any`. -/
lemma controllerLeft (h : AtRest kind stopSource s) : s.controllerLeft := by
  obtain ⟨-, hcontroller, hdestroy, -⟩ := h
  have hawait : WhenAll.await kind.form s.all = none := Option.map_eq_none_iff.mp hcontroller
  unfold State.controllerLeft
  unfold WhenAll.await at hawait
  split at hawait <;> rename_i ha
  · split_ifs at hawait
  · split_ifs at hawait
  · cases hawait
  · exact Or.inl ha
  · exact Or.inr (Or.inl ha)
  · simpa [step, ha] using hdestroy

/-- An awaitable that has not completed is being awaited. -/
lemma running (h : AtRest kind stopSource s) (hr : (machine n ε α kind stopSource).Reachable s)
    {i : Fin n} (hi : s.outcome i = none) : s.all.task i = .running ∧ s.task i = .awaiting := by
  have hnested := nested_of_reachable hr
  have hawaiting : s.task i = .awaiting := by
    have hholds := hnested.holds i
    rw [hi] at hholds
    cases htask : s.task i with
    | awaiting => rfl
    | _ => simp [htask, TaskPc.Holds] at hholds
  refine ⟨?_, hawaiting⟩
  have hended := (hnested.ended i).not.mp (by simp [hawaiting])
  cases hall : s.all.task i with
  | running => rfl
  | created =>
    -- the controller has yet to start the task
    have hbefore := ((WhenAll.latched_of_reachable hnested.all).created i).mp hall
    rcases h.controllerLeft with ha | ha | ha
    · simp [ha] at hbefore
    · simp [ha] at hbefore
    · rcases (awaited_of_reachable hr).frame ha with ha | ha <;>
        simp [ha] at hbefore
  | _ => simp [hall, WhenAll.TaskPc.Completed] at hended

/-- If an awaitable has returned, then one of them has won. -/
lemma wins_ne_nil (h : AtRest kind stopSource s) (hr : (machine n ε α kind stopSource).Reachable s)
    {i : Fin n} {a : α i} (hi : s.outcome i = some (.ok a)) : s.wins ≠ [] := by
  have htask := h.2.2.2 i
  simp only [step, task] at htask
  split at htask <;> rename_i hpc
  · split_ifs at htask
  · cases htask
  · split_ifs at htask
  · cases htask
  · exact (raced_of_reachable hr).lost i a hpc hi
  · have hholds := (nested_of_reachable hr).holds i
    simp [hpc, TaskPc.Holds, hi] at hholds

/-- If an awaitable has won, then `when_any` has returned. -/
lemma returned (h : AtRest kind stopSource s) (hr : (machine n ε α kind stopSource).Reachable s)
    (hwon : s.wins ≠ []) : s.caller = .returned := by
  obtain ⟨hcaller, -, -, htask⟩ := id h
  cases (raced_of_reachable hr).stage with
  | racing hw _ => exact (hwon hw).elim
  | @writing i _ hi _ | @resuming i _ hi _ _ _ => simpa [step, task, hi] using htask i
  | @setting i _ hi _ _ =>
    have hnone := htask i
    simp only [step, task, hi] at hnone
    split_ifs at hnone
  | settled _ _ hset hsusp _ =>
    simp only [step, caller, suspendTest] at hcaller
    split at hcaller <;> rename_i hc
    · simp [h.controllerLeft] at hcaller
    · simp [hset] at hcaller
    · simp at hcaller
    · simp [hset] at hcaller
    · cases hcaller
    · cases hcaller
    · exact (hsusp hc).elim
    · exact hc

end AtRest

/-- From every state the steps of the code lead to a state at rest. -/
lemma exists_atRest (h : (machine n ε α kind stopSource).Reachable s) :
    ∃ t, (machine n ε α kind stopSource).Path (fun _ b => b.Code) s t ∧
      (machine n ε α kind stopSource).Reachable t ∧ AtRest kind stopSource t := by
  refine Machine.exists_path_of_measure State.work ?_ h
  intro s hs hnot
  obtain ⟨b, t, hb, hstep⟩ := exists_code_step hnot
  exact ⟨b, t, hb, hstep, hs.tail hstep, code_work_lt (raced_of_reachable hs) hb hstep⟩

end Libcoro.WhenAny
