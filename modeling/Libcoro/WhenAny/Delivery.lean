import Libcoro.WhenAny.Race

/-!
# What `when_any` returns

`when_any` returns what the winner of `first_completed` has returned, and nobody touches `notify` or
`return_value` once it is past its `co_await` (`when_any_first_result`).

If no awaitable returns there is no winner, and then nobody sets `notify`: the exceptions end in the
promises of the tasks, and the coroutine of `when_any` stays suspended after everything has
completed (`suspended_after_all_thrown`).  One awaitable that returns is enough
(`when_any_completes`).
-/

namespace Libcoro.WhenAny

open Foundations Event

variable {n : ℕ} {ε : Type*} {α : Fin n → Type*} {kind : Kind} {stopSource : Bool}
  {s t : State n ε α}

/-! ## The coroutine of `when_any` -/

/-- The coroutine of `when_any` has not been suspended yet and may still be. -/
def CallerPc.Fresh : CallerPc → Prop
  | .controller => True
  | .awaitReady => True
  | .suspendLoad => True
  | .suspendExchange => True
  | _ => False

/-- What the coroutine of `when_any` has done, and the frame of the controller. -/
structure Awaited (s : State n ε α) : Prop where
  count : s.suspensions = s.resumptions + if s.caller = .suspended then 1 else 0
  fresh : s.caller.Fresh → s.suspensions = 0
  once : s.suspensions ≤ 1
  stop : s.stopRequested = true → ¬ s.caller.Waiting
  value : s.caller = .returned → s.returned = s.returnValue
  frame : s.controllerFrame = false → s.all.awaiter = .resumed ∨ s.all.awaiter = .continued

/-- The coroutine of `when_any` moves quietly only before it has been suspended, and not to its
end. -/
lemma Quiet.fresh {q p : CallerPc} (h : Quiet stopSource s q p) :
    q.Fresh ∧ q.Waiting ∧ p ≠ .returned := by
  cases h with
  | ready | loadSet | reloadSet => exact ⟨trivial, trivial, by cases stopSource <;> nofun⟩
  | _ => exact ⟨trivial, trivial, nofun⟩

/-- Once `co_await` has returned in the controller, it does not begin to wait again. -/
lemma await_eq_none {form : WhenAll.Form} {a : WhenAll.State n ε fun _ => Unit}
    (h : a.awaiter = .resumed ∨ a.awaiter = .continued) : WhenAll.await form a = none := by
  rcases h with h | h <;> simp [WhenAll.await, h]

/-- A task of `when_all` resumes the controller or leaves it alone. -/
lemma notify_awaiter {a b : WhenAll.State n ε fun _ => Unit} {i : Fin n}
    (h : WhenAll.notify a i = some b) : b.awaiter = .resumed ∨ b.awaiter = a.awaiter := by
  unfold WhenAll.notify at h
  split at h
  · cases h
    exact Or.inr rfl
  · split_ifs at h
    cases h
    exact Or.inl rfl
  all_goals simp at h

namespace Awaited

/-- Every transition keeps the account of the coroutine of `when_any`. -/
lemma transition (h : Awaited s) (hraced : Raced kind s) (ht : Transition kind stopSource s t) :
    Awaited t := by
  have hcount := h.count
  cases ht with
  | quiet hq =>
    obtain ⟨hfresh, hwait, hp⟩ := hq.fresh
    obtain ⟨hold, hnew, -⟩ := hq.spec
    have hzero := h.fresh hfresh
    exact ⟨by simpa [hold, hnew] using hcount, fun _ => hzero, h.once,
      fun hstop => (h.stop hstop hwait).elim, fun hret => (hp hret).elim, h.frame⟩
  | suspend hc _ =>
    have hzero := h.fresh (by simp [hc, CallerPc.Fresh])
    have hequal : s.suspensions = s.resumptions := by simpa [hc] using hcount
    refine ⟨by simp [hequal], by simp [CallerPc.Fresh], by simp [hzero], fun hstop => ?_, by simp,
      h.frame⟩
    exact (h.stop hstop (by simp [hc, CallerPc.Waiting])).elim
  | requestStop hc =>
    exact ⟨by simpa [hc] using hcount, by simp [CallerPc.Fresh], h.once, by simp [CallerPc.Waiting],
      by simp, h.frame⟩
  | readValue hc =>
    exact ⟨by simpa [hc] using hcount, by simp [CallerPc.Fresh], h.once, by simp [CallerPc.Waiting],
      fun _ => rfl, h.frame⟩
  | controller hawait =>
    refine ⟨hcount, h.fresh, h.once, h.stop, h.value, fun hframe => ?_⟩
    simp [await_eq_none (h.frame hframe)] at hawait
  | destroy hdone => exact ⟨hcount, h.fresh, h.once, h.stop, h.value, fun _ => hdone⟩
  | @write i hi =>
    have hopen := (hraced.open_of_write hi).2
    refine ⟨hcount, h.fresh, h.once, h.stop, fun hret => ?_, h.frame⟩
    have hwait := hopen.caller
    rw [show s.caller = .returned from hret] at hwait
    exact hwait.elim
  | @resume i hi =>
    obtain ⟨-, -, hc, -⟩ := hraced.suspended_of_resume hi
    have hmore : s.suspensions = s.resumptions + 1 := by simpa [hc] using hcount
    have hnew : notified stopSource ≠ .suspended := by cases stopSource <;> simp [notified]
    refine ⟨by simpa [hnew] using hmore, ?_, h.once, fun hstop => ?_, ?_, h.frame⟩
    · cases stopSource <;> simp [notified, CallerPc.Fresh]
    · exact (h.stop hstop (by simp [hc, CallerPc.Waiting])).elim
    · cases stopSource <;> simp [notified]
  | @notify i a _ hnotify =>
    refine ⟨hcount, h.fresh, h.once, h.stop, h.value, fun hframe => ?_⟩
    rcases notify_awaiter hnotify with ha | ha
    · exact Or.inl ha
    · simpa [ha] using h.frame hframe
  | _ => exact ⟨hcount, h.fresh, h.once, h.stop, h.value, h.frame⟩

end Awaited

/-- The account of the coroutine of `when_any` is right in every reachable state. -/
lemma awaited_of_reachable (h : (machine n ε α kind stopSource).Reachable s) : Awaited s := by
  refine h.invariant ?_ ?_
  · exact ⟨rfl, fun _ => rfl, Nat.zero_le 1, nofun, nofun, nofun⟩
  · intro s a t hr hs hstep
    exact hs.transition (raced_of_reachable hr) (step_transition hstep)

/-! ## After everything has completed -/

/-- The steps of the coroutine of `when_any` and of the controller. -/
def Action.Own : Action n ε α → Prop
  | .caller => True
  | .controller => True
  | .destroy => True
  | _ => False

/-- The steps that the coroutine of `when_any` has yet to take once `notify` has been set. -/
def CallerPc.ahead : CallerPc → ℕ
  | .controller => 5
  | .awaitReady => 4
  | .suspendLoad => 3
  | .suspendExchange => 3
  | .requestStop => 2
  | .readValue => 1
  | _ => 0

/-- The steps that the controller has yet to take in its `co_await` once it has started all
tasks. -/
def ahead : WhenAll.AwaiterPc → ℕ
  | .starting _ => 2
  | .tryAwait => 1
  | _ => 0

/-- The steps that are left once all tasks are done. -/
def State.ahead (s : State n ε α) : ℕ :=
  s.caller.ahead + WhenAny.ahead s.all.awaiter + if s.controllerFrame then 1 else 0

/-- All tasks are done, and the `i`-th one has won with the value `a`. -/
structure Finished (kind : Kind) (stopSource : Bool) (i : Fin n) (a : α i) (s : State n ε α) :
    Prop where
  reachable : (machine n ε α kind stopSource).Reachable s
  done : ∀ j, s.all.task j = .done
  wins : s.wins = [i]
  outcome : s.outcome i = some (.ok a)

namespace Finished

variable {i : Fin n} {a : α i}

/-- When all tasks are done, one of those that have returned has won. -/
lemma of_returned (h : (machine n ε α kind stopSource).Reachable s)
    (hdone : ∀ i, s.all.task i = .done) (hok : ∃ i a, s.outcome i = some (.ok a)) :
    ∃ i a, Finished kind stopSource i a s := by
  have hnested := nested_of_reachable h
  have hraced := raced_of_reachable h
  have hended : ∀ i, s.task i = .ended := fun i =>
    (hnested.ended i).mpr (by simp [hdone i, WhenAll.TaskPc.Completed])
  obtain ⟨j, b, hj⟩ := hok
  have hwon := hraced.lost j b (hended j) hj
  cases hraced.stage with
  | racing hw _ => exact (hwon hw).elim
  | writing _ hi _ | setting _ hi _ _ | resuming _ hi _ _ _ => simp [hended] at hi
  | settled hw _ _ _ hs =>
    obtain ⟨a, hout, -⟩ := hs
    exact ⟨_, a, h, hdone, hw, hout⟩

/-- When all tasks are done, `notify` has been set and nobody waits for it. -/
lemma settled (h : Finished kind stopSource i a s) :
    s.notify = .this ∧ s.caller ≠ .suspended ∧
      (kind ≠ .voidRange → s.returnValue = some ⟨i, a⟩) := by
  have hended : s.task i = .ended :=
    ((nested_of_reachable h.reachable).ended i).mpr (by simp [h.done i, WhenAll.TaskPc.Completed])
  have hwins := h.wins
  cases (raced_of_reachable h.reachable).stage with
  | racing hw _ => simp [hw] at hwins
  | writing hw hi _ | setting hw hi _ _ | resuming hw hi _ _ _ =>
    obtain rfl : _ = i := by simpa [hw] using hwins
    simp [hended] at hi
  | settled hw _ hn hc hs =>
    obtain rfl : _ = i := by simpa [hw] using hwins
    obtain ⟨b, hout, hvalue⟩ := hs
    obtain rfl : a = b := by simpa [h.outcome] using hout
    exact ⟨hn, hc, hvalue⟩

/-- A step that leaves the tasks alone. -/
lemma tail (h : Finished kind stopSource i a s) {b : Action n ε α}
    (hstep : step kind stopSource s b = some t) (htask : t.all.task = s.all.task)
    (hwins : t.wins = s.wins) (hout : t.outcome = s.outcome) : Finished kind stopSource i a t :=
  ⟨h.reachable.tail hstep, htask ▸ h.done, hwins.trans h.wins, by rw [hout, h.outcome]⟩

/-- As long as the controller has not returned control, it has a step to take. -/
lemma exists_controller_step (h : Finished kind stopSource i a s) (hleft : ¬ s.controllerLeft) :
    ∃ b t, b.Own ∧ step kind stopSource s b = some t ∧ Finished kind stopSource i a t ∧
      t.ahead < s.ahead := by
  obtain ⟨hsusp, hres, hframe⟩ : s.all.awaiter ≠ .suspended ∧ s.all.awaiter ≠ .resumed ∧
      s.controllerFrame = true := by simpa [State.controllerLeft] using hleft
  -- all tasks have been started
  have hstarted : ∀ j : Fin n, ¬ s.all.awaiter.Before j := by
    intro j hj
    have hcreated := ((WhenAll.latched_of_reachable (nested_of_reachable h.reachable).all).created
      j).mpr hj
    simp [h.done j] at hcreated
  cases hc : s.all.awaiter with
  | awaitReady => exact (hstarted i (by simp [hc])).elim
  | suspended => exact (hsusp hc).elim
  | resumed => exact (hres hc).elim
  | starting k =>
    have hk : ¬ k < n := fun hk =>
      hstarted ⟨k, hk⟩ (by simp [hc])
    have hstep : step kind stopSource s .controller = some { s with
        all := { s.all with mAwaitingCoroutine := true, awaiter := .tryAwait } } := by
      simp [step, WhenAll.await, hc, hk]
    exact ⟨.controller, _, trivial, hstep, h.tail hstep rfl rfl rfl,
      by simp [State.ahead, WhenAny.ahead, hc]⟩
  | tryAwait =>
    have hstep : step kind stopSource s .controller = some { s with
        all := { s.all with
          mCount := s.all.mCount - 1
          awaiter := if s.all.mCount > 1 then .suspended else .continued } } := by
      simp [step, WhenAll.await, hc]
    refine ⟨.controller, _, trivial, hstep, h.tail hstep rfl rfl rfl, ?_⟩
    by_cases hlast : s.all.mCount > 1 <;> simp [State.ahead, WhenAny.ahead, hc, hlast]
  | continued =>
    have hstep : step kind stopSource s .destroy = some { s with controllerFrame := false } := by
      simp [step, hc, hframe]
    exact ⟨.destroy, _, trivial, hstep, h.tail hstep rfl rfl rfl, by simp [State.ahead, hframe]⟩

/-- As long as the coroutine of `when_any` has not returned, it or the controller has a step to
take. -/
lemma exists_step (h : Finished kind stopSource i a s) (hret : s.caller ≠ .returned) :
    ∃ b t, b.Own ∧ step kind stopSource s b = some t ∧ Finished kind stopSource i a t ∧
      t.ahead < s.ahead := by
  obtain ⟨hset, hsusp, -⟩ := h.settled
  -- every step of the coroutine itself only moves its control point and its history
  have moves : ∀ t : State n ε α, caller stopSource s = some t → t.all = s.all →
      t.wins = s.wins → t.outcome = s.outcome → t.controllerFrame = s.controllerFrame →
      t.caller.ahead < s.caller.ahead →
      ∃ b t, b.Own ∧ step kind stopSource s b = some t ∧ Finished kind stopSource i a t ∧
        t.ahead < s.ahead := by
    intro t hstep hall hwins hout hframe hlt
    refine ⟨.caller, t, trivial, hstep, h.tail (b := .caller) hstep (by rw [hall]) hwins hout, ?_⟩
    simp only [State.ahead, hall, hframe]
    omega
  have hnotified : (notified stopSource).ahead < 3 := by cases stopSource <;> decide
  cases hc : s.caller with
  | controller =>
    by_cases hleft : s.controllerLeft
    · exact moves { s with caller := .awaitReady } (by simp [caller, hc, hleft]) rfl rfl rfl rfl
        (by simp [hc, CallerPc.ahead])
    · exact h.exists_controller_step hleft
  | awaitReady =>
    exact moves { s with caller := notified stopSource } (by simp [caller, hc, hset])
      rfl rfl rfl rfl (hnotified.trans (by simp [hc, CallerPc.ahead]))
  | suspendLoad | suspendExchange =>
    exact moves { s with caller := notified stopSource } (by simp [caller, hc, suspendTest, hset])
      rfl rfl rfl rfl (by simpa [hc, CallerPc.ahead] using hnotified)
  | suspended => exact (hsusp hc).elim
  | requestStop =>
    exact moves { s with stopRequested := true, caller := .readValue } (by simp [caller, hc])
      rfl rfl rfl rfl (by simp [hc, CallerPc.ahead])
  | readValue =>
    exact moves { s with returned := s.returnValue, caller := .returned } (by simp [caller, hc])
      rfl rfl rfl rfl (by simp [hc, CallerPc.ahead])
  | returned => exact (hret hc).elim

end Finished

/-- The coroutine of `when_any` is not left waiting: one task has won, and without any further step
of a task or of an awaitable `when_any` returns the value of the winner. -/
def Completes (kind : Kind) (stopSource : Bool) (s : State n ε α) : Prop :=
  ∃ i a, s.wins = [i] ∧ s.outcome i = some (.ok a) ∧ s.caller ≠ .suspended ∧
    ∃ t, (machine n ε α kind stopSource).Path (fun _ b => b.Own) s t ∧ t.caller = .returned ∧
      t.wins = [i] ∧ (kind ≠ .voidRange → t.returned = some ⟨i, a⟩)

/-- A finished `when_any` returns. -/
lemma Finished.completes {i : Fin n} {a : α i} (h : Finished kind stopSource i a s) :
    Completes kind stopSource s := by
  obtain ⟨t, hpath, ht, hret⟩ := Machine.exists_path_of_measure (M := machine n ε α kind stopSource)
    (G := fun _ b => b.Own) State.ahead (fun s hs hnot => hs.exists_step hnot) h
  refine ⟨i, a, h.wins, h.outcome, h.settled.2.1, t, hpath, hret, ht.wins, fun hk => ?_⟩
  exact ((awaited_of_reachable ht.reachable).value hret).trans (ht.settled.2.2 hk)

/-! ## The first result -/

/-- What `when_any` owes to the coroutine that awaits it and to its tasks. -/
structure FirstResult (kind : Kind) (stopSource : Bool) (s : State n ε α) : Prop where
  -- At most one task wins `first_completed`.
  one : s.wins.length ≤ 1 ∧ (s.firstCompleted = true ↔ s.wins ≠ [])
  -- If all awaitables have returned, exactly one has won, and `when_any` returns its value.
  completes : 0 < n → (∀ i, s.all.task i = .done) → (∀ i, ∃ a, s.outcome i = some (.ok a)) →
    Completes kind stopSource s
  -- What is returned is the value of the winner, with its index.
  returned : s.caller = .returned → ∃ i a, s.wins = [i] ∧ s.outcome i = some (.ok a) ∧
    (kind ≠ .voidRange → s.returned = some ⟨i, a⟩)
  -- The coroutine of `when_any` is suspended at most once and then resumed once.
  resumed : s.suspensions ≤ 1 ∧ s.resumptions ≤ s.suspensions ∧
    (s.caller = .returned → s.resumptions = s.suspensions)
  -- `return_value` has been written before `notify` is set.
  written : s.notify = .this → ∃ i, s.wins = [i] ∧ Stored kind s i
  -- A task that accesses `return_value` or `notify`, or the node that awaits `notify`, finds the
  -- coroutine of `when_any` before its resumption.
  accesses : ∀ i, (s.task i = .write ∨ s.task i = .set → s.notify ≠ .this ∧ s.caller.Waiting) ∧
    (s.task i = .resume → s.caller = .suspended)
  -- `request_stop` is called after the winner has completed.
  stop : s.stopRequested = true → ∃ i a, s.wins = [i] ∧ s.outcome i = some (.ok a) ∧
    s.task i = .ended
  -- The frame of the controller is there until all tasks are done, and `first_completed` with it.
  frame : s.controllerFrame = false → ∀ i, s.all.task i = .done ∧ s.task i = .ended

/-- In every run of `when_any`, in each of its forms, with or without a stop source, the first
result is returned and nothing else touches it. -/
theorem when_any_first_result (h : (machine n ε α kind stopSource).Reachable s) :
    FirstResult kind stopSource s := by
  have hnested := nested_of_reachable h
  have hraced := raced_of_reachable h
  have hawaited := awaited_of_reachable h
  refine ⟨⟨?_, hraced.first⟩, ?_, ?_, ⟨hawaited.once, ?_, ?_⟩, ?_, fun i => ⟨?_, ?_⟩, ?_, ?_⟩
  · cases hraced.stage with
    | racing hw | writing hw | setting hw | resuming hw | settled hw => simp [hw]
  · intro hn hdone hok
    obtain ⟨i, a, hfinished⟩ := Finished.of_returned h hdone ⟨⟨0, hn⟩, hok _⟩
    exact hfinished.completes
  · intro hret
    obtain ⟨i, hw, -, -, a, hout, hvalue⟩ :=
      hraced.stage.settled_of_past (by simp [hret, CallerPc.Waiting])
    exact ⟨i, a, hw, hout, fun hk => (hawaited.value hret).trans (hvalue hk)⟩
  · have hcount := hawaited.count
    omega
  · intro hret
    simpa [hret] using hawaited.count.symm
  · intro hset
    cases hraced.stage with
    | racing _ ho | writing _ _ ho | setting _ _ ho _ => exact (ho.notify hset).elim
    | resuming hw _ _ _ hs | settled hw _ _ _ hs => exact ⟨_, hw, hs⟩
  · rintro (hi | hi)
    · have hopen := (hraced.open_of_write hi).2
      exact ⟨hopen.notify, hopen.caller⟩
    · have hopen := (hraced.open_of_set hi).2.1
      exact ⟨hopen.notify, hopen.caller⟩
  · exact fun hi => (hraced.suspended_of_resume hi).2.2.1
  · intro hstop
    obtain ⟨i, hw, hi, -, a, hout, -⟩ := hraced.stage.settled_of_past (hawaited.stop hstop)
    exact ⟨i, a, hw, hout, hi⟩
  · intro hframe i
    have hdone := (WhenAll.latched_of_reachable hnested.all).returned (hawaited.frame hframe) i
    exact ⟨hdone, (hnested.ended i).mpr (by simp [hdone, WhenAll.TaskPc.Completed])⟩

/-- Two awaitables: the second one returns first, while the coroutine of `when_any` is about to
suspend, and its task resumes that coroutine; the first one returns last. -/
def raceTrace : List (Action 2 String fun _ => ℕ) :=
  [.controller, .controller, .controller, .controller, .controller, .caller, .complete 1 (.ok 7),
    .task 1, .caller, .caller, .task 1, .caller, .complete 0 (.ok 3), .task 0, .task 1, .task 1,
    .caller, .caller, .task 0, .task 1, .task 1, .destroy]

/-- After the run above `when_any` has returned the value of the second awaitable, the other task
has lost, a stop has been requested and the controller is gone. -/
theorem when_any_first_result_race : ∃ s : State 2 String fun _ => ℕ,
    (machine 2 String (fun _ => ℕ) .tuple true).run (start .tuple) raceTrace = some s ∧
    s.caller = .returned ∧ s.returned = some ⟨1, 7⟩ ∧ s.resumptions = 1 ∧
    s.stopRequested = true ∧ s.controllerFrame = false ∧ FirstResult .tuple true s := by
  have hreach := Machine.reachable_of_run (M := machine 2 String (fun _ => ℕ) .tuple true)
    (l := raceTrace) rfl
  exact ⟨_, rfl, rfl, rfl, rfl, rfl, rfl, when_any_first_result hreach⟩

/-! ## Awaitables that throw -/

/-- If all awaitables have completed, at least one of them by returning, then the coroutine of
`when_any` is not left suspended and returns the first value. -/
theorem when_any_completes (h : (machine n ε α kind stopSource).Reachable s)
    (hdone : ∀ i, s.all.task i = .done) (hok : ∃ i a, s.outcome i = some (.ok a)) :
    Completes kind stopSource s := by
  obtain ⟨i, a, hfinished⟩ := Finished.of_returned h hdone hok
  exact hfinished.completes

/-- Two awaitables in a range: the first one throws, the second one returns. -/
def throwTrace : List (Action 2 String fun _ => ℕ) :=
  [.controller, .controller, .complete 0 (.error "first"), .task 0, .controller,
    .complete 1 (.ok 7), .task 1, .task 1, .task 1, .task 1]

/-- After the run above both tasks are done, the controller is still in its `co_await`, and
`when_any` returns the value of the second one. -/
theorem when_any_completes_mixed : ∃ s : State 2 String fun _ => ℕ,
    (machine 2 String (fun _ => ℕ) .range false).run (start .range) throwTrace = some s ∧
    (∀ i, s.all.task i = .done) ∧ s.outcome 0 = some (.error "first") ∧
    s.outcome 1 = some (.ok 7) ∧ Completes .range false s := by
  have hrun : ∃ s,
      (machine 2 String (fun _ => ℕ) .range false).run (start .range) throwTrace = some s ∧
      (∀ i, s.all.task i = .done) ∧ s.outcome 0 = some (.error "first") ∧
      s.outcome 1 = some (.ok 7) := by
    refine ⟨_, rfl, ?_, rfl, rfl⟩
    intro i
    fin_cases i <;> rfl
  obtain ⟨s, hs, hdone, hzero, hone⟩ := hrun
  exact ⟨s, hs, hdone, hzero, hone,
    when_any_completes (Machine.reachable_of_run hs) hdone ⟨1, 7, hone⟩⟩

/-- One awaitable, which throws; then the coroutine of `when_any` awaits `notify`. -/
def thrownTrace : List (Action 1 String fun _ => ℕ) :=
  [.controller, .controller, .complete 0 (.error "only"), .task 0, .controller, .controller,
    .destroy, .caller, .caller, .caller, .caller]

/-- After the run above the only awaitable has completed, the coroutine of `when_any` is suspended
and has not been resumed, and nobody has a step left to take. -/
theorem suspended_after_all_thrown : ∃ s : State 1 String fun _ => ℕ,
    (machine 1 String (fun _ => ℕ) .range false).run (start .range) thrownTrace = some s ∧
    (∀ i, s.all.task i = .done ∧ s.outcome i = some (.error "only")) ∧
    s.caller = .suspended ∧ s.resumptions = 0 ∧ s.notify ≠ .this ∧
    ∀ b, (machine 1 String (fun _ => ℕ) .range false).step s b = none := by
  refine ⟨_, rfl, ?_, rfl, rfl, by decide, ?_⟩
  · intro i
    fin_cases i
    exact ⟨rfl, rfl⟩
  · intro b
    cases b with
    | complete i r | task i =>
      fin_cases i
      rfl
    | _ => rfl

end Libcoro.WhenAny
