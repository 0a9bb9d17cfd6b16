import Libcoro.WhenAll.Model
import Libcoro.Foundations.Roster

/-!
# The latch of `when_all`

`m_count` is the number of the tasks that have yet to notify the latch, and one more until the
awaiting coroutine has taken its own (`Latched.count`).  Whoever takes the last one finds everybody
else done: if it is the awaiting coroutine, it goes on, and if it is a task, the awaiting coroutine
is suspended and its handle has been stored.
-/

namespace Libcoro.WhenAll

open Foundations Function

variable {n : ℕ} {ε : Type*} {α : Fin n → Type*}

/-- The tasks that have yet to take one from `m_count`. -/
@[simp] def TaskPc.Outstanding : TaskPc → Prop
  | .created => True
  | .running => True
  | .notifying => True
  | _ => False

/-- The tasks whose awaitable has completed. -/
def TaskPc.Completed : TaskPc → Prop
  | .notifying => True
  | .resuming => True
  | .done => True
  | _ => False

/-- The share of the awaiting coroutine in `m_count`. -/
def AwaiterPc.own (form : Form) (n : ℕ) : AwaiterPc → ℕ
  | .awaitReady => if form = .tuple ∧ n = 0 then 0 else 1
  | .starting _ => 1
  | .tryAwait => 1
  | _ => 0

/-- The awaiting coroutine has yet to start the task `i`. -/
@[simp] def AwaiterPc.Before (i : ℕ) : AwaiterPc → Prop
  | .awaitReady => True
  | .starting k => k ≤ i
  | _ => False

/-- The awaiting coroutine has stored its handle. -/
@[simp] def AwaiterPc.Stored : AwaiterPc → Prop
  | .tryAwait => True
  | .suspended => True
  | _ => False

/-- The latch agrees with the tasks and with the awaiting coroutine. -/
structure Latched (form : Form) (s : State n ε α) : Prop where
  count : ∃ A : Finset (Fin n), Roster TaskPc.Outstanding A s.task ∧
    s.mCount = A.card + s.awaiter.own form n
  created : ∀ i, s.task i = .created ↔ s.awaiter.Before i
  stored : s.awaiter.Stored → s.mAwaitingCoroutine = true
  resuming : ∀ i, s.task i = .resuming → s.awaiter = .suspended ∧ ∀ j, j ≠ i → s.task j = .done
  suspended : s.awaiter = .suspended → ∃ i, s.task i ≠ .done
  returned : s.awaiter = .resumed ∨ s.awaiter = .continued → ∀ i, s.task i = .done
  resumptions : s.resumptions = if s.awaiter = .resumed then 1 else 0

/-- The promises hold how the awaitables have completed. -/
structure Kept (s : State n ε α) : Prop where
  value : ∀ i, s.returnValue i = s.outcome i
  completed : ∀ i, (s.outcome i).isSome = true ↔ (s.task i).Completed

variable {form : Form} {s t : State n ε α}

namespace Latched

/-- While the awaiting coroutine is not suspended no task is about to resume it. -/
lemma not_resuming (h : Latched form s) (ha : s.awaiter ≠ .suspended) (i : Fin n) :
    s.task i ≠ .resuming :=
  fun hi => ha (h.resuming i hi).1

/-- The awaiting coroutine moves on towards its own decrement. -/
lemma moved (h : Latched form s) {a : AwaiterPc} {handle : Bool} (ha : s.awaiter ≠ .suspended)
    (hres : s.awaiter ≠ .resumed) (hown : a.own form n = s.awaiter.own form n)
    (hbefore : ∀ i : Fin n, a.Before i ↔ s.awaiter.Before i) (hstored : a.Stored → handle = true)
    (hnot : a ≠ .suspended ∧ a ≠ .resumed ∧ a ≠ .continued) :
    Latched form { s with mAwaitingCoroutine := handle, awaiter := a } where
  count := by simpa [hown] using h.count
  created i := (h.created i).trans (hbefore i).symm
  stored := hstored
  resuming i hi := (h.not_resuming ha i hi).elim
  suspended hs := (hnot.1 hs).elim
  returned hr := (hr.elim hnot.2.1 hnot.2.2).elim
  resumptions := by simpa [hnot.2.1, hres] using h.resumptions

/-- The awaiting coroutine starts the next task. -/
lemma launch (h : Latched form s) {k : ℕ} (hk : k < n) (ha : s.awaiter = .starting k) :
    Latched form { s with
      task := update s.task ⟨k, hk⟩ .running
      awaiter := .starting (k + 1) } := by
  have hcreated : s.task ⟨k, hk⟩ = .created := (h.created _).mpr (by simp [ha])
  have hnot : ∀ i, s.task i ≠ .resuming := h.not_resuming (by simp [ha])
  obtain ⟨A, hA, hcount⟩ := h.count
  refine ⟨⟨A, hA.keep (by simp [hcreated]), ?_⟩, ?_, nofun, ?_, nofun, nofun,
    ?_⟩
  · simpa [ha, AwaiterPc.own] using hcount
  · intro i
    rcases eq_or_ne i ⟨k, hk⟩ with rfl | hik
    · simp
    · have hne : k ≠ i := fun heq => hik (Fin.ext heq.symm)
      have hi := h.created i
      simp only [ha, AwaiterPc.Before] at hi ⊢
      simp only [ne_eq, hik, not_false_eq_true, update_of_ne, hi]
      omega
  · intro i hi
    rcases eq_or_ne i ⟨k, hk⟩ with rfl | hik
    · simp at hi
    · exact (hnot i (by simpa [hik] using hi)).elim
  · simpa [ha] using h.resumptions

/-- The awaiting coroutine takes its own one and suspends. -/
lemma suspend (h : Latched form s) (ha : s.awaiter = .tryAwait) (hmore : 1 < s.mCount) :
    Latched form { s with mCount := s.mCount - 1, awaiter := .suspended } := by
  obtain ⟨A, hA, hcount⟩ := h.count
  have hcard : s.mCount = A.card + 1 := by simpa [ha, AwaiterPc.own] using hcount
  refine ⟨⟨A, hA, ?_⟩, ?_, ?_, ?_, ?_, nofun, ?_⟩
  · simp only [AwaiterPc.own]
    push_cast
    omega
  · simpa [ha] using h.created
  · exact fun _ => h.stored (by simp [ha])
  · exact fun i hi => (h.not_resuming (by simp [ha]) i hi).elim
  · intro _
    -- somebody has yet to notify the latch
    obtain ⟨i, hi⟩ : A.Nonempty := Finset.card_pos.mp (by omega)
    refine ⟨i, fun hdone => ?_⟩
    have hout := (hA i).mp hi
    rwa [hdone] at hout
  · simpa [ha] using h.resumptions

/-- The awaiting coroutine takes the last one and goes on. -/
lemma goOn (h : Latched form s) (ha : s.awaiter = .tryAwait) (hlast : s.mCount ≤ 1) :
    Latched form { s with mCount := s.mCount - 1, awaiter := .continued } := by
  obtain ⟨A, hA, hcount⟩ := h.count
  have hcard : s.mCount = A.card + 1 := by simpa [ha, AwaiterPc.own] using hcount
  have hempty : A = ∅ := Finset.card_eq_zero.mp (by omega)
  have hnot := h.not_resuming (by simp [ha])
  refine ⟨⟨A, hA, ?_⟩, ?_, nofun, ?_, nofun, ?_, ?_⟩
  · simp only [AwaiterPc.own]
    push_cast
    omega
  · simpa [ha] using h.created
  · exact fun i hi => (hnot i hi).elim
  · intro _ i
    have hout : ¬ (s.task i).Outstanding := by simpa [hempty] using (hA i).not.mp
    cases hi : s.task i <;> simp_all
  · simpa [ha] using h.resumptions

variable {i : Fin n}

/-- While a task has yet to notify the latch, no other one is about to resume. -/
lemma not_resuming_of_outstanding (h : Latched form s) (hi : (s.task i).Outstanding)
    (j : Fin n) : s.task j ≠ .resuming := by
  intro hj
  rcases eq_or_ne i j with rfl | hij
  · simp [hj] at hi
  · have hdone := (h.resuming j hj).2 i hij
    simp [hdone] at hi

/-- While a task has yet to notify the latch, the awaiting coroutine has not returned. -/
lemma not_returned (h : Latched form s) (hi : s.task i ≠ .done) :
    ¬ (s.awaiter = .resumed ∨ s.awaiter = .continued) :=
  fun hr => hi (h.returned hr i)

/-- A task that has been started moves on; the awaiting coroutine is where it was. -/
lemma created_update (h : Latched form s) {p : TaskPc} (hi : s.task i ≠ .created)
    (hp : p ≠ .created) (j : Fin n) :
    update s.task i p j = .created ↔ s.awaiter.Before j := by
  rcases eq_or_ne j i with rfl | hj
  · simpa [hp, hi] using h.created j
  · simpa [hj] using h.created j

/-- An awaitable completes. -/
lemma complete (h : Latched form s) {r : Except ε (α i)} (hi : s.task i = .running) :
    Latched form (complete s i r) := by
  obtain ⟨A, hA, hcount⟩ := h.count
  have hnot := h.not_resuming_of_outstanding (i := i) (by simp [hi])
  refine ⟨⟨A, hA.keep (by simp [hi]), hcount⟩,
    h.created_update (by simp [hi]) nofun, h.stored, ?_, ?_, ?_, h.resumptions⟩
  · intro j hj
    rcases eq_or_ne j i with rfl | hji
    · simp [WhenAll.complete] at hj
    · exact (hnot j (by simpa [WhenAll.complete, hji] using hj)).elim
  · exact fun _ => ⟨i, by simp [WhenAll.complete]⟩
  · exact fun hr => (h.not_returned (i := i) (by simp [hi]) hr).elim

/-- A task notifies the latch and is not the last one. -/
lemma notify (h : Latched form s) (hi : s.task i = .notifying) (hmore : s.mCount ≠ 1) :
    Latched form { s with
      mCount := s.mCount - 1
      task := update s.task i .done } := by
  obtain ⟨A, hA, hcount⟩ := h.count
  have hout : (s.task i).Outstanding := by simp [hi]
  have hcard := hA.card_leave hout
  have hnot := h.not_resuming_of_outstanding hout
  refine ⟨⟨A.erase i, hA.leave id, ?_⟩, h.created_update (by simp [hi]) nofun, h.stored, ?_, ?_, ?_,
    h.resumptions⟩
  · simp only
    omega
  · intro j hj
    rcases eq_or_ne j i with rfl | hji
    · simp at hj
    · exact (hnot j (by simpa [hji] using hj)).elim
  · intro hs
    -- the awaiting coroutine has taken its own one, so that another task has yet to take one
    have hown : s.awaiter.own form n = 0 := by
      rw [show s.awaiter = .suspended from hs]
      rfl
    obtain ⟨j, hj⟩ : (A.erase i).Nonempty := Finset.card_pos.mp (by omega)
    have hji := Finset.ne_of_mem_erase hj
    have hjout := (hA j).mp (Finset.mem_of_mem_erase hj)
    refine ⟨j, fun hdone => ?_⟩
    rw [show s.task j = .done by simpa [hji] using hdone] at hjout
    exact hjout
  · exact fun hr => (h.not_returned (i := i) (by simp [hi]) hr).elim

/-- A task takes the last one: the awaiting coroutine is suspended and everybody else is done. -/
lemma last (h : Latched form s) (hi : s.task i = .notifying) (hone : s.mCount = 1) :
    Latched form { s with
      mCount := s.mCount - 1
      task := update s.task i .resuming } := by
  obtain ⟨A, hA, hcount⟩ := h.count
  have hout : (s.task i).Outstanding := by simp [hi]
  have hcard := hA.card_leave hout
  have hnot := h.not_resuming_of_outstanding hout
  have hreturned := h.not_returned (i := i) (by simp [hi])
  have hown : s.awaiter.own form n = 0 := by omega
  have hsusp : s.awaiter = .suspended := by
    have hn : n ≠ 0 := by
      rintro rfl
      exact i.elim0
    cases ha : s.awaiter <;> simp_all [AwaiterPc.own]
  have hempty : A.erase i = ∅ := Finset.card_eq_zero.mp (by omega)
  have hdone : ∀ j, j ≠ i → s.task j = .done := by
    intro j hj
    have hjout : ¬ (s.task j).Outstanding := by
      intro hjo
      have hmem : j ∈ A.erase i := Finset.mem_erase.mpr ⟨hj, (hA j).mpr hjo⟩
      simp [hempty] at hmem
    have hjr := hnot j
    cases htj : s.task j <;> simp_all
  refine ⟨⟨A.erase i, hA.leave id, ?_⟩, h.created_update (by simp [hi]) nofun, h.stored, ?_, ?_, ?_,
    h.resumptions⟩
  · simp only
    omega
  · intro j hj
    obtain rfl : j = i := by
      by_contra hji
      exact hnot j (by simpa [hji] using hj)
    refine ⟨hsusp, fun k hk => ?_⟩
    simpa [hk] using hdone k hk
  · exact fun _ => ⟨i, by simp⟩
  · exact fun hr => (hreturned hr).elim

/-- The last task resumes the awaiting coroutine. -/
lemma resume (h : Latched form s) (hi : s.task i = .resuming) :
    Latched form { s with
      awaiter := .resumed
      task := update s.task i .done
      resumptions := s.resumptions + 1 } := by
  obtain ⟨hsusp, hdone⟩ := h.resuming i hi
  obtain ⟨A, hA, hcount⟩ := h.count
  have hall : ∀ j, update s.task i .done j = .done := by
    intro j
    rcases eq_or_ne j i with rfl | hj
    · simp
    · simpa [hj] using hdone j hj
  refine ⟨⟨A, hA.keep (by simp [hi]), ?_⟩, ?_, nofun, ?_, nofun,
    fun _ => hall, ?_⟩
  · simpa [hsusp, AwaiterPc.own] using hcount
  · intro j
    simp [hall j]
  · intro j hj
    simp [hall j] at hj
  · simpa [hsusp] using h.resumptions

/-- Every transition keeps the latch in agreement. -/
lemma transition (h : Latched form s) (ht : Transition form s t) : Latched form t := by
  cases ht with
  | ready ha hform hn =>
    subst hn
    obtain ⟨A, hA, hcount⟩ := h.count
    refine ⟨⟨A, hA, ?_⟩, fun i => i.elim0, nofun, fun i => i.elim0, nofun, fun _ i => i.elim0, ?_⟩
    · simpa [ha, hform, AwaiterPc.own] using hcount
    · simpa [ha] using h.resumptions
  | notReady ha hnot =>
    refine h.moved ?_ ?_ ?_ ?_ ?_ ?_
    all_goals simp [ha, hnot, AwaiterPc.own]
  | launch hk ha => exact h.launch hk ha
  | @store k hk ha =>
    refine h.moved ?_ ?_ ?_ ?_ ?_ ?_
    case refine_4 =>
      intro i
      have hlt := i.isLt
      simp only [ha, AwaiterPc.Before, false_iff]
      omega
    all_goals simp [ha, AwaiterPc.own]
  | suspend ha hmore => exact h.suspend ha hmore
  | goOn ha hlast => exact h.goOn ha hlast
  | complete hi => exact h.complete hi
  | notify hi hmore => exact h.notify hi hmore
  | last hi hone => exact h.last hi hone
  | resume hi => exact h.resume hi

end Latched

/-- The latch agrees with the tasks in every reachable state. -/
lemma latched_of_reachable (h : (machine n ε α form).Reachable s) : Latched form s := by
  refine h.invariant ?_ ?_
  · refine ⟨⟨Finset.univ, ?_, ?_⟩, ?_, nofun, nofun, nofun, nofun, rfl⟩
    · intro i
      simp [machine, start]
    · by_cases hempty : form = .tuple ∧ n = 0
      · simp [machine, start, AwaiterPc.own, hempty]
      · simp [machine, start, AwaiterPc.own, hempty]
    · intro i
      simp [machine, start]
  · intro s a t _ hs hstep
    exact hs.transition (step_transition hstep)

/-- A step of the awaiting coroutine completes no awaitable. -/
lemma Latched.await_task (h : Latched form s) (hawait : await form s = some t) (i : Fin n) :
    ((t.task i).Completed ↔ (s.task i).Completed) ∧
      (t.task i = .created → s.task i = .created) := by
  unfold await at hawait
  split at hawait <;> rename_i ha
  · split_ifs at hawait
    all_goals
      cases hawait
      exact ⟨Iff.rfl, id⟩
  · split_ifs at hawait with hk
    · cases hawait
      rcases eq_or_ne i ⟨_, hk⟩ with rfl | hi
      · have hcreated := (h.created ⟨_, hk⟩).mpr (by simp [ha])
        simp [hcreated, TaskPc.Completed]
      · simp [hi]
    · cases hawait
      exact ⟨Iff.rfl, id⟩
  · cases hawait
    exact ⟨Iff.rfl, id⟩
  all_goals simp at hawait

/-- A task that notifies the latch has completed before. -/
lemma notify_task {i : Fin n} (hnotify : notify s i = some t) (j : Fin n) :
    ((t.task j).Completed ↔ (s.task j).Completed) ∧
      (t.task j = .created → s.task j = .created) := by
  unfold notify at hnotify
  split at hnotify <;> rename_i hi
  · cases hnotify
    rcases eq_or_ne j i with rfl | hj
    · by_cases hlast : s.mCount = 1 <;> simp [hi, hlast, TaskPc.Completed]
    · simp [hj]
  · split_ifs at hnotify
    cases hnotify
    rcases eq_or_ne j i with rfl | hj
    · simp [hi, TaskPc.Completed]
    · simp [hj]
  all_goals simp at hnotify

/-! ## The results -/

namespace Kept

/-- A task moves on, and its awaitable has completed before as after, or neither. -/
lemma moved (h : Kept s) {i : Fin n} {p : TaskPc} (hp : p.Completed ↔ (s.task i).Completed) :
    ∀ j, (s.outcome j).isSome = true ↔ (update s.task i p j).Completed := by
  refine (forall_update_iff s.task fun j (q : TaskPc) =>
    (s.outcome j).isSome = true ↔ q.Completed).mpr ⟨?_, fun j _ => h.completed j⟩
  rw [h.completed i, hp]

/-- An awaitable completes. -/
lemma complete (h : Kept s) {i : Fin n} {r : Except ε (α i)} (hi : s.task i = .running) :
    Kept (complete s i r) := by
  have hnone : s.outcome i = none := by
    have hnot := (h.completed i).not
    rw [hi] at hnot
    simpa using hnot.mpr id
  have hptr : s.mExceptionPtr i = none := by
    have hvalue := h.value i
    rw [hnone, State.returnValue] at hvalue
    cases hptr : s.mExceptionPtr i with
    | none => rfl
    | some e => simp [hptr] at hvalue
  constructor
  · intro j
    rcases eq_or_ne j i with rfl | hj
    · cases r <;> simp [State.returnValue, WhenAll.complete, hptr]
    · have hvalue := h.value j
      cases r <;> simpa [State.returnValue, WhenAll.complete, hj] using hvalue
  · intro j
    rcases eq_or_ne j i with rfl | hj
    · simp [WhenAll.complete, TaskPc.Completed]
    · simpa [WhenAll.complete, hj] using h.completed j

/-- Every transition keeps the results. -/
lemma transition (h : Kept s) (hs : Latched form s) (ht : Transition form s t) : Kept t := by
  cases ht with
  | @launch k hk ha =>
    have hcreated : s.task ⟨k, hk⟩ = .created := (hs.created _).mpr (by simp [ha])
    exact ⟨h.value, h.moved (by simp [hcreated, TaskPc.Completed])⟩
  | complete hi => exact h.complete hi
  | notify hi _ | last hi _ | resume hi => exact ⟨h.value, h.moved (by simp [hi, TaskPc.Completed])⟩
  | _ => exact ⟨h.value, h.completed⟩

end Kept

/-- The promises are right in every reachable state. -/
lemma kept_of_reachable (h : (machine n ε α form).Reachable s) : Kept s := by
  refine h.invariant ?_ ?_
  · exact ⟨fun _ => rfl, fun i => by simp [machine, start, TaskPc.Completed]⟩
  · intro s a t hr hs hstep
    exact hs.transition (latched_of_reachable hr) (step_transition hstep)

/-- What `when_all` owes to the coroutine that awaits it. -/
structure Joined (s : State n ε α) : Prop where
  -- The count does not wrap.
  nonneg : 0 ≤ s.mCount
  -- If `await_suspend` has returned `false`, everything had completed and no task resumes.
  continued : s.awaiter = .continued → s.mCount = 0 ∧ s.resumptions = 0 ∧ ∀ i, s.task i = .done
  -- If it has returned `true` and the coroutine has been resumed, this has happened once and
  -- everything had completed.
  resumed : s.awaiter = .resumed → s.mCount = 0 ∧ s.resumptions = 1 ∧ ∀ i, s.task i = .done
  -- As long as the coroutine has not been resumed, some task has started and is not done.
  suspended : s.awaiter = .suspended →
    s.resumptions = 0 ∧ ∃ i, s.task i ≠ .created ∧ s.task i ≠ .done
  -- Whoever resumes the coroutine finds it suspended and its handle stored.
  resuming : ∀ i, s.task i = .resuming → s.awaiter = .suspended ∧ s.mAwaitingCoroutine = true
  -- The results are those of the awaitables.
  results : s.awaiter = .continued ∨ s.awaiter = .resumed →
    ∀ i, ∃ r, s.outcome i = some r ∧ s.returnValue i = some r

/-- When everybody is done and the awaiting coroutine has taken its own one, the count is zero. -/
lemma Latched.count_eq_zero (h : Latched form s) (hdone : ∀ i, s.task i = .done)
    (hown : s.awaiter.own form n = 0) : s.mCount = 0 := by
  obtain ⟨A, hA, hcount⟩ := h.count
  have hempty : A = ∅ := hA.eq_empty fun i => by simp [hdone i]
  simpa [hempty, hown] using hcount

/-- For every number of awaitables and in either form, in every run `when_all` resumes the coroutine
that awaits it once, if it has suspended it, and only when all awaitables have completed, and it
gives it their results. -/
theorem when_all_joins (h : (machine n ε α form).Reachable s) : Joined s := by
  have hlatch := latched_of_reachable h
  have hkept := kept_of_reachable h
  have hres := hlatch.resumptions
  refine ⟨?_, ?_, ?_, ?_, ?_, ?_⟩
  · obtain ⟨A, -, hcount⟩ := hlatch.count
    omega
  · intro ha
    have hdone := hlatch.returned (Or.inr ha)
    have hzero := hlatch.count_eq_zero hdone (by simp [ha, AwaiterPc.own])
    exact ⟨hzero, by simpa [ha] using hres, hdone⟩
  · intro ha
    have hdone := hlatch.returned (Or.inl ha)
    have hzero := hlatch.count_eq_zero hdone (by simp [ha, AwaiterPc.own])
    exact ⟨hzero, by simpa [ha] using hres, hdone⟩
  · intro ha
    obtain ⟨i, hi⟩ := hlatch.suspended ha
    refine ⟨by simpa [ha] using hres, i, fun hcreated => ?_, hi⟩
    simpa [ha] using (hlatch.created i).mp hcreated
  · intro i hi
    have ha := (hlatch.resuming i hi).1
    exact ⟨ha, hlatch.stored (by simp [ha])⟩
  · intro ha i
    have hdone := hlatch.returned ha.symm i
    obtain ⟨r, hr⟩ := Option.isSome_iff_exists.mp
      ((hkept.completed i).mpr (by simp [hdone, TaskPc.Completed]))
    exact ⟨r, hr, (hkept.value i).trans hr⟩

/-- Two awaitables: the first one throws while it is started, the second one returns after the
awaiting coroutine has been suspended. -/
def mixedTrace : List (Action 2 String fun _ => ℕ) :=
  [.await, .await, .complete 0 (.error "first"), .notify 0, .await, .await, .await,
    .complete 1 (.ok 7), .notify 1, .notify 1]

/-- After the run above the awaiting coroutine has been resumed by the second task and finds the
exception and the value. -/
theorem when_all_joins_mixed : ∃ s : State 2 String fun _ => ℕ,
    (machine 2 String (fun _ => ℕ) .range).run (start .range) mixedTrace = some s ∧
    s.awaiter = .resumed ∧ s.returnValue 0 = some (.error "first") ∧
    s.returnValue 1 = some (.ok 7) ∧ Joined s := by
  have hreach := Machine.reachable_of_run (M := machine 2 String (fun _ => ℕ) .range)
    (l := mixedTrace) rfl
  exact ⟨_, rfl, rfl, rfl, rfl, when_all_joins hreach⟩

end Libcoro.WhenAll
