import Libcoro.Scheduler.Accounting

/-!
# Rejected calls of the scheduler

`spawn_detached` of the scheduler, like that of the pool, counts its coroutine before `resume`
tells whether it is accepted, and does not undo this: a call that comes after the shutdown leaves
a unit in `m_size` for ever (`rejected_counted`).  If no `spawn_detached` comes too late, a
rejected call contributes nothing to `size()`, for the pool and for the scheduler with either
strategy, and `size()` is zero once everything accepted has finished (`rejected_uncounted`).
-/

namespace Libcoro.Scheduler.EventLoop

open Foundations

variable {κ ω : Type*}

/-- No `spawn_detached` finds that a shutdown was requested, of the scheduler when it calls
`resume` or of the pool when that passes it on. -/
def SpawnsInTime (s : State κ ω) : Action κ ω → Prop
  | .advance k => s.pc k = .resume → s.spawned k = true → s.mShutdownRequested = false
  | .poolAdvance k =>
    s.pool.pc k = .resumeCheck → s.spawned k = true → s.pool.mShutdownRequested = false
  | _ => True

instance [DecidableEq κ] [DecidableEq ω] (s : State κ ω) (a : Action κ ω) :
    Decidable (SpawnsInTime s a) := by
  unfold SpawnsInTime
  split <;> infer_instance

/-- The call was rejected, by the scheduler or by its pool. -/
def State.Rejected (s : State κ ω) (k : κ) : Prop :=
  s.pc k = .rejected ∨ (s.pc k = .inPool ∧ s.pool.pc k = .rejected)

/-- What a call contributes to `size()`. -/
@[simp] def State.contribution (s : State κ ω) (k : κ) : ExecutionStrategy → ℕ
  | .processTasksInline => s.charge k
  | .processTasksOnThreadPool => s.charge k + s.pool.charge k

/-- The coroutine of the call has been executed and is not counted as such any longer. -/
def State.Executed (s : State κ ω) (k : κ) : ExecutionStrategy → Prop
  | .processTasksInline => s.pc k = .done
  | .processTasksOnThreadPool => s.pc k = .inPool ∧ s.pool.pc k = .done

/-- Every accepted call has been executed to its end and nothing is in progress. -/
def State.Settled (s : State κ ω) (strategy : ExecutionStrategy) : Prop :=
  ∀ k, s.pc k = .idle ∨ s.Rejected k ∨
    (s.Executed k strategy ∧ (s.spawned k = true → s.finished k = true))

variable [DecidableEq κ] [DecidableEq ω] {strategy : ExecutionStrategy} {s : State κ ω}

/-- A call that is not counted by the scheduler itself is counted only as a spawned one. -/
lemma charge_eq_zero (h : (machine strategy κ ω).Reachable s) {k : κ}
    (hk : (s.pc k).units = 0) (hspawned : s.spawned k = true → s.finished k = true) :
    s.charge k = 0 := by
  rw [(accounts_of_reachable h).2.charge k, hk]
  cases hs : s.spawned k with
  | false => simp [State.spawnUnits, hs]
  | true => simp [State.spawnUnits, hspawned hs]

/-- The pool counts a call of the scheduler only by the units of its control point. -/
lemma pool_charge (h : (machine strategy κ ω).Reachable s) (k : κ) :
    s.pool.charge k = (s.pool.pc k).units := by
  have hledger := (ThreadPool.accounts_of_reachable (pool_reachable h).2).2
  rw [hledger.charge k]
  simp [(accounts_of_reachable h).1.unspawned k]

/-- A call is spawned by `spawn_detached` only, as its first step. -/
lemma Transition.spawned_cases {s' : State κ ω} {a : Action κ ω} (ht : Transition strategy s a s')
    {k : κ} (hk : s'.spawned k = true) :
    s.spawned k = true ∨ (s.pc k = .idle ∧ s'.pc k = .resume ∧ s'.pool = s.pool) := by
  cases ht with
  | @spawnDetached j hj =>
    by_cases hkj : k = j
    · subst hkj
      exact Or.inr ⟨hj, by simp, rfl⟩
    · exact Or.inl (by simpa [hkj] using hk)
  | _ => exact Or.inl hk

/-- A call is rejected by the scheduler only when it is made, or because of a shutdown. -/
lemma Transition.rejected_cases {s' : State κ ω} {a : Action κ ω} (ht : Transition strategy s a s')
    {k : κ} (hk : s'.pc k = .rejected) :
    s.pc k = .rejected ∨ s.pc k = .idle ∨
      (a = .advance k ∧ s.pc k = .resume ∧ s.mShutdownRequested = true) := by
  -- a step that moves `j` to something else than `rejected`
  have hother : ∀ {j : κ} {c : Pc}, c ≠ .rejected → Function.update s.pc j c k = .rejected →
      s.pc k = .rejected := by
    intro j c hc hupdate
    have hkj : k ≠ j := by
      rintro rfl
      exact hc (by simpa using hupdate)
    simpa [hkj] using hupdate
  have hall : ∀ {ks : List κ} {c : Pc}, c ≠ .rejected →
      (if k ∈ ks then c else s.pc k) = .rejected → s.pc k = .rejected := by
    intro ks c hc hif
    split_ifs at hif with hmem
    · exact (hc hif).elim
    · exact hif
  cases ht with
  | spawnDetached _ | schedule _ | wait _ | resumeAccept _ _ | awaitInline _ _ | awaitPool _ _ _
  | push _ | register _ | resumeHandle _ => exact Or.inl (hother (by simp) hk)
  | @resume j handle hj =>
    by_cases hkj : k = j
    · subst hkj
      exact Or.inr (Or.inl hj)
    · exact Or.inl (by simpa [hkj] using hk)
  | @resumeReject j hj hf =>
    by_cases hkj : k = j
    · subst hkj
      exact Or.inr (Or.inr ⟨rfl, hj, hf⟩)
    · exact Or.inl (by simpa [hkj] using hk)
  | sub _ => cases strategy <;> exact Or.inl (hall (by simp) hk)
  | collect _ _ _ | collectScheduled _ => exact Or.inl (hall (by simp) hk)
  | _ => exact Or.inl hk

/-- In a run without late calls of `spawn_detached` no spawned call is rejected. -/
lemma not_rejected_of_reachable (h : (machine strategy κ ω).ReachableUnder SpawnsInTime s) :
    ∀ k, s.spawned k = true → s.pc k ≠ .rejected ∧ ¬ (s.pool.pc k).Doomed := by
  refine h.invariant
    (I := fun s => ∀ k, s.spawned k = true → s.pc k ≠ .rejected ∧ ¬ (s.pool.pc k).Doomed)
    (by simp [machine, start]) fun s a s' hreach hs hG hstep k hk => ?_
  have ht := step_transition hstep
  obtain ⟨hapart, hledger⟩ := accounts_of_reachable hreach.reachable
  obtain ⟨hcustody, hpool⟩ := pool_reachable hreach.reachable
  rcases ht.spawned_cases hk with hspawned | ⟨hidle, hresume, heq⟩
  · refine ⟨fun hrejected => ?_, ?_⟩
    · rcases ht.rejected_cases hrejected with hold | hidle | ⟨rfl, hc, hf⟩
      · exact (hs k hspawned).1 hold
      · simp [hledger.unspawned k hidle] at hspawned
      · simp [hG hc hspawned] at hf
    · rcases ht.pool_step hcustody with heq | ⟨b, hb, hpassed⟩
      · rw [heq]
        exact (hs k hspawned).2
      · have hmove := (ThreadPool.step_transition hb).move
          (ThreadPool.accounts_of_reachable hpool).1 k
        refine hmove.not_doomed (hs k hspawned).2 (hpassed.sparing k) fun hadvance hc => ?_
        obtain rfl := hpassed.advance k hadvance
        exact hG hc hspawned
  · rw [heq, hapart.idle k (by simp [hidle, Pc.Handed]), hresume]
    simp [ThreadPool.Pc.Doomed]

/-- A call that was rejected by the scheduler or by its pool contributes nothing. -/
lemma contribution_rejected (h : (machine strategy κ ω).ReachableUnder SpawnsInTime s) {k : κ}
    (hk : s.Rejected k) : s.contribution k strategy = 0 := by
  have hspawned : s.spawned k = true → s.finished k = true := by
    intro hs
    obtain ⟨hne, hdoomed⟩ := not_rejected_of_reachable h k hs
    rcases hk with hk | ⟨-, hk⟩
    · exact (hne hk).elim
    · exact (hdoomed (by simp [hk, ThreadPool.Pc.Doomed])).elim
  have hcharge : s.charge k = 0 := by
    refine charge_eq_zero h.reachable ?_ hspawned
    rcases hk with hk | ⟨hk, -⟩ <;> simp [hk, Pc.units]
  have hpool : s.pool.charge k = 0 := by
    rw [pool_charge h.reachable]
    rcases hk with hk | ⟨-, hk⟩
    · rw [(accounts_of_reachable h.reachable).1.idle k (by simp [hk, Pc.Handed])]
      rfl
    · rw [hk]
      rfl
  cases strategy <;> simp [hcharge, hpool]

/-- Once everything accepted has finished, nobody contributes anything. -/
lemma contribution_settled (h : (machine strategy κ ω).ReachableUnder SpawnsInTime s)
    (hsettled : s.Settled strategy) (k : κ) : s.contribution k strategy = 0 := by
  obtain ⟨hapart, hledger⟩ := accounts_of_reachable h.reachable
  rcases hsettled k with hidle | hrejected | ⟨hexecuted, hfinished⟩
  · have hcharge : s.charge k = 0 := charge_eq_zero h.reachable (by simp [hidle, Pc.units])
      fun hs => by simp [hledger.unspawned k hidle] at hs
    have hpool : s.pool.charge k = 0 := by
      rw [pool_charge h.reachable, hapart.idle k (by simp [hidle, Pc.Handed])]
      rfl
    cases strategy <;> simp [hcharge, hpool]
  · exact contribution_rejected h hrejected
  · cases strategy with
    | processTasksInline =>
      have hk : s.pc k = .done := hexecuted
      exact charge_eq_zero h.reachable (by simp [hk, Pc.units]) hfinished
    | processTasksOnThreadPool =>
      obtain ⟨hk, hdone⟩ := hexecuted
      have hcharge : s.charge k = 0 :=
        charge_eq_zero h.reachable (by simp [hk, Pc.units]) hfinished
      simp [hcharge, pool_charge h.reachable, hdone, ThreadPool.Pc.units]

/-- `size()` is the sum of the contributions. -/
lemma size_tally (h : (machine strategy κ ω).Reachable s) :
    Tally (fun k => s.contribution k strategy) (s.size strategy) := by
  have htally := (accounts_of_reachable h).2.tally
  have hpool := (ThreadPool.accounts_of_reachable (pool_reachable h).2).2.tally
  cases strategy with
  | processTasksInline => exact htally
  | processTasksOnThreadPool => exact htally.add hpool

/-- **Rejected calls are not counted.**  In every run of a pool, and of a scheduler with either
strategy, in which no `spawn_detached` finds a shutdown requested: `size()` is the sum of what the
calls contribute, a rejected call contributes nothing, and `size()` is zero once every accepted
coroutine has finished. -/
theorem rejected_uncounted :
    (∀ s : ThreadPool.State κ ω,
      (ThreadPool.machine κ ω).ReachableUnder ThreadPool.SpawnsInTime s →
        Tally s.charge s.mSize ∧ (∀ k, s.pc k = .rejected → s.charge k = 0) ∧
          (s.Settled → s.mSize = 0)) ∧
    (∀ (strategy : ExecutionStrategy) (s : State κ ω),
      (machine strategy κ ω).ReachableUnder SpawnsInTime s →
        Tally (fun k => s.contribution k strategy) (s.size strategy) ∧
          (∀ k, s.Rejected k → s.contribution k strategy = 0) ∧
          (s.Settled strategy → s.size strategy = 0)) := by
  constructor
  · intro s h
    exact ⟨(ThreadPool.accounts_of_reachable h.reachable).2.tally,
      fun k hk => ThreadPool.charge_rejected h hk, ThreadPool.mSize_settled h⟩
  · intro strategy s h
    have htally := size_tally h.reachable
    exact ⟨htally, fun k hk => contribution_rejected h hk,
      fun hsettled => htally.of_eq_zero (contribution_settled h hsettled)⟩

/-- A spawned coroutine is executed to its end; after the shutdown a handle is rejected, and a null
handle is at any time. -/
def poolTrace : List (ThreadPool.Action (Fin 3) (Fin 1)) :=
  [.spawnDetached 0, .advance 0, .advance 0, .advance 0, .worker 0, .worker 0, .worker 0,
    .finalSuspend 0, .worker 0, .shutdown, .resume 1 .ready, .advance 1, .advance 1,
    .resumeRange 2 [(2, false)], .advanceRange 2, .advanceRange 2]

/-- A spawned coroutine is executed to its end by the loop or by the worker; after the shutdown a
handle is rejected. -/
def schedulerTrace : ExecutionStrategy → List (Action (Fin 2) (Fin 1))
  | .processTasksInline =>
    [.spawnDetached 0, .advance 0, .advance 0, .advance 0, .loop .scheduler, .collectScheduled,
      .loop .scheduler, .loop .scheduler, .finalSuspend 0, .loop .scheduler, .loop .scheduler,
      .shutdown, .resume 1 .ready, .advance 1]
  | .processTasksOnThreadPool =>
    [.spawnDetached 0, .advance 0, .advance 0, .poolAdvance 0, .poolAdvance 0, .poolWorker 0,
      .poolWorker 0, .poolWorker 0, .finalSuspend 0, .poolWorker 0, .shutdown, .resume 1 .ready,
      .advance 1]

lemma poolTrace_settles : ∃ s,
    (ThreadPool.machine (Fin 3) (Fin 1)).runUnder ThreadPool.SpawnsInTime ThreadPool.start
      poolTrace = some s ∧ s.pc 1 = .rejected ∧ s.Settled :=
  ⟨_, rfl, rfl, fun
    | 0 => Or.inr (Or.inr ⟨rfl, fun _ => rfl⟩)
    | 1 => Or.inr (Or.inl rfl)
    | 2 => Or.inr (Or.inl rfl)⟩

lemma schedulerTrace_settles (strategy : ExecutionStrategy) : ∃ s,
    (machine strategy (Fin 2) (Fin 1)).runUnder SpawnsInTime start (schedulerTrace strategy) =
      some s ∧ s.Rejected 1 ∧ s.Settled strategy := by
  cases strategy with
  | processTasksInline =>
    exact ⟨_, rfl, Or.inl rfl, fun
      | 0 => Or.inr (Or.inr ⟨rfl, fun _ => rfl⟩)
      | 1 => Or.inr (Or.inl (Or.inl rfl))⟩
  | processTasksOnThreadPool =>
    exact ⟨_, rfl, Or.inl rfl, fun
      | 0 => Or.inr (Or.inr ⟨⟨rfl, rfl⟩, fun _ => rfl⟩)
      | 1 => Or.inr (Or.inl (Or.inl rfl))⟩

/-- Calls are rejected and everything accepted has finished: nothing is left in `size()`. -/
theorem rejected_uncounted_late :
    (∃ s, (ThreadPool.machine (Fin 3) (Fin 1)).runUnder ThreadPool.SpawnsInTime ThreadPool.start
        poolTrace = some s ∧
      s.pc 1 = .rejected ∧ s.charge 1 = 0 ∧ s.Settled ∧ s.mSize = 0) ∧
    (∀ strategy, ∃ s, (machine strategy (Fin 2) (Fin 1)).runUnder SpawnsInTime start
        (schedulerTrace strategy) = some s ∧
      s.Rejected 1 ∧ s.contribution 1 strategy = 0 ∧ s.Settled strategy ∧
      s.size strategy = 0) := by
  constructor
  · obtain ⟨s, hrun, hrejected, hsettled⟩ := poolTrace_settles
    have h := rejected_uncounted.1 s (Machine.reachableUnder_of_run hrun)
    exact ⟨s, hrun, hrejected, h.2.1 1 hrejected, hsettled, h.2.2 hsettled⟩
  · intro strategy
    obtain ⟨s, hrun, hrejected, hsettled⟩ := schedulerTrace_settles strategy
    have h := rejected_uncounted.2 strategy s (Machine.reachableUnder_of_run hrun)
    exact ⟨s, hrun, hrejected, h.2.1 1 hrejected, hsettled, h.2.2 hsettled⟩

/-- `spawn_detached` after the shutdown is rejected and stays counted, in the pool and in the
scheduler with either strategy. -/
theorem rejected_counted :
    (∃ s, (ThreadPool.machine (Fin 1) (Fin 1)).run ThreadPool.start
        [.shutdown, .spawnDetached 0, .advance 0, .advance 0, .advance 0] = some s ∧
      (ThreadPool.machine (Fin 1) (Fin 1)).Reachable s ∧ s.pc 0 = .rejected ∧ s.Settled ∧
      s.charge 0 = 1 ∧ s.mSize = 1) ∧
    (∀ strategy, ∃ s, (machine strategy (Fin 1) (Fin 1)).run start
        [.shutdown, .spawnDetached 0, .advance 0] = some s ∧
      (machine strategy (Fin 1) (Fin 1)).Reachable s ∧ s.Rejected 0 ∧ s.Settled strategy ∧
      s.contribution 0 strategy = 1 ∧ s.size strategy = 1) := by
  constructor
  · exact ⟨_, rfl, Machine.reachable_of_run
      (l := [.shutdown, .spawnDetached 0, .advance 0, .advance 0, .advance 0]) rfl, rfl,
      fun | 0 => Or.inr (Or.inl rfl), rfl, rfl⟩
  · intro strategy
    cases strategy <;>
      exact ⟨_, rfl, Machine.reachable_of_run (l := [.shutdown, .spawnDetached 0, .advance 0]) rfl,
        Or.inl rfl, fun | 0 => Or.inr (Or.inl (Or.inl rfl)), rfl, rfl⟩

end Libcoro.Scheduler.EventLoop
