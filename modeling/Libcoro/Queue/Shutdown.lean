import Libcoro.Queue.Transitions

/-!
# What `shutdown` of a queue achieves

As in the ring buffer, `shutdown` loads `m_running_state` before it takes the lock and gives up when
the comparison under the lock fails.  When `shutdown_drain` moves the queue from running to
draining in between, `shutdown` returns although nobody has stopped the queue (`stop_missed`).
In a run without that race a completed `shutdown` leaves the queue stopped for good
(`stopped_for_good`).
-/

namespace Libcoro.Queue

open Foundations

variable {κ α : Type*}

/-- No `shutdown` call stands between its load of `running` and its comparison when
`shutdown_drain` moves the queue from running to draining. -/
def DrainsUnraced (s : State κ α) : Action κ α → Prop
  | .advance c => s.pc c = .drainLock → s.mRunningState = .running →
      ∀ d, s.pc d ≠ .shutdownLock .running
  | _ => True

instance [Fintype κ] [DecidableEq κ] [DecidableEq α] (s : State κ α) (a : Action κ α) :
    Decidable (DrainsUnraced s a) := by
  unfold DrainsUnraced
  split <;> infer_instance

/-- Where a call stands in the closing of the queue. -/
def Pc.stage : Pc κ α → ClosingStage
  | .drainLock => .closing
  | .drainEmpty => .draining
  | .drainState => .draining
  | .shutdownLoad => .loading
  | .shutdownLock expected => .comparing expected
  | .shutdownResume _ => .finished
  | .shutdownReturned => .finished
  | _ => .outside

lemma Pc.stage_eq_closing {p : Pc κ α} : p.stage = .closing ↔ p = .drainLock := by
  cases p <;> simp [stage]

lemma Pc.stage_eq_comparing {x : RunningState} {p : Pc κ α} :
    p.stage = .comparing x ↔ p = .shutdownLock x := by
  cases p <;> simp [stage]

/-- A quiet step as a move of the closing. -/
lemma Quiet.move {s : State κ α} {q p : Pc κ α} {enters : Prop} (h : Quiet s q p) :
    ClosingStage.Move (s.mElements = []) enters s.mRunningState q.stage s.mRunningState
      p.stage := by
  cases h with
  | shutdownStopped hstop => exact .found hstop
  | shutdownLoaded hload => exact .load hload
  | shutdownLost hne => exact .lost hne
  | drainedEmpty hempty => exact .drained hempty
  | drainLeft hne => exact .drainLeft hne
  | shutdownDone | drainPending | drainYielded => exact .stay
  | _ => exact .leave

variable [DecidableEq κ] {s t : State κ α} {c d : κ}

/-- Every transition is a step of the closing.  A call begins a stop by the call of `shutdown`. -/
lemma Transition.closing (ht : Transition s c t) :
    ClosingStage.Step Pc.stage (s.mElements = []) (s.pc c = .idle ∧ t.pc c = .shutdownLoad) c
      s.mRunningState t.mRunningState s.pc t.pc := by
  cases ht with
  | quiet hq => exact .of_update hq.move
  | @call f hc =>
    refine .of_update ?_
    rw [hc]
    cases f with
    | shutdown => exact .enterStop ⟨rfl, by simp⟩
    | shutdownDrain => exact .enterDrain
    | _ => exact .leave
  | transfer hc => exact .of_resume rfl .leave
  | wake hc =>
    refine .of_resume rfl ?_
    rw [hc]
    exact .stay
  | stop hc hx =>
    refine .of_update ?_
    rw [hc, ← hx]
    exact .stop
  | drain hc hrun =>
    refine .of_update ?_
    rw [hc]
    exact .close hrun
  | _ => exact .of_update .leave

/-- The guard of a step, in the form in which its transition uses it. -/
lemma DrainsUnraced.of_step {a : Action κ α} (hguard : DrainsUnraced s a)
    (hstep : step s a = some t) (hc : s.pc a.actor = .drainLock)
    (hrun : s.mRunningState = .running) : ∀ d, s.pc d ≠ .shutdownLock .running := by
  cases a with
  | call c f | tryLockFails c =>
    change s.pc c = _ at hc
    simp [step, hc] at hstep
  | advance c => exact hguard hc hrun

/-- In a run without the race every `shutdown` call knows the running state. -/
lemma knows_of_reachable (h : (machine κ α).ReachableUnder DrainsUnraced s) :
    ∀ d, (s.pc d).stage.Knows s.mRunningState := by
  refine h.invariant (I := fun s => ∀ d, (s.pc d).stage.Knows s.mRunningState)
    (fun _ => trivial) ?_
  intro s a t _ hs hguard hstep
  refine (step_transition hstep).closing.knows hs fun hc hrun d hd => ?_
  exact hguard.of_step hstep (Pc.stage_eq_closing.mp hc) hrun d (Pc.stage_eq_comparing.mp hd)

/-! ## A stopped queue -/

/-- A stopped queue stays stopped, and its elements stay where they are. -/
lemma Transition.stopped (ht : Transition s c t) (hstop : s.mRunningState = .stopped) :
    t.mRunningState = .stopped ∧ t.mElements = s.mElements := by
  cases ht with
  | enqueue _ hrun | drain _ hrun => simp [hstop] at hrun
  | popElement _ hne | tryPopElement _ hne => exact (hne hstop).elim
  | stop => exact ⟨rfl, rfl⟩
  | _ => exact ⟨hstop, rfl⟩

/-- A stopped queue is stopped in the whole further course of a run, with the same elements. -/
lemma stopped_of_path (hst : (machine κ α).Path (fun _ _ => True) s t)
    (hstop : s.mRunningState = .stopped) :
    t.mRunningState = .stopped ∧ t.mElements = s.mElements := by
  refine hst.invariant (I := fun t => t.mRunningState = .stopped ∧ t.mElements = s.mElements)
    ⟨hstop, rfl⟩ ?_
  rintro t a t' ⟨ht, helems⟩ - hstep
  obtain ⟨ht', helems'⟩ := (step_transition hstep).stopped ht
  exact ⟨ht', helems'.trans helems⟩

/-- The calls that have not passed their critical section, with what they can be afterwards when
the queue is stopped: they do not wait and they get nothing. -/
@[simp] def Pc.Late (elem : Option α) : Pc κ α → Prop
  | .handOff _ _ => False
  | .pushReturned r => r = .stopped
  | .popSuspended => False
  | .popResume => elem = none
  | .popReturned r => r = .unexpected .stopped
  | _ => True

/-- A late call stays late when the queue is stopped. -/
lemma Transition.late (ht : Transition s c t) (hs : Sound s) (hstop : s.mRunningState = .stopped)
    (hd : (s.pc d).Late (s.mElement d)) : (t.pc d).Late (t.mElement d) := by
  have hmoved : ∀ {q : Pc κ α}, ((s.pc c).Late (s.mElement c) → q.Late (s.mElement c)) →
      (Function.update s.pc c q d).Late (s.mElement d) := by
    intro q hq
    rcases eq_or_ne d c with rfl | hdc
    · simpa using hq hd
    · simpa [hdc] using hd
  -- whoever is resumed was suspended, and a late call is not
  have hother : ∀ {w : κ}, w ∈ (s.pc c).inHand → d ≠ w := by
    rintro w hw rfl
    rw [(hs.suspended_of_mem_hand hw).1] at hd
    exact hd
  cases ht with
  | quiet hq =>
    apply hmoved
    generalize s.pc c = q at hq
    cases hq <;> simp
  | @call f hc =>
    have hcall := hmoved (q := f.entry) (by cases f <;> simp)
    exact hcall
  | enqueue _ hrun | handOff _ hrun | drain _ hrun => simp [hstop] at hrun
  | @transfer e w hc =>
    have hdw := hother (w := w) (by simp [hc, Pc.inHand])
    rcases eq_or_ne d c with rfl | hdc
    · simp [hc] at hd
    · simpa [hdw, hdc] using hd
  | popStopped hc _ =>
    rcases eq_or_ne d c with rfl | hdc
    · simp
    · simpa [hdc] using hd
  | popElement _ hne | popBlock _ hne | tryPopElement _ hne => exact (hne hstop).elim
  | popReturn hc =>
    apply hmoved
    rw [hc]
    intro hnone
    simp [show s.mElement c = none from hnone, awaitResume]
  | stop hc _ => exact hmoved fun _ => trivial
  | @wake w ws hc =>
    have hdw := hother (w := w) (by simp [hc, Pc.inHand])
    rcases eq_or_ne d c with rfl | hdc
    · simp
    · simpa [hdw, hdc] using hd

/-- A late call is late in the further course of a run. -/
lemma late_of_path (hs : (machine κ α).Reachable s)
    (hst : (machine κ α).Path (fun _ _ => True) s t) (hstop : s.mRunningState = .stopped)
    (hd : (s.pc d).Late (s.mElement d)) : (t.pc d).Late (t.mElement d) := by
  have hlate : t.mRunningState = .stopped ∧ (t.pc d).Late (t.mElement d) := by
    refine hs.along (I := fun t => t.mRunningState = .stopped ∧ (t.pc d).Late (t.mElement d))
      hst ⟨hstop, hd⟩ ?_
    rintro t a t' ht ⟨hstop, hlate⟩ hstep
    have htr := step_transition hstep
    exact ⟨htr.closing.own.stopped hstop, htr.late (sound_of_reachable ht) hstop hlate⟩
  exact hlate.2

/-- A `push` of a stopped queue returns `stopped`. -/
lemma exists_push_stopped (hstop : t.mRunningState = .stopped) {e : α} (hd : t.pc d = .push e) :
    ∃ t', (machine κ α).run t [.advance d] = some t' ∧ t'.pc d = .pushReturned .stopped := by
  refine ⟨t.goto d (.pushReturned .stopped), ?_, by simp⟩
  simp [Machine.run, Machine.runUnder, machine, step, advance, hd, push, hstop]

/-- A `pop` of a stopped queue returns `stopped`. -/
lemma exists_pop_stopped (hstop : t.mRunningState = .stopped) (hd : t.pc d = .pop) :
    ∃ t', (machine κ α).run t [.advance d, .advance d] = some t' ∧
      t'.pc d = .popReturned (.unexpected .stopped) := by
  refine ⟨((t.setElement d none).goto d .popResume).goto d (.popReturned (.unexpected .stopped)),
    ?_, by simp⟩
  simp [Machine.run, Machine.runUnder, machine, step, advance, hd, pop, hstop, awaitResume]

/-- Take a run in which no `shutdown` call stands between its load of `running` and its comparison
when `shutdown_drain` moves the queue from running to draining.  Whenever a `shutdown` call has
completed, the queue is stopped and nobody is on the list of waiters, and from then on, whatever
happens:
* the queue stays stopped, its elements stay as they are and nobody joins the list of waiters;
* every `push` and every `pop` that had not begun, or had not passed its critical section, never
  waits and returns `stopped`, which its own next steps make it do. -/
theorem stopped_for_good (h : (machine κ α).ReachableUnder DrainsUnraced s)
    (hret : s.pc c = .shutdownReturned) :
    s.mRunningState = .stopped ∧ s.mWaiters = [] ∧
    ∀ t, (machine κ α).Path (fun _ _ => True) s t →
      t.mRunningState = .stopped ∧ t.mWaiters = [] ∧ t.mElements = s.mElements ∧
      (∀ d, (s.pc d = .idle ∨ (∃ e, s.pc d = .push e) ∨ s.pc d = .pop) →
        (∀ r, t.pc d = .pushReturned r → r = .stopped) ∧
        (∀ r, t.pc d = .popReturned r → r = .unexpected .stopped) ∧
        (∀ e w, t.pc d ≠ .handOff e w) ∧ t.pc d ≠ .popSuspended) ∧
      (∀ d e, t.pc d = .push e → ∃ t', (machine κ α).run t [.advance d] = some t' ∧
        t'.pc d = .pushReturned .stopped) ∧
      (∀ d, t.pc d = .pop → ∃ t', (machine κ α).run t [.advance d, .advance d] = some t' ∧
        t'.pc d = .popReturned (.unexpected .stopped)) := by
  have hstop : s.mRunningState = .stopped := by
    simpa [hret, Pc.stage] using knows_of_reachable h c
  have hreach := h.reachable
  refine ⟨hstop, (sound_of_reachable hreach).stopped hstop, ?_⟩
  intro t hst
  obtain ⟨htstop, helems⟩ := stopped_of_path hst hstop
  refine ⟨htstop, (sound_of_reachable (hreach.trans hst)).stopped htstop, helems, ?_,
    fun d e hd => exists_push_stopped htstop hd, fun d hd => exists_pop_stopped htstop hd⟩
  intro d hd
  have hlate : (t.pc d).Late (t.mElement d) := by
    refine late_of_path hreach hst hstop ?_
    rcases hd with hd | ⟨e, hd⟩ | hd <;> rw [hd] <;> trivial
  refine ⟨?_, ?_, ?_, ?_⟩
  · intro r hr
    simpa [hr] using hlate
  · intro r hr
    simpa [hr] using hlate
  · intro e w hr
    simp [hr] at hlate
  · intro hr
    simp [hr] at hlate

/-- A `pop` waits, a drain begins, and two `shutdown` calls load the state afterwards; one of them
stops the queue and resumes the waiter, the other one returns at once. -/
def orderlyTrace : List (Action (Fin 4) ℕ) :=
  [.call 3 .pop, .advance 3, .call 0 .shutdownDrain, .advance 0, .call 1 .shutdown,
    .call 2 .shutdown, .advance 1, .advance 2, .advance 2, .advance 1, .advance 2, .advance 3]

/-- In the run above the call `1` completes while the call `2` still resumes the waiters; the queue
is stopped and the `pop` has returned `stopped`. -/
theorem stopped_for_good_orderly : ∃ s : State (Fin 4) ℕ,
    (machine (Fin 4) ℕ).runUnder DrainsUnraced start orderlyTrace = some s ∧
    s.pc 1 = .shutdownReturned ∧ s.pc 2 = .shutdownResume [] ∧
    s.pc 3 = .popReturned (.unexpected .stopped) ∧ s.mRunningState = .stopped :=
  ⟨_, rfl, rfl, rfl, rfl,
    (stopped_for_good (Machine.reachableUnder_of_run (l := orderlyTrace) rfl) (c := 1) rfl).1⟩

/-- A `shutdown` call loads `running`, the drain of a queue with one element begins, and the
`shutdown` call loses the comparison and returns.  Two `pop` calls follow. -/
def missedTrace : List (Action ℕ ℕ) :=
  [.call 0 (.push 10), .advance 0, .call 1 .shutdown, .advance 1, .call 2 .shutdownDrain,
    .advance 2, .advance 1, .call 3 .pop, .advance 3, .advance 3, .call 4 .pop, .advance 4]

/-- After the run above `shutdown` has completed, yet the queue is draining, a later `pop` has
returned an element and another one is waiting. -/
theorem stop_missed : ∃ s : State ℕ ℕ,
    (machine ℕ ℕ).run start missedTrace = some s ∧ (machine ℕ ℕ).Reachable s ∧
    s.pc 1 = .shutdownReturned ∧ s.mRunningState = .draining ∧
    s.pc 3 = .popReturned (.value 10) ∧ s.pc 4 = .popSuspended ∧ s.mWaiters = [4] :=
  ⟨_, rfl, Machine.reachable_of_run (l := missedTrace) rfl, rfl, rfl, rfl, rfl, rfl⟩

end Libcoro.Queue
