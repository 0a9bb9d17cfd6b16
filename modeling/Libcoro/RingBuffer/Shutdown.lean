import Libcoro.RingBuffer.Waiters

/-!
# What `shutdown` achieves

`shutdown` loads `m_running_state` before it takes the lock and compares it afterwards, so that
one caller only does the wake-ups.  When `shutdown_drain` moves the buffer from running to
draining in between, the comparison fails and `shutdown` returns although nobody has stopped
the buffer (`shutdown_lost`).  In a run without that race a completed `shutdown` leaves the
buffer stopped for good (`shutdown_stops`).
-/

namespace Libcoro.RingBuffer

open Foundations

variable {n : ℕ} {κ α : Type*}

/-- No `shutdown` call stands between its load of `running` and its comparison when
`shutdown_drain` moves the buffer from running to draining. -/
def DrainsUnraced (s : State n κ α) : Action κ α → Prop
  | .advance c => s.pc c = .drainLock → s.mRunningState = .running →
      ∀ d, s.pc d ≠ .shutdownLock .running
  | .call _ _ => True

instance [Fintype κ] [DecidableEq κ] [DecidableEq α] (s : State n κ α) (a : Action κ α) :
    Decidable (DrainsUnraced s a) :=
  match a with
  | .advance c => inferInstanceAs (Decidable (s.pc c = .drainLock → _ → _))
  | .call _ _ => isTrue trivial

/-- Where a call stands in the closing of the buffer. -/
@[simp] def Pc.stage : Pc κ α → ClosingStage
  | .drainLock => .closing
  | .wakeProducers .drain _ => .draining
  | .drainEmpty => .draining
  | .drainState => .draining
  | .shutdownLoad => .loading
  | .shutdownLock expected => .comparing expected
  | .shutdownDetach => .finished
  | .wakeProducers (.shutdown _) _ => .finished
  | .wakeConsumers .stopped _ => .finished
  | .shutdownReturned => .finished
  | _ => .outside

variable {p : Pc κ α}

lemma Pc.stage_eq_closing (h : p.stage = .closing) : p = .drainLock := by
  unfold stage at h
  split at h <;> simp_all

lemma Pc.stage_eq_comparing {x : RunningState} (h : p.stage = .comparing x) :
    p = .shutdownLock x := by
  unfold stage at h
  split at h <;> simp_all

variable {q : Pc κ α}

/-- A quiet step as a move of the closing. -/
lemma Quiet.move {s : State n κ α} {enters : Prop} (h : Quiet s q p) :
    ClosingStage.Move (s.ring.used = 0) enters s.mRunningState q.stage s.mRunningState p.stage := by
  cases h with
  | shutdownStopped hstop => exact .found hstop
  | shutdownLoaded hload => exact .load hload
  | shutdownLost hne => exact .lost hne
  | drainedEmpty hempty => exact .drained hempty
  | drainLeft hne => exact .drainLeft hne
  | producersStopped | producersReleased | consumersStopped | drainPending | drainYielded =>
    exact .stay
  | _ => exact .leave

/-- What only the `shutdown` call that stopped the buffer has to do, and that it does it. -/
structure Detaching (s : State n κ α) : Prop where
  expected : ∀ d, s.pc d ≠ .shutdownLock .stopped
  stopped : ∀ d, s.pc d = .shutdownDetach → s.mRunningState = .stopped
  unique : ∀ d d', s.pc d = .shutdownDetach → s.pc d' = .shutdownDetach → d = d'
  pending : s.mRunningState = .stopped → (∃ d, s.pc d = .shutdownDetach) ∨
    (s.mProduceWaiters = [] ∧ s.mConsumeWaiters = [])

/-- The move from `q` to `p` neither enters nor leaves the part of `shutdown` that detaches the
waiters. -/
def Pc.DetachNeutral (q p : Pc κ α) : Prop :=
  p ≠ .shutdownLock .stopped ∧ (p = .shutdownDetach ↔ q = .shutdownDetach)

/-- A quiet step is of this kind. -/
lemma Quiet.detachNeutral {s : State n κ α} (h : Quiet s q p) :
    q.DetachNeutral p := by
  cases h <;> simp_all [Pc.DetachNeutral]

/-- What a call knows that began when the buffer was stopped: it does not suspend, and its result
is `stopped`. -/
@[simp] def Pc.Late : Pc κ α → Prop
  | .produceSuspended => False
  | .resumeConsumers r => r = .stopped
  | .wakeConsumer r _ => r = .stopped
  | .produceReturned r => r = .stopped
  | .consumeSuspended => False
  | .resumeProducers r => r = .unexpected .stopped
  | .wakeProducer r _ => r = .unexpected .stopped
  | .consumeReturned r => r = .unexpected .stopped
  | _ => True

/-- A quiet step of a late call. -/
lemma Quiet.late {s : State n κ α} (h : Quiet s q p) (hq : q.Late) : p.Late := by
  cases h <;> first | exact hq | trivial

variable [DecidableEq κ]

section Updates

variable {s : State n κ α} {c w : κ}

/-- The control points after a neutral move of `c`. -/
lemma Detaching.update (h : Detaching s) {p : Pc κ α} (hp : (s.pc c).DetachNeutral p) :
    ∀ d, Function.update s.pc c p d ≠ .shutdownLock .stopped ∧
      (Function.update s.pc c p d = .shutdownDetach ↔ s.pc d = .shutdownDetach) :=
  (Function.forall_update_iff s.pc fun d q => (s.pc d).DetachNeutral q).mpr
    ⟨hp, fun d _ => ⟨h.expected d, Iff.rfl⟩⟩

/-- The control points after neutral moves of `w` and `c`. -/
lemma Detaching.update_update (h : Detaching s) {a p : Pc κ α} (ha : (s.pc w).DetachNeutral a)
    (hp : (s.pc c).DetachNeutral p) :
    ∀ d, Function.update (Function.update s.pc w a) c p d ≠ .shutdownLock .stopped ∧
      (Function.update (Function.update s.pc w a) c p d = .shutdownDetach ↔
        s.pc d = .shutdownDetach) :=
  (Function.forall_update_iff _ fun d q => (s.pc d).DetachNeutral q).mpr
    ⟨hp, fun d _ => h.update ha d⟩

end Updates

/-- A call of a member function is a step of the closing: it begins a stop if it is `shutdown`. -/
lemma closing_of_call (s : State n κ α) {c : κ} (f : Call α) (hc : s.pc c = .idle) :
    ClosingStage.Step Pc.stage (s.ring.used = 0) (f = .shutdown) c s.mRunningState s.mRunningState
      s.pc (s.goto c f.entry).pc := by
  refine .of_update ?_
  rw [hc]
  cases f with
  | shutdown => exact .enterStop rfl
  | shutdownDrain => exact .enterDrain
  | _ => exact .leave

variable [NeZero n]

variable {s' : State n κ α}

/-- Every transition is a step of the closing that begins no stop. -/
lemma Transition.closing {s : State n κ α} {c : κ} (ht : Transition s c s') :
    ClosingStage.Step Pc.stage (s.ring.used = 0) False c s.mRunningState s'.mRunningState
      s.pc s'.pc := by
  cases ht with
  | quiet hq => exact .of_update hq.move
  | resumeProducer | resumeConsumer => exact .of_resume rfl .leave
  | @wakeProducer k p ps hc =>
    refine .of_resume rfl ?_
    rw [hc]
    cases k <;> exact .stay
  | @wakeConsumer r w ws hc =>
    refine .of_resume rfl ?_
    rw [hc]
    cases r <;> exact .stay
  | drain hc hrun =>
    refine .of_update ?_
    rw [hc]
    exact .close hrun
  | stop hc hx =>
    refine .of_update ?_
    rw [hc, ← hx]
    exact .stop
  | detach hc =>
    refine .of_update ?_
    rw [hc]
    exact .stay
  | _ => exact .of_update .leave

/-- In a run without the race every `shutdown` call knows the running state. -/
lemma knows_of_reachable {s : State n κ α} (h : (machine n κ α).ReachableUnder DrainsUnraced s) :
    ∀ d, (s.pc d).stage.Knows s.mRunningState := by
  refine h.invariant (I := fun s => ∀ d, (s.pc d).stage.Knows s.mRunningState)
    (fun _ => trivial) fun s a s' _ hs hG hstep => ?_
  rcases step_cases hstep with ⟨c, f, rfl, hc, rfl⟩ | ⟨c, rfl, ht⟩
  · refine (closing_of_call s f hc).knows hs ?_
    simp [hc]
  · refine ht.closing.knows hs fun hc hrun d hd => ?_
    exact hG (Pc.stage_eq_closing hc) hrun d (Pc.stage_eq_comparing hd)

/-! ## A stopped buffer -/

/-- Nobody joins the waiter lists of a stopped buffer. -/
lemma Transition.waiters_nil {s : State n κ α} {c : κ} (ht : Transition s c s')
    (hstop : s.mRunningState = .stopped)
    (hnil : s.mProduceWaiters = [] ∧ s.mConsumeWaiters = []) :
    s'.mProduceWaiters = [] ∧ s'.mConsumeWaiters = [] := by
  cases ht with
  | blockProducer _ hrun | drain _ hrun => simp [hstop] at hrun
  | blockConsumer _ hne => exact (hne hstop).elim
  | storeWaiter _ _ hps => simp [hnil.1] at hps
  | takeWaiter _ _ hws => simp [hnil.2] at hws
  | notifyProducers => exact ⟨rfl, hnil.2⟩
  | notifyConsumers => exact ⟨hnil.1, rfl⟩
  | detach => exact ⟨rfl, rfl⟩
  | _ => exact hnil

namespace Detaching

variable {s s' : State n κ α} {c w : κ}

/-- A step in which nobody begins or completes the detaching. -/
lemma keep (h : Detaching s) (ht : Transition s c s')
    (hpc : ∀ d, s'.pc d ≠ .shutdownLock .stopped ∧
      (s'.pc d = .shutdownDetach ↔ s.pc d = .shutdownDetach))
    (hstate : s'.mRunningState = .stopped → s.mRunningState = .stopped) : Detaching s' := by
  refine ⟨fun d => (hpc d).1, fun d hd => ?_, fun d d' hd hd' => ?_, fun hstop => ?_⟩
  · exact ht.closing.own.stopped (h.stopped d ((hpc d).2.mp hd))
  · exact h.unique d d' ((hpc d).2.mp hd) ((hpc d').2.mp hd')
  · rcases h.pending (hstate hstop) with ⟨d, hd⟩ | hnil
    · exact Or.inl ⟨d, (hpc d).2.mpr hd⟩
    · exact Or.inr (ht.waiters_nil (hstate hstop) hnil)

/-- Every transition leaves the detaching to the call that stopped the buffer. -/
lemma transition (h : Detaching s) (hw : Waiters s) (ht : Transition s c s') : Detaching s' := by
  have ht' := ht
  cases ht with
  | quiet hq => exact h.keep ht' (h.update hq.detachNeutral) id
  | @resumeProducer r p hc | @wakeProducer k p ps hc =>
    obtain ⟨hsusp, -⟩ := hw.suspended_producer (c := c) (w := p) (by simp [hc])
    refine h.keep ht' (h.update_update ?_ ?_) id
    · simp [hsusp, Pc.DetachNeutral]
    · simp [hc, Pc.DetachNeutral]
  | @resumeConsumer r w hc | @wakeConsumer r w ws hc =>
    obtain ⟨hsusp, -⟩ := hw.suspended_consumer (c := c) (w := w) (by simp [hc])
    refine h.keep ht' (h.update_update ?_ ?_) id
    · simp [hsusp, Pc.DetachNeutral]
    · simp [hc, Pc.DetachNeutral]
  | drain hc _ => exact h.keep ht' (h.update (by simp [hc, Pc.DetachNeutral])) (by simp)
  | @stop x hc hx =>
    -- the buffer was not stopped before, so nobody else is detaching
    have hnone : ∀ d, s.pc d ≠ .shutdownDetach := by
      intro d hd
      exact h.expected c (by rw [hc, ← hx, h.stopped d hd])
    have honly : ∀ d, Function.update s.pc c .shutdownDetach d = .shutdownDetach → d = c := by
      intro d hd
      by_contra hdc
      exact hnone d (by simpa [hdc] using hd)
    refine ⟨fun d => ?_, fun d _ => rfl, fun d d' hd hd' => ?_, fun _ => Or.inl ⟨c, ?_⟩⟩
    · by_cases hdc : d = c
      · simp [hdc]
      · simpa [hdc] using h.expected d
    · rw [honly d hd, honly d' hd']
    · simp
  | detach hc =>
    have hother : ∀ d, Function.update s.pc c
        (.wakeProducers (.shutdown s.mConsumeWaiters) s.mProduceWaiters) d ≠ .shutdownDetach := by
      intro d hd
      by_cases hdc : d = c
      · simp [hdc] at hd
      · exact hdc (h.unique d c (by simpa [hdc] using hd) hc)
    refine ⟨fun d => ?_, fun d hd => (hother d hd).elim, fun d d' hd => (hother d hd).elim,
      fun _ => Or.inr ⟨rfl, rfl⟩⟩
    by_cases hdc : d = c
    · simp [hdc]
    · simpa [hdc] using h.expected d
  | _ => exact h.keep ht' (h.update (by simp_all [Pc.DetachNeutral])) id

end Detaching

/-- In every reachable state the detaching is left to the call that stopped the buffer. -/
lemma detaching_of_reachable {s : State n κ α} (h : (machine n κ α).Reachable s) :
    Detaching s := by
  refine h.invariant ?_ fun s a s' hr hs hstep => ?_
  · refine ⟨fun d => ?_, fun d hd => ?_, fun d d' hd => ?_, fun _ => Or.inr ⟨rfl, rfl⟩⟩
    · simp [machine, start]
    · simp [machine, start] at hd
    · simp [machine, start] at hd
  · rcases step_cases hstep with ⟨c, f, rfl, hc, rfl⟩ | ⟨c, rfl, ht⟩
    · have hpc := hs.update (c := c) (p := f.entry)
        (by cases f <;> simp [hc, Pc.DetachNeutral])
      refine ⟨fun d => (hpc d).1, fun d hd => hs.stopped d ((hpc d).2.mp hd),
        fun d d' hd hd' => hs.unique d d' ((hpc d).2.mp hd) ((hpc d').2.mp hd'), fun hstop => ?_⟩
      rcases hs.pending hstop with ⟨d, hd⟩ | hempty
      · exact Or.inl ⟨d, (hpc d).2.mpr hd⟩
      · exact Or.inr hempty
    · exact hs.transition (waiters_of_reachable hr) ht

variable {d : κ}

/-- A call that began when the buffer was stopped stays late. -/
lemma Transition.late {s : State n κ α} {c : κ} (ht : Transition s c s') (hw : Waiters s)
    (hstop : s.mRunningState = .stopped) (hd : (s.pc d).Late) : (s'.pc d).Late := by
  -- whoever is resumed was suspended, and a late call is not
  have hwoken : ∀ {w : κ} {a p : Pc κ α}, ¬ (s.pc w).Late → ((s.pc c).Late → p.Late) →
      (Function.update (Function.update s.pc w a) c p d).Late := by
    intro w a p hlate hp
    by_cases hdc : d = c
    · subst hdc
      simpa using hp hd
    · have hdw : d ≠ w := by
        rintro rfl
        exact hlate hd
      simpa [hdc, hdw] using hd
  have hmoved : ∀ {p : Pc κ α}, ((s.pc c).Late → p.Late) → (Function.update s.pc c p d).Late := by
    intro p hp
    by_cases hdc : d = c
    · subst hdc
      simpa using hp hd
    · simpa [hdc] using hd
  cases ht with
  | quiet hq => exact hmoved hq.late
  | storeDirect _ hrun | blockProducer _ hrun => simp [hstop] at hrun
  | takeDirect _ hne | blockConsumer _ hne => exact (hne hstop).elim
  | storeWaiter hc | takeWaiter hc => exact hmoved fun hlate => by simpa [hc] using hlate
  | @resumeProducer r p hc =>
    obtain ⟨hsusp, -⟩ := hw.suspended_producer (c := c) (w := p) (by simp [hc])
    exact hwoken (by simp [hsusp]) fun hlate => by simpa [hc] using hlate
  | @wakeProducer k p ps hc =>
    obtain ⟨hsusp, -⟩ := hw.suspended_producer (c := c) (w := p) (by simp [hc])
    exact hwoken (by simp [hsusp]) fun _ => trivial
  | @resumeConsumer r w hc =>
    obtain ⟨hsusp, -⟩ := hw.suspended_consumer (c := c) (w := w) (by simp [hc])
    exact hwoken (by simp [hsusp]) fun hlate => by simpa [hc] using hlate
  | @wakeConsumer r w ws hc =>
    obtain ⟨hsusp, -⟩ := hw.suspended_consumer (c := c) (w := w) (by simp [hc])
    exact hwoken (by simp [hsusp]) fun _ => trivial
  | _ => exact hmoved fun _ => trivial

variable {t : State n κ α}

/-- A call that had not begun when the buffer was stopped is late in the further course of the
run. -/
lemma late_of_path {s : State n κ α} (hs : (machine n κ α).Reachable s)
    (hst : (machine n κ α).Path (fun _ _ => True) s t) (hstop : s.mRunningState = .stopped)
    (hd : s.pc d = .idle) : (t.pc d).Late := by
  have hlate : t.mRunningState = .stopped ∧ (t.pc d).Late := by
    refine hs.along (I := fun t => t.mRunningState = .stopped ∧ (t.pc d).Late) hst
      ⟨hstop, by rw [hd]; trivial⟩ ?_
    rintro t a t' ht ⟨hstop, hlate⟩ hstep
    rcases step_cases hstep with ⟨c, f, rfl, hc, rfl⟩ | ⟨c, rfl, htr⟩
    · refine ⟨hstop, ?_⟩
      by_cases hdc : d = c
      · subst hdc
        cases f <;> simp
      · simpa [hdc] using hlate
    · exact ⟨htr.closing.own.stopped hstop, htr.late (waiters_of_reachable ht) hstop hlate⟩
  exact hlate.2

/-- A stopped buffer is stopped in the whole further course of a run. -/
lemma stopped_of_path {s : State n κ α} (hst : (machine n κ α).Path (fun _ _ => True) s t)
    (hstop : s.mRunningState = .stopped) : t.mRunningState = .stopped := by
  refine hst.invariant (I := fun t => t.mRunningState = .stopped) hstop ?_
  intro t a t' ht _ hstep
  rcases step_cases hstep with ⟨c, f, rfl, hc, rfl⟩ | ⟨c, rfl, htr⟩
  · exact ht
  · exact htr.closing.own.stopped ht

/-- A `produce` at its last loop returns by its own next steps: each round but the last takes a
waiter off the list. -/
lemma exists_produceReturned (d : κ) (r : ProduceResult) (ws : List κ) (t : State n κ α)
    (hws : t.mConsumeWaiters = ws) (hd : t.pc d = .resumeConsumers r) :
    ∃ k t', (machine n κ α).run t (List.replicate k (.advance d)) = some t' ∧
      t'.pc d = .produceReturned r := by
  induction ws generalizing t with
  | nil =>
    refine ⟨1, t.goto d (.produceReturned r), Machine.run_cons.mpr ⟨_, ?_, rfl⟩, by simp⟩
    simp [machine, step, advance, hd, tryResumeConsumers, hws]
  | cons w ws ih =>
    by_cases hused : 0 < t.ring.used
    · obtain ⟨t₁, hstep, hpc, hrest⟩ : ∃ t₁, (machine n κ α).step t (.advance d) = some t₁ ∧
          t₁.pc d = .wakeConsumer r w ∧ t₁.mConsumeWaiters = ws := by
        refine ⟨tryResumeConsumers t d r, by simp [machine, step, advance, hd], ?_⟩
        simp [tryResumeConsumers, hused, hws]
      obtain ⟨k, t', hrun, ht'⟩ := ih ((t₁.resumeConsumer w).goto d (.resumeConsumers r)) hrest
        (by simp)
      refine ⟨k + 2, t', ?_, ht'⟩
      refine Machine.run_cons.mpr ⟨t₁, hstep, Machine.run_cons.mpr ⟨_, ?_, hrun⟩⟩
      simp [machine, step, advance, hpc]
    · refine ⟨1, t.goto d (.produceReturned r), Machine.run_cons.mpr ⟨_, ?_, rfl⟩, by simp⟩
      simp [machine, step, advance, hd, tryResumeConsumers, hused]

/-- A `consume` at its last loop returns by its own next steps. -/
lemma exists_consumeReturned (d : κ) (r : Consumed α) (ws : List κ) (t : State n κ α)
    (hws : t.mProduceWaiters = ws) (hd : t.pc d = .resumeProducers r) :
    ∃ k t', (machine n κ α).run t (List.replicate k (.advance d)) = some t' ∧
      t'.pc d = .consumeReturned r := by
  induction ws generalizing t with
  | nil =>
    refine ⟨1, t.goto d (.consumeReturned r), Machine.run_cons.mpr ⟨_, ?_, rfl⟩, by simp⟩
    simp [machine, step, advance, hd, tryResumeProducers, hws]
  | cons w ws ih =>
    by_cases hroom : t.ring.used < n
    · obtain ⟨t₁, hstep, hpc, hrest⟩ : ∃ t₁, (machine n κ α).step t (.advance d) = some t₁ ∧
          t₁.pc d = .wakeProducer r w ∧ t₁.mProduceWaiters = ws := by
        refine ⟨tryResumeProducers t d r, by simp [machine, step, advance, hd], ?_⟩
        simp [tryResumeProducers, hroom, hws]
      obtain ⟨k, t', hrun, ht'⟩ := ih ((t₁.resumeProducer w).goto d (.resumeProducers r)) hrest
        (by simp)
      refine ⟨k + 2, t', ?_, ht'⟩
      refine Machine.run_cons.mpr ⟨t₁, hstep, Machine.run_cons.mpr ⟨_, ?_, hrun⟩⟩
      simp [machine, step, advance, hpc]
    · refine ⟨1, t.goto d (.consumeReturned r), Machine.run_cons.mpr ⟨_, ?_, rfl⟩, by simp⟩
      simp [machine, step, advance, hd, tryResumeProducers, hroom]

/-- A `produce` of a stopped buffer returns `stopped` by its own next steps. -/
lemma exists_produce_stopped {e : α}
    (hstop : t.mRunningState = .stopped) (hd : t.pc d = .produce e) :
    ∃ k t', (machine n κ α).run t (List.replicate k (.advance d)) = some t' ∧
      t'.pc d = .produceReturned .stopped := by
  obtain ⟨k, t', hrun, ht'⟩ := exists_produceReturned d .stopped _
    (t.goto d (.resumeConsumers .stopped)) rfl (by simp)
  refine ⟨k + 1, t', Machine.run_cons.mpr ⟨_, ?_, hrun⟩, ht'⟩
  simp [machine, step, advance, hd, produce, hstop]

/-- A `consume` of a stopped buffer returns `stopped` by its own next steps. -/
lemma exists_consume_stopped (hstop : t.mRunningState = .stopped)
    (hd : t.pc d = .consume) :
    ∃ k t', (machine n κ α).run t (List.replicate k (.advance d)) = some t' ∧
      t'.pc d = .consumeReturned (.unexpected .stopped) := by
  obtain ⟨k, t', hrun, ht'⟩ := exists_consumeReturned d (.unexpected .stopped) _
    (t.goto d (.resumeProducers (.unexpected .stopped))) rfl (by simp)
  refine ⟨k + 1, t', Machine.run_cons.mpr ⟨_, ?_, hrun⟩, ht'⟩
  simp [machine, step, advance, hd, consume, hstop, ConsumeOperation.awaitResume]

/-- A call that has to detach the lists can do so. -/
lemma exists_step_detach (hd : t.pc d = .shutdownDetach) :
    ∃ t', (machine n κ α).step t (.advance d) = some t' ∧
      t'.mProduceWaiters = [] ∧ t'.mConsumeWaiters = [] := by
  refine ⟨{ t.goto d (.wakeProducers (.shutdown t.mConsumeWaiters) t.mProduceWaiters) with
    mProduceWaiters := [], mConsumeWaiters := [] }, ?_, rfl, rfl⟩
  simp only [machine, step, advance, hd]

/-- Take a run in which no `shutdown` call stands between its load of `running` and its comparison
when `shutdown_drain` moves the buffer from running to draining.  Whenever a `shutdown` call
has completed, the buffer is stopped, and from then on, whatever happens: it stays stopped;
every `produce` and `consume` called later returns `stopped` and is never suspended, and its own
next steps make it return; and nobody is on a waiter list, except while the
one call that stopped the buffer has yet to detach the lists, which its next step does. -/
theorem shutdown_stops {s : State n κ α} (h : (machine n κ α).ReachableUnder DrainsUnraced s)
    {c : κ} (hret : s.pc c = .shutdownReturned) :
    s.mRunningState = .stopped ∧
    ∀ t, (machine n κ α).Path (fun _ _ => True) s t →
      t.mRunningState = .stopped ∧
      (∀ d, s.pc d = .idle →
        (∀ r, t.pc d = .produceReturned r → r = .stopped) ∧
        (∀ r, t.pc d = .consumeReturned r → r = .unexpected .stopped) ∧
        t.pc d ≠ .produceSuspended ∧ t.pc d ≠ .consumeSuspended) ∧
      (∀ d e, t.pc d = .produce e → ∃ k t', (machine n κ α).run t (.replicate k (.advance d)) =
        some t' ∧ t'.pc d = .produceReturned .stopped) ∧
      (∀ d, t.pc d = .consume → ∃ k t', (machine n κ α).run t (.replicate k (.advance d)) =
        some t' ∧ t'.pc d = .consumeReturned (.unexpected .stopped)) ∧
      (∀ d d', t.pc d = .shutdownDetach → t.pc d' = .shutdownDetach → d = d') ∧
      ((t.mProduceWaiters = [] ∧ t.mConsumeWaiters = []) ∨
        ∃ d t', t.pc d = .shutdownDetach ∧ (machine n κ α).step t (.advance d) = some t' ∧
          t'.mProduceWaiters = [] ∧ t'.mConsumeWaiters = []) := by
  have hstop : s.mRunningState = .stopped := by
    simpa [hret] using knows_of_reachable h c
  refine ⟨hstop, fun t hst => ?_⟩
  have htstop := stopped_of_path hst hstop
  refine ⟨htstop, fun d hd => ?_, fun d e => exists_produce_stopped htstop,
    fun d => exists_consume_stopped htstop, ?_, ?_⟩
  · have hlate := late_of_path h.reachable hst hstop hd
    refine ⟨fun r hr => ?_, fun r hr => ?_, fun hr => ?_, fun hr => ?_⟩
    · simpa [hr] using hlate
    · simpa [hr] using hlate
    · simp [hr] at hlate
    · simp [hr] at hlate
  · exact (detaching_of_reachable (h.reachable.trans hst)).unique
  · rcases (detaching_of_reachable (h.reachable.trans hst)).pending htstop with ⟨d, hd⟩ | hnil
    · obtain ⟨t', hstep, hnil⟩ := exists_step_detach hd
      exact Or.inr ⟨d, t', hd, hstep, hnil⟩
    · exact Or.inl hnil

/-- Two `shutdown` calls and a drain, without the race: the drain begins before the calls load
the state. -/
def stoppedTrace : List (Action (Fin 4) ℕ) :=
  [.call 0 .shutdownDrain, .advance 0, .call 1 .shutdown, .call 2 .shutdown, .advance 1,
    .advance 2, .advance 2, .advance 1]

/-- In the run above the call `1` completes while the call `2` has still to detach the lists;
the buffer is stopped. -/
theorem shutdown_stops_race_free : ∃ s : State 1 (Fin 4) ℕ,
    (machine 1 (Fin 4) ℕ).runUnder DrainsUnraced start stoppedTrace = some s ∧
    s.pc 1 = .shutdownReturned ∧ s.pc 2 = .shutdownDetach ∧ s.mRunningState = .stopped :=
  ⟨_, rfl, rfl, rfl,
    (shutdown_stops (Machine.reachableUnder_of_run (l := stoppedTrace) rfl) (c := 1) rfl).1⟩

/-- A `shutdown` call loads `running`, the drain of a buffer with one element begins, and the
`shutdown` call loses the comparison and returns.  Two consumers follow. -/
def lostTrace : List (Action ℕ ℕ) :=
  [.call 0 (.produce 10), .advance 0, .advance 0, .call 1 .shutdown, .advance 1,
    .call 2 .shutdownDrain, .advance 2, .advance 1, .call 3 .consume, .advance 3, .advance 3,
    .call 4 .consume, .advance 4]

/-- After the run above `shutdown` has completed, yet the buffer is draining, a later `consume`
has returned an element and another one is suspended. -/
theorem shutdown_lost : ∃ s : State 1 ℕ ℕ,
    (machine 1 ℕ ℕ).run start lostTrace = some s ∧ (machine 1 ℕ ℕ).Reachable s ∧
    s.pc 1 = .shutdownReturned ∧ s.mRunningState = .draining ∧
    s.pc 3 = .consumeReturned (.value 10) ∧ s.pc 4 = .consumeSuspended ∧
    s.mConsumeWaiters = [4] :=
  ⟨_, rfl, Machine.reachable_of_run (l := lostTrace) rfl, rfl, rfl, rfl, rfl, rfl⟩

end Libcoro.RingBuffer
