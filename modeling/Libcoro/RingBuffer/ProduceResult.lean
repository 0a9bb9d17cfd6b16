import Libcoro.RingBuffer.Waiters

/-!
# What `produce` reports

`produce(e)` should return `produced` exactly when `e` was moved into a slot.  A blocked
producer is completed by `try_resume_producers`, `notify_producers`, `shutdown` or
`shutdown_drain`.  The last one resumes the producers it detaches without writing their
`m_result`, which is `produced` from the start, so a producer that is blocked when the drain
begins reports an element that was never stored (`produce_drained`).  As long as no producer
is blocked at that moment the reports are true (`produce_truthful`).
-/

namespace Libcoro.RingBuffer

open Foundations Function

variable {n : ℕ} {κ α : Type*}

/-- The call is a `produce` that will return, or has returned, `produced`. -/
@[simp] def Pc.Produced : Pc κ α → Prop
  | .resumeConsumers r => r = .produced
  | .wakeConsumer r _ => r = .produced
  | .produceReturned r => r = .produced
  | _ => False

/-- The producer whose element `try_resume_producers` has just stored and that it is about to
resume. -/
@[simp] def Pc.stored : Pc κ α → Option κ
  | .wakeProducer _ p => some p
  | _ => none

/-- The buffer took the element of `c`. -/
def State.Deposited (s : State n κ α) (c : κ) : Prop :=
  (s.pc c).Produced ∨ ∃ d, (s.pc d).stored = some c

/-- The move from `q` to `p` says nothing about stored elements. -/
def Pc.DepositNeutral (q p : Pc κ α) : Prop :=
  (p.Produced ↔ q.Produced) ∧ p.stored = q.stored

/-- A quiet step says nothing about stored elements. -/
lemma Quiet.depositNeutral {s : State n κ α} {q p : Pc κ α} (h : Quiet s q p) :
    q.DepositNeutral p := by
  cases h <;> simp [Pc.DepositNeutral]

/-- No producer is suspended when `shutdown_drain` moves the buffer from running to draining. -/
def DrainsUnblocked (s : State n κ α) : Action κ α → Prop
  | .advance c => s.pc c = .drainLock → s.mRunningState = .running → s.mProduceWaiters = []
  | .call _ _ => True

instance [DecidableEq κ] [DecidableEq α] (s : State n κ α) (a : Action κ α) :
    Decidable (DrainsUnblocked s a) := by
  unfold DrainsUnblocked
  split <;> infer_instance

/-- What a `produce` call and its operation agree on while the call is in progress. -/
@[simp] def Pc.ProducerSound (called : Option (Call α)) (op : ProduceOperation α) : Pc κ α → Prop
  | .produce e => called = some (.produce e)
  | .produceSuspended =>
    op.mResult = .produced ∧ ∃ e, called = some (.produce e) ∧ op.mE = some e
  | .wakeProducers .drain ps => ps = []
  | _ => True

/-- Quiet steps lead to control points without obligations. -/
lemma Quiet.producerSound {s : State n κ α} {q p : Pc κ α} (h : Quiet s q p)
    (called : Option (Call α)) (op : ProduceOperation α) : p.ProducerSound called op := by
  cases h <;> trivial

/-- The producer that `d` is about to resume is in the hands of `d`. -/
lemma mem_producersInHand_of_stored {q : Pc κ α} {p : κ} (h : q.stored = some p) :
    p ∈ q.producersInHand := by
  cases q <;> simp_all

/-- A call whose critical section is still to come has deposited nothing. -/
lemma Waiters.not_deposited_of_produce {s : State n κ α} (hw : Waiters s) {c : κ} {e : α}
    (hc : s.pc c = .produce e) : ¬ s.Deposited c := by
  rintro (hprod | ⟨d, hd⟩)
  · simp [hc] at hprod
  · have hsusp := hw.producers.of_mem_hand (mem_producersInHand_of_stored hd)
    simp [hc] at hsusp

/-- A producer on the waiter list has deposited nothing. -/
lemma Waiters.not_deposited_of_mem {s : State n κ α} (hw : Waiters s) {p : κ}
    (hp : p ∈ s.mProduceWaiters) : ¬ s.Deposited p := by
  have hsusp : s.pc p = .produceSuspended := hw.producers.of_mem_list hp
  rintro (hprod | ⟨d, hd⟩)
  · simp [hsusp] at hprod
  · exact hw.producers.not_mem_hand hp d (mem_producersInHand_of_stored hd)

variable [DecidableEq κ]

/-- The accounts of the producers. -/
structure Truthful (s : State n κ α) : Prop where
  sound : ∀ c, (s.pc c).ProducerSound (s.called c) (s.produceOp c)
  deposited : ∀ c, s.Deposited c →
    ∃ e, s.called c = some (.produce e) ∧ elementsOf s.stored c = [e]
  refused : ∀ c, ¬ s.Deposited c → elementsOf s.stored c = []

/-- A neutral move of `c` changes nobody's deposit. -/
lemma deposited_goto {s : State n κ α} {c : κ} {p : Pc κ α} (hp : (s.pc c).DepositNeutral p)
    (d : κ) : (s.goto c p).Deposited d ↔ s.Deposited d := by
  have hpc : ∀ d, (s.pc d).DepositNeutral ((s.goto c p).pc d) :=
    (forall_update_iff s.pc fun d q => (s.pc d).DepositNeutral q).mpr
      ⟨hp, fun _ _ => ⟨Iff.rfl, rfl⟩⟩
  unfold State.Deposited
  rw [(hpc d).1]
  simp only [(hpc _).2]

/-- The moves of `w` and then of `c`, both neutral. -/
lemma deposited_goto_goto {s : State n κ α} {c w : κ} {a p : Pc κ α} (hne : c ≠ w)
    (ha : (s.pc w).DepositNeutral a) (hp : (s.pc c).DepositNeutral p) (d : κ) :
    ((s.goto w a).goto c p).Deposited d ↔ s.Deposited d := by
  rw [deposited_goto _ d, deposited_goto ha d]
  rwa [State.goto_pc, update_of_ne hne]

/-- When `c` reports `produced` its element counts as stored. -/
lemma deposited_goto_produced {s : State n κ α} {c : κ} (hc : (s.pc c).stored = none) (d : κ) :
    (s.goto c (.resumeConsumers .produced)).Deposited d ↔ d = c ∨ s.Deposited d := by
  have hstored : ∀ x, ((s.goto c (.resumeConsumers .produced)).pc x).stored = (s.pc x).stored :=
    (forall_update_iff s.pc fun x q => q.stored = (s.pc x).stored).mpr
      ⟨hc.symm, fun _ _ => rfl⟩
  unfold State.Deposited
  simp only [hstored]
  by_cases hd : d = c
  · simp [hd]
  · simp [hd]

/-- When `c` is about to resume `p` the element of `p` counts as stored. -/
lemma deposited_goto_wakeProducer {s : State n κ α} {c p : κ} {r : Consumed α}
    (hc : s.pc c = .resumeProducers r) (d : κ) :
    (s.goto c (.wakeProducer r p)).Deposited d ↔ d = p ∨ s.Deposited d := by
  have hprod : ((s.goto c (.wakeProducer r p)).pc d).Produced ↔ (s.pc d).Produced := by
    by_cases hd : d = c
    · simp [hd, hc]
    · simp [hd]
  have hstored : (∃ x, ((s.goto c (.wakeProducer r p)).pc x).stored = some d) ↔
      d = p ∨ ∃ x, (s.pc x).stored = some d := by
    constructor
    · rintro ⟨x, hx⟩
      by_cases hxc : x = c
      · left
        simpa [hxc, eq_comm] using hx
      · exact Or.inr ⟨x, by simpa [hxc] using hx⟩
    · rintro (rfl | ⟨x, hx⟩)
      · exact ⟨c, by simp⟩
      · have hxc : x ≠ c := by
          rintro rfl
          simp [hc] at hx
        exact ⟨x, by simpa [hxc] using hx⟩
  unfold State.Deposited
  rw [hprod, hstored]
  tauto

/-- When `c` resumes the producer `w` that it let in, the report of `w` replaces the hand of
`c` as the evidence that its element is stored. -/
lemma deposited_resume {s : State n κ α} {c w : κ} {r : Consumed α}
    (hc : s.pc c = .wakeProducer r w) (hw : s.pc w = .produceSuspended) (d : κ) :
    ((s.goto w (.resumeConsumers .produced)).goto c (.resumeProducers r)).Deposited d ↔
      s.Deposited d := by
  have hne : w ≠ c := by
    rintro rfl
    simp [hw] at hc
  by_cases hdw : d = w
  · subst hdw
    refine iff_of_true (Or.inl ?_) (Or.inr ⟨c, by simp [hc]⟩)
    simp [hne]
  · have hprod : (update (update s.pc w (.resumeConsumers .produced)) c
        (.resumeProducers r) d).Produced ↔ (s.pc d).Produced := by
      by_cases hdc : d = c
      · simp [hdc, hc]
      · simp [hdc, hdw]
    have hstored : ∀ x, (update (update s.pc w (.resumeConsumers .produced)) c
        (.resumeProducers r) x).stored = some d ↔ (s.pc x).stored = some d := by
      intro x
      by_cases hxc : x = c
      · simp [hxc, hc, Ne.symm hdw]
      · by_cases hxw : x = w
        · simp [hxw, hne, hw]
        · simp [hxc, hxw]
    unfold State.Deposited
    rw [State.goto_pc, State.goto_pc, hprod]
    simp only [hstored]

namespace Truthful

variable {s s' : State n κ α} {c w p : κ}

/-- The obligations of the control points after `c` has moved to `q`. -/
lemma sound_update (h : Truthful s) {q : Pc κ α}
    (hq : q.ProducerSound (s.called c) (s.produceOp c)) :
    ∀ d, (update s.pc c q d).ProducerSound (s.called d) (s.produceOp d) :=
  (forall_update_iff s.pc fun d q => q.ProducerSound (s.called d) (s.produceOp d)).mpr
    ⟨hq, fun d _ => h.sound d⟩

/-- A step that stores nothing and changes nobody's deposit. -/
lemma keep (h : Truthful s) (hiff : ∀ d, s'.Deposited d ↔ s.Deposited d)
    (hstored : s'.stored = s.stored) (hcalled : s'.called = s.called)
    (hsound : ∀ d, (s'.pc d).ProducerSound (s'.called d) (s'.produceOp d)) : Truthful s' := by
  refine ⟨hsound, fun d hd => ?_, fun d hd => ?_⟩
  · rw [hstored, hcalled]
    exact h.deposited d ((hiff d).mp hd)
  · rw [hstored]
    exact h.refused d (mt (hiff d).mpr hd)

/-- A step that stores the element of `p`. -/
lemma deposit (h : Truthful s) {e : α} (hnew : ¬ s.Deposited p)
    (hcall : s.called p = some (.produce e)) (hiff : ∀ d, s'.Deposited d ↔ d = p ∨ s.Deposited d)
    (hstored : s'.stored = s.stored ++ (some e).toList.map (p, ·)) (hcalled : s'.called = s.called)
    (hsound : ∀ d, (s'.pc d).ProducerSound (s'.called d) (s'.produceOp d)) : Truthful s' := by
  refine ⟨hsound, fun d hd => ?_, fun d hd => ?_⟩
  · rw [hstored, hcalled, elementsOf_append]
    by_cases hdp : d = p
    · exact ⟨e, hdp ▸ hcall, by simp [hdp, h.refused p hnew]⟩
    · simpa [hdp] using h.deposited d (((hiff d).mp hd).resolve_left hdp)
  · obtain ⟨hdp, hd'⟩ := not_or.mp (mt (hiff d).mpr hd)
    rw [hstored, elementsOf_append, h.refused d hd']
    simp [hdp]

/-- A neutral move of `c` to a control point without obligations. -/
lemma goto (h : Truthful s) {q : Pc κ α} (hneutral : (s.pc c).DepositNeutral q)
    (hq : q.ProducerSound (s.called c) (s.produceOp c)) : Truthful (s.goto c q) :=
  h.keep (deposited_goto hneutral) rfl rfl (h.sound_update hq)

/-- `c` resumes `w`, and neither move concerns a stored element. -/
lemma wake (h : Truthful s) {a q : Pc κ α} (hne : c ≠ w) (hw : (s.pc w).DepositNeutral a)
    (ha : a.ProducerSound (s.called w) (s.produceOp w)) (hc : (s.pc c).DepositNeutral q)
    (hq : q.ProducerSound (s.called c) (s.produceOp c)) : Truthful ((s.goto w a).goto c q) := by
  refine h.keep (deposited_goto_goto hne hw hc) rfl rfl ?_
  exact (h.goto hw ha).sound_update (c := c) hq

variable [NeZero n]

/-- Every transition keeps the accounts, provided that no producer is blocked when a drain
begins. -/
lemma transition (h : Truthful s) (hw : Waiters s) (hguard : DrainsUnblocked s (.advance c))
    (ht : Transition s c s') : Truthful s' := by
  cases ht with
  | quiet hq => exact h.goto hq.depositNeutral (hq.producerSound _ _)
  | @storeDirect e hc _ _ =>
    have hcall : s.called c = some (.produce e) := by simpa [hc] using h.sound c
    refine h.deposit (hw.not_deposited_of_produce hc) hcall ?_ rfl rfl
      (h.sound_update trivial)
    exact deposited_goto_produced (by simp [hc])
  | @blockProducer e hc _ =>
    have hcall : s.called c = some (.produce e) := by simpa [hc] using h.sound c
    have hneutral : (s.pc c).DepositNeutral .produceSuspended := by
      simp [hc, Pc.DepositNeutral]
    refine h.keep (deposited_goto hneutral) rfl rfl fun d => ?_
    by_cases hdc : d = c
    · subst hdc
      simp [hcall]
    · simpa [hdc] using h.sound d
  | @storeWaiter r p ps hc _ hps =>
    have hp : p ∈ s.mProduceWaiters := hps ▸ List.mem_cons_self
    have hsusp : s.pc p = .produceSuspended := hw.producers.of_mem_list hp
    obtain ⟨-, e, hcall, he⟩ : (s.produceOp p).mResult = .produced ∧
        ∃ e, s.called p = some (.produce e) ∧ (s.produceOp p).mE = some e := by
      simpa [hsusp] using h.sound p
    refine h.deposit (hw.not_deposited_of_mem hp) hcall ?_ ?_ rfl (h.sound_update trivial)
    · exact deposited_goto_wakeProducer hc
    · rw [← he]
      rfl
  | @resumeProducer r p hc =>
    obtain ⟨hsusp, hne⟩ := hw.suspended_producer (c := c) (w := p) (by simp [hc])
    obtain ⟨hres, -⟩ : (s.produceOp p).mResult = .produced ∧
        ∃ e, s.called p = some (.produce e) ∧ (s.produceOp p).mE = some e := by
      simpa [hsusp] using h.sound p
    unfold State.resumeProducer
    rw [hres]
    refine h.keep (deposited_resume hc hsusp) rfl rfl fun d => ?_
    by_cases hdc : d = c
    · simp [hdc]
    · by_cases hdp : d = p
      · simp [hdp, hne.symm]
      · simpa [hdc, hdp] using h.sound d
  | @wakeProducer k p ps hc =>
    obtain ⟨hsusp, hne⟩ := hw.suspended_producer (c := c) (w := p) (by simp [hc])
    -- a drain has nobody to wake
    have hk : k ≠ .drain := by
      rintro rfl
      have hnil := h.sound c
      simp [hc] at hnil
    have hres : k.result.getD (s.produceOp p).mResult ≠ .produced := by
      cases k with
      | notify | shutdown cs => simp [Waker.result]
      | drain => exact (hk rfl).elim
    have hiff := deposited_goto_goto (s := s) hne
      (a := .resumeConsumers ((s.setProduceResult p k.result).produceOp p).mResult)
      (p := .wakeProducers k ps)
      (by simp [hsusp, hres, Pc.DepositNeutral])
      (by simp [hc, Pc.DepositNeutral])
    refine h.keep (fun d => hiff d) rfl rfl fun d => ?_
    by_cases hdc : d = c
    · subst hdc
      cases k with
      | notify | shutdown cs => simp
      | drain => exact (hk rfl).elim
    · by_cases hdp : d = p
      · subst hdp
        simp [hdc, State.resumeProducer]
      · simpa [hdc, hdp, State.resumeProducer] using h.sound d
  | notifyProducers hc =>
    exact { h.goto (c := c) (q := .wakeProducers .notify s.mProduceWaiters)
      (by simp [hc, Pc.DepositNeutral]) trivial with }
  | drain hc hrun =>
    exact { h.goto (c := c) (q := .wakeProducers .drain s.mProduceWaiters)
      (by simp [hc, Pc.DepositNeutral]) (hguard hc hrun) with }
  | takeDirect hc _ _ =>
    exact { h.goto (c := c)
      (q := .resumeProducers (ConsumeOperation.awaitResume { mE := s.ring.oldest }))
      (by simp [hc, Pc.DepositNeutral]) trivial with }
  | blockConsumer hc _ =>
    exact { h.goto (c := c) (q := .consumeSuspended)
      (by simp [hc, Pc.DepositNeutral]) trivial with }
  | @takeWaiter r w ws hc _ _ =>
    exact { h.goto (c := c) (q := .wakeConsumer r w)
      (by simp [hc, Pc.DepositNeutral]) trivial with }
  | @resumeConsumer r w hc =>
    obtain ⟨hsusp, hne⟩ := hw.suspended_consumer (c := c) (w := w) (by simp [hc])
    refine h.wake hne ?_ trivial ?_ trivial
    · simp [hsusp, Pc.DepositNeutral]
    · simp [hc, Pc.DepositNeutral]
  | @wakeConsumer r w ws hc =>
    obtain ⟨hsusp, hne⟩ := hw.suspended_consumer (c := c) (w := w) (by simp [hc])
    exact { h.wake hne
      (a := .resumeProducers ((s.setConsumeResult w r).consumeOp w).awaitResume)
      (q := .wakeConsumers r ws) (by simp [hsusp, Pc.DepositNeutral])
      trivial (by simp [hc, Pc.DepositNeutral]) trivial with }
  | notifyConsumers hc =>
    exact { h.goto (c := c) (q := .wakeConsumers .notified s.mConsumeWaiters)
      (by simp [hc, Pc.DepositNeutral]) trivial with }
  | stop hc _ =>
    exact { h.goto (c := c) (q := .shutdownDetach)
      (by simp [hc, Pc.DepositNeutral]) trivial with }
  | detach hc =>
    exact { h.goto (c := c)
      (q := .wakeProducers (.shutdown s.mConsumeWaiters) s.mProduceWaiters)
      (by simp [hc, Pc.DepositNeutral]) trivial with }

/-- Every step of the system keeps the accounts under the same proviso. -/
lemma step {a : Action κ α} (h : Truthful s) (hw : Waiters s) (hguard : DrainsUnblocked s a)
    (hstep : RingBuffer.step s a = some s') : Truthful s' := by
  rcases step_cases hstep with ⟨c, f, rfl, hc, rfl⟩ | ⟨c, rfl, ht⟩
  · have hneutral : (s.pc c).DepositNeutral f.entry := by
      cases f <;> simp [hc, Pc.DepositNeutral]
    -- nothing has been recorded for a key that is used for the first time
    have hfresh : ¬ s.Deposited c := by
      rintro (hprod | ⟨d, hd⟩)
      · simp [hc] at hprod
      · have hsusp := hw.producers.of_mem_hand (mem_producersInHand_of_stored hd)
        simp [hc] at hsusp
    refine ⟨fun d => ?_, fun d hd => ?_, fun d hd => ?_⟩
    · by_cases hdc : d = c
      · subst hdc
        cases f <;> simp
      · simpa [hdc] using h.sound d
    · have hd' : s.Deposited d := (deposited_goto hneutral d).mp hd
      have hdc : d ≠ c := by
        rintro rfl
        exact hfresh hd'
      simpa [hdc] using h.deposited d hd'
    · exact h.refused d (mt (deposited_goto hneutral d).mpr hd)
  · exact h.transition hw hguard ht

end Truthful

/-- The accounts are empty at the beginning. -/
lemma truthful_start : Truthful (start : State n κ α) := by
  refine ⟨fun c => trivial, fun c hc => ?_, fun c _ => rfl⟩
  simp [State.Deposited, start] at hc

variable [NeZero n]

/-- The accounts are right in every run whose drains begin without a blocked producer. -/
lemma truthful_of_reachable {s : State n κ α}
    (h : (machine n κ α).ReachableUnder DrainsUnblocked s) : Truthful s :=
  h.invariant truthful_start fun _ _ _ hr hs hG hstep =>
    hs.step (waiters_of_reachable hr.reachable) hG hstep

/-- In every run in which no producer is suspended when `shutdown_drain` moves the buffer from
running to draining, a call `produce(e)` that has returned reported `produced` if and only if
`e` was stored exactly once, and in the other cases `e` was never stored. -/
theorem produce_truthful {s : State n κ α}
    (h : (machine n κ α).ReachableUnder DrainsUnblocked s) {c : κ} {e : α} {r : ProduceResult}
    (hcall : s.called c = some (.produce e)) (hret : s.pc c = .produceReturned r) :
    (r = .produced ↔ elementsOf s.stored c = [e]) ∧
    (r ≠ .produced → elementsOf s.stored c = []) := by
  have htruth := truthful_of_reachable h
  have hrefused : r ≠ .produced → elementsOf s.stored c = [] := by
    intro hr
    refine htruth.refused c ?_
    rintro (hprod | ⟨d, hd⟩)
    · rw [hret] at hprod
      exact hr hprod
    · have hw := waiters_of_reachable h.reachable
      have hsusp := hw.producers.of_mem_hand (mem_producersInHand_of_stored hd)
      simp [hret] at hsusp
  refine ⟨⟨fun hr => ?_, fun hstored => ?_⟩, hrefused⟩
  · obtain ⟨e', hcall', hstored⟩ := htruth.deposited c (Or.inl (by rw [hret]; exact hr))
    obtain rfl : e' = e := by simpa [hcall] using hcall'.symm
    exact hstored
  · by_contra hr
    simp [hrefused hr] at hstored

/-- A producer blocks on a full buffer of one slot and is notified; the buffer is then drained
without anybody blocked on it. -/
def notifiedTrace : List (Action (Fin 4) ℕ) :=
  [.call 0 (.produce 10), .advance 0, .advance 0, .call 1 (.produce 11), .advance 1,
    .call 2 .notifyProducers, .advance 2, .advance 2, .advance 2, .advance 1,
    .call 3 .shutdownDrain, .advance 3, .advance 3]

/-- The notified producer of the run above reports `notified`, and its element was not stored. -/
theorem produce_truthful_notified : ∃ s : State 1 (Fin 4) ℕ,
    (machine 1 (Fin 4) ℕ).runUnder DrainsUnblocked start notifiedTrace = some s ∧
    s.mRunningState = .draining ∧ s.pc 1 = .produceReturned .notified ∧
    elementsOf s.stored 1 = [] ∧ elementsOf s.stored 0 = [10] :=
  ⟨_, rfl, rfl, rfl,
    (produce_truthful (Machine.reachableUnder_of_run (l := notifiedTrace) rfl)
      (c := 1) (e := 11) rfl rfl).2 (by decide),
    (produce_truthful (Machine.reachableUnder_of_run (l := notifiedTrace) rfl)
      (c := 0) (e := 10) rfl rfl).1.mp rfl⟩

/-- A producer blocks on a full buffer of one slot, and `shutdown_drain` resumes it. -/
def drainedTrace : List (Action ℕ ℕ) :=
  [.call 0 (.produce 10), .advance 0, .advance 0, .call 1 (.produce 11), .advance 1,
    .call 2 .shutdownDrain, .advance 2, .advance 2, .advance 1]

/-- The drained producer of the run above reports `produced` although its element was never
stored. -/
theorem produce_drained : ∃ s : State 1 ℕ ℕ,
    (machine 1 ℕ ℕ).run start drainedTrace = some s ∧ (machine 1 ℕ ℕ).Reachable s ∧
    s.called 1 = some (.produce 11) ∧ s.pc 1 = .produceReturned .produced ∧
    elementsOf s.stored 1 = [] :=
  ⟨_, rfl, Machine.reachable_of_run (l := drainedTrace) rfl, rfl, rfl, rfl⟩

end Libcoro.RingBuffer
