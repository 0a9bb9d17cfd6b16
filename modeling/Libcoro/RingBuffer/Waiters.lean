import Libcoro.Foundations.Placement
import Libcoro.RingBuffer.Transitions

/-!
# The suspended operations of a ring buffer

A suspended producer is on `m_produce_waiters`, or in the hands of the one call that detached
it and is going to resume it; likewise for consumers.  The calls that detach waiters are
`try_resume_producers` and `try_resume_consumers`, which pop one, and `notify_producers`,
`notify_consumers`, `shutdown` and `shutdown_drain`, which take a whole list.
-/

namespace Libcoro.RingBuffer

open Foundations Function

variable {n : ℕ} {κ α : Type*}

/-- The suspended producers that a call has detached and not resumed yet. -/
@[simp] def Pc.producersInHand : Pc κ α → List κ
  | .wakeProducer _ p => [p]
  | .wakeProducers _ ps => ps
  | _ => []

/-- The suspended consumers that a call has detached and not resumed yet. -/
@[simp] def Pc.consumersInHand : Pc κ α → List κ
  | .wakeConsumer _ w => [w]
  | .wakeConsumers _ ws => ws
  | .wakeProducers (.shutdown cs) _ => cs
  | _ => []

/-- The move from `q` to `p` does not concern the producers. -/
def Pc.ProducerNeutral (q p : Pc κ α) : Prop :=
  p.producersInHand = q.producersInHand ∧ (p = .produceSuspended ↔ q = .produceSuspended)

/-- The move from `q` to `p` does not concern the consumers. -/
def Pc.ConsumerNeutral (q p : Pc κ α) : Prop :=
  p.consumersInHand = q.consumersInHand ∧ (p = .consumeSuspended ↔ q = .consumeSuspended)

/-- Every suspended operation waits in exactly one place, and a suspended producer still has its
element. -/
structure Waiters (s : State n κ α) : Prop where
  producers : Parked Pc.producersInHand (· = .produceSuspended) s.mProduceWaiters s.pc
  consumers : Parked Pc.consumersInHand (· = .consumeSuspended) s.mConsumeWaiters s.pc
  element : ∀ p, s.pc p = .produceSuspended → ∃ e, (s.produceOp p).mE = some e

/-- A suspended call has no producer in hand. -/
lemma producersInHand_of_suspended (q : Pc κ α) (hq : q = .produceSuspended) :
    q.producersInHand = [] := by
  rw [hq]
  rfl

/-- A suspended call has no consumer in hand. -/
lemma consumersInHand_of_suspended (q : Pc κ α) (hq : q = .consumeSuspended) :
    q.consumersInHand = [] := by
  rw [hq]
  rfl

variable {p : Pc κ α}

/-- A quiet step neither suspends nor resumes anybody. -/
lemma Quiet.neutral {s : State n κ α} {q : Pc κ α} (h : Quiet s q p) :
    q.ProducerNeutral p ∧ q.ConsumerNeutral p := by
  cases h <;> simp [Pc.ProducerNeutral, Pc.ConsumerNeutral]

/-- A fresh call waits for nobody. -/
lemma entry_neutral (f : Call α) :
    (Pc.idle : Pc κ α).ProducerNeutral f.entry ∧ (Pc.idle : Pc κ α).ConsumerNeutral f.entry := by
  cases f <;> simp [Pc.ProducerNeutral, Pc.ConsumerNeutral]

/-- Nobody is suspended at the beginning. -/
lemma waiters_start : Waiters (start : State n κ α) :=
  ⟨Parked.nil rfl (by simp), Parked.nil rfl (by simp), fun p hp => by simp [start] at hp⟩

variable {c : κ}

/-- A producer in hand is suspended, and is not the call that holds it. -/
lemma Waiters.suspended_producer {s : State n κ α} (h : Waiters s) {w : κ}
    (hw : w ∈ (s.pc c).producersInHand) : s.pc w = .produceSuspended ∧ c ≠ w := by
  have hsusp : s.pc w = .produceSuspended := h.producers.of_mem_hand hw
  refine ⟨hsusp, ?_⟩
  rintro rfl
  simp [hsusp] at hw

/-- A consumer in hand is suspended, and is not the call that holds it. -/
lemma Waiters.suspended_consumer {s : State n κ α} (h : Waiters s) {w : κ}
    (hw : w ∈ (s.pc c).consumersInHand) : s.pc w = .consumeSuspended ∧ c ≠ w := by
  have hsusp : s.pc w = .consumeSuspended := h.consumers.of_mem_hand hw
  refine ⟨hsusp, ?_⟩
  rintro rfl
  simp [hsusp] at hw

variable [DecidableEq κ]

variable {pc : κ → Pc κ α}

/-- The producers do not notice a move of `c` that is neutral for them. -/
lemma producers_update {ws : List κ}
    (h : Parked Pc.producersInHand (· = .produceSuspended) ws pc)
    (hc : (pc c).ProducerNeutral p) :
    Parked Pc.producersInHand (· = .produceSuspended) ws (update pc c p) :=
  h.congr ((forall_update_iff pc fun d q => (pc d).ProducerNeutral q).mpr
    ⟨hc, fun _ _ => ⟨rfl, Iff.rfl⟩⟩)

/-- The consumers do not notice a move of `c` that is neutral for them. -/
lemma consumers_update {ws : List κ}
    (h : Parked Pc.consumersInHand (· = .consumeSuspended) ws pc)
    (hc : (pc c).ConsumerNeutral p) :
    Parked Pc.consumersInHand (· = .consumeSuspended) ws (update pc c p) :=
  h.congr ((forall_update_iff pc fun d q => (pc d).ConsumerNeutral q).mpr
    ⟨hc, fun _ _ => ⟨rfl, Iff.rfl⟩⟩)

/-- Suspended producers keep their elements when a call moves without suspending. -/
lemma element_update {op : κ → ProduceOperation α}
    (h : ∀ d, pc d = .produceSuspended → ∃ e, (op d).mE = some e)
    (hp : p = .produceSuspended → pc c = .produceSuspended) :
    ∀ d, update pc c p d = .produceSuspended → ∃ e, (op d).mE = some e := by
  refine (forall_update_iff pc
    fun d q => q = .produceSuspended → ∃ e, (op d).mE = some e).mpr ⟨?_, ?_⟩
  · exact fun hq => h c (hp hq)
  · exact fun d _ => h d

namespace Waiters

variable {s : State n κ α}

/-- A move of `c` that concerns neither side. -/
lemma goto (h : Waiters s) {c : κ} {p : Pc κ α}
    (hP : (s.pc c).ProducerNeutral p) (hC : (s.pc c).ConsumerNeutral p) : Waiters (s.goto c p) :=
  ⟨producers_update h.producers hP, consumers_update h.consumers hC,
    element_update h.element hP.2.mp⟩

/-- `c` resumes the producer `w`, whom it holds in hand. -/
lemma wake_producer (h : Waiters s) {c w : κ} {r : ProduceResult} {p : Pc κ α}
    (hc : (s.pc c).producersInHand = w :: p.producersInHand) (hp : p ≠ .produceSuspended)
    (hC : (s.pc c).ConsumerNeutral p) :
    Waiters ((s.goto w (.resumeConsumers r)).goto c p) := by
  obtain ⟨hw, hne⟩ := h.suspended_producer (c := c) (w := w) (hc ▸ List.mem_cons_self)
  refine ⟨?_, ?_, ?_⟩
  · exact h.producers.wake producersInHand_of_suspended (.of_eq hc) hp (by simp) rfl
  · refine consumers_update (consumers_update h.consumers ?_) ?_
    · simp [hw, Pc.ConsumerNeutral]
    · rwa [State.goto_pc, update_of_ne hne]
  · exact element_update (element_update h.element (by simp)) fun hq => (hp hq).elim

/-- `c` resumes the consumer `w`, whom it holds in hand. -/
lemma wake_consumer (h : Waiters s) {c w : κ} {r : Consumed α} {p : Pc κ α}
    (hc : (s.pc c).consumersInHand = w :: p.consumersInHand) (hp : p ≠ .consumeSuspended)
    (hP : (s.pc c).ProducerNeutral p) :
    Waiters ((s.goto w (.resumeProducers r)).goto c p) := by
  obtain ⟨hw, hne⟩ := h.suspended_consumer (c := c) (w := w) (hc ▸ List.mem_cons_self)
  have hP' : (update s.pc w (.resumeProducers r) c).ProducerNeutral p := by
    rwa [update_of_ne hne]
  refine ⟨?_, ?_, ?_⟩
  · refine producers_update (producers_update h.producers ?_) hP'
    simp [hw, Pc.ProducerNeutral]
  · exact h.consumers.wake consumersInHand_of_suspended (.of_eq hc) hp (by simp) rfl
  · exact element_update (element_update h.element (by simp)) hP'.2.mp

variable [NeZero n]

/-- Every transition keeps every suspended operation in exactly one place. -/
lemma transition {s' : State n κ α} {c : κ} (h : Waiters s) (ht : Transition s c s') :
    Waiters s' := by
  cases ht with
  | quiet hq => exact h.goto hq.neutral.1 hq.neutral.2
  | storeDirect hc _ _ =>
    have hgoto : Waiters (s.goto c (.resumeConsumers .produced)) := by
      refine h.goto ?_ ?_ <;> simp [hc, Pc.ProducerNeutral, Pc.ConsumerNeutral]
    exact { hgoto with }
  | @blockProducer e hc _ =>
    refine ⟨?_, ?_, ?_⟩
    · exact h.producers.park (by simp [hc]) rfl (by simp [hc])
    · exact consumers_update h.consumers (by simp [hc, Pc.ConsumerNeutral])
    · intro d hd
      by_cases hdc : d = c
      · exact ⟨e, by simp [hdc]⟩
      · obtain ⟨e', he'⟩ := h.element d (by simpa [hdc] using hd)
        exact ⟨e', by simpa [hdc] using he'⟩
  | @storeWaiter r p ps hc _ hw =>
    refine ⟨?_, ?_, ?_⟩
    · exact h.producers.exchange (by simp [hc, hw]) (by simp [hc])
    · exact consumers_update h.consumers (by simp [hc, Pc.ConsumerNeutral])
    · exact element_update h.element (by simp)
  | resumeProducer hc =>
    exact h.wake_producer (by simp [hc]) (by simp) (by simp [hc, Pc.ConsumerNeutral])
  | @wakeProducer k p ps hc =>
    have hC : (s.pc c).ConsumerNeutral (.wakeProducers k ps) := by
      cases k <;> simp [hc, Pc.ConsumerNeutral]
    have hwake := h.wake_producer (w := p)
      (r := ((s.setProduceResult p k.result).produceOp p).mResult) (by simp [hc]) (by simp) hC
    refine ⟨hwake.1, hwake.2, fun d hd => ?_⟩
    obtain ⟨e, he⟩ := hwake.3 d hd
    exact ⟨e, (s.setProduceResult_mE p d k.result).trans he⟩
  | notifyProducers hc | drain hc _ =>
    refine ⟨?_, ?_, ?_⟩
    · exact h.producers.exchange (by simp [hc]) (by simp [hc])
    · exact consumers_update h.consumers (by simp [hc, Pc.ConsumerNeutral])
    · exact element_update h.element (by simp)
  | takeDirect hc _ _ =>
    refine ⟨?_, ?_, ?_⟩
    · exact producers_update h.producers (by simp [hc, Pc.ProducerNeutral])
    · exact consumers_update h.consumers (by simp [hc, Pc.ConsumerNeutral])
    · exact element_update h.element (by simp)
  | blockConsumer hc _ =>
    refine ⟨?_, ?_, ?_⟩
    · exact producers_update h.producers (by simp [hc, Pc.ProducerNeutral])
    · exact h.consumers.park (by simp [hc]) rfl (by simp [hc])
    · exact element_update h.element (by simp)
  | @takeWaiter r w ws hc _ hw =>
    refine ⟨?_, ?_, ?_⟩
    · exact producers_update h.producers (by simp [hc, Pc.ProducerNeutral])
    · exact h.consumers.exchange (by simp [hc, hw]) (by simp [hc])
    · exact element_update h.element (by simp)
  | resumeConsumer hc =>
    exact h.wake_consumer (by simp [hc]) (by simp) (by simp [hc, Pc.ProducerNeutral])
  | @wakeConsumer r w ws hc =>
    have hwake := h.wake_consumer (c := c) (w := w)
      (r := ((s.setConsumeResult w r).consumeOp w).awaitResume) (p := .wakeConsumers r ws)
      (by simp [hc]) (by simp) (by simp [hc, Pc.ProducerNeutral])
    exact { hwake with }
  | notifyConsumers hc =>
    refine ⟨?_, ?_, ?_⟩
    · exact producers_update h.producers (by simp [hc, Pc.ProducerNeutral])
    · exact h.consumers.exchange (by simp [hc]) (by simp [hc])
    · exact element_update h.element (by simp)
  | stop hc _ =>
    have hgoto : Waiters (s.goto c .shutdownDetach) := by
      refine h.goto ?_ ?_ <;> simp [hc, Pc.ProducerNeutral, Pc.ConsumerNeutral]
    exact { hgoto with }
  | detach hc =>
    refine ⟨?_, ?_, ?_⟩
    · exact h.producers.exchange (by simp [hc]) (by simp [hc])
    · exact h.consumers.exchange (by simp [hc]) (by simp [hc])
    · exact element_update h.element (by simp)

/-- Every step of the system keeps every suspended operation in exactly one place. -/
lemma step {s' : State n κ α} {a : Action κ α} (h : Waiters s)
    (hstep : RingBuffer.step s a = some s') : Waiters s' := by
  rcases step_cases hstep with ⟨c, f, rfl, hc, rfl⟩ | ⟨c, rfl, ht⟩
  · have hgoto : Waiters (s.goto c f.entry) :=
      h.goto (hc ▸ (entry_neutral f).1) (hc ▸ (entry_neutral f).2)
    exact { hgoto with }
  · exact h.transition ht

end Waiters

/-- In every reachable state each suspended operation waits in exactly one place. -/
theorem waiters_of_reachable [NeZero n] {s : State n κ α} (h : (machine n κ α).Reachable s) :
    Waiters s :=
  h.invariant waiters_start fun _ _ _ _ hs hstep => hs.step hstep

end Libcoro.RingBuffer
