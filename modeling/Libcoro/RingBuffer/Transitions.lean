import Libcoro.RingBuffer.Model

/-!
# The transitions of `coro::ring_buffer`

`Transition s c s'` lists what one step of the call `c` can do, one constructor for each kind
of effect; the steps that move nothing but the control point of `c` are collected in `Quiet`.
Every invariant of the buffer is proved by cases on this relation, and `advance` is unfolded
here only.
-/

namespace Libcoro.RingBuffer

open Foundations Function

variable {n : ℕ} {κ α : Type*}

/-- The steps that only move the control point, from the first argument to the second. -/
inductive Quiet (s : State n κ α) : Pc κ α → Pc κ α → Prop
  | produceStopped {e : α} : s.mRunningState ≠ .running →
      Quiet s (.produce e) (.resumeConsumers .stopped)
  | consumersDone {r : ProduceResult} : Quiet s (.resumeConsumers r) (.produceReturned r)
  | consumeStopped : s.mRunningState = .stopped →
      Quiet s .consume (.resumeProducers (.unexpected .stopped))
  | producersDone {r : Consumed α} : Quiet s (.resumeProducers r) (.consumeReturned r)
  | notifyProducersStopped : Quiet s .notifyProducersLoad .notifyReturned
  | notifyProducersLoaded : Quiet s .notifyProducersLoad .notifyProducersLock
  | notifyConsumersStopped : Quiet s .notifyConsumersLoad .notifyReturned
  | notifyConsumersLoaded : Quiet s .notifyConsumersLoad .notifyConsumersLock
  | producersNotified : Quiet s (.wakeProducers .notify []) .notifyReturned
  | producersStopped {cs : List κ} :
      Quiet s (.wakeProducers (.shutdown cs) []) (.wakeConsumers .stopped cs)
  | producersReleased : Quiet s (.wakeProducers .drain []) .drainEmpty
  | consumersNotified : Quiet s (.wakeConsumers .notified []) .notifyReturned
  | consumersStopped : Quiet s (.wakeConsumers .stopped []) .shutdownReturned
  | shutdownStopped : s.mRunningState = .stopped → Quiet s .shutdownLoad .shutdownReturned
  | shutdownLoaded : s.mRunningState ≠ .stopped →
      Quiet s .shutdownLoad (.shutdownLock s.mRunningState)
  | shutdownLost {expected : RunningState} : s.mRunningState ≠ expected →
      Quiet s (.shutdownLock expected) .shutdownReturned
  | drainRefused : Quiet s .drainLock .drainReturned
  | drainedEmpty : s.ring.used = 0 → Quiet s .drainEmpty .shutdownLoad
  | drainPending : Quiet s .drainEmpty .drainState
  | drainYielded : Quiet s .drainState .drainEmpty
  | drainLeft : s.mRunningState ≠ .draining → Quiet s .drainState .shutdownLoad

/-! ## Reading the history and the fields of a state -/

/-- The elements that a log attributes to the call `c`, in order. -/
def elementsOf [DecidableEq κ] (log : List (κ × α)) (c : κ) : List α :=
  (log.filter (·.1 = c)).map Prod.snd

/-- An entry of `w` lengthens the share of `w` and of nobody else. -/
lemma elementsOf_append [DecidableEq κ] (log : List (κ × α)) (w c : κ) (o : Option α) :
    elementsOf (log ++ o.toList.map (w, ·)) c =
      elementsOf log c ++ if c = w then o.toList else [] := by
  unfold elementsOf
  rw [List.filter_append, List.map_append]
  congr 1
  cases o with
  | none => simp
  | some e =>
    by_cases hc : c = w
    · simp [hc]
    · simp [hc, Ne.symm hc]

section Fields

variable (s : State n κ α)

@[simp] lemma State.store_pc [NeZero n] (p : κ) (e : Option α) : (s.store p e).pc = s.pc := rfl

@[simp] lemma State.remove_pc [NeZero n] (w : κ) : (s.remove w).pc = s.pc := rfl

variable [DecidableEq κ]

@[simp] lemma State.goto_pc (c : κ) (p : Pc κ α) :
    (s.goto c p).pc = update s.pc c p := rfl

@[simp] lemma State.setProduceResult_pc (p : κ) (r : Option ProduceResult) :
    (s.setProduceResult p r).pc = s.pc := rfl

@[simp] lemma State.setConsumeResult_pc (w : κ) (r : ConsumeResult) :
    (s.setConsumeResult w r).pc = s.pc := rfl

/-- Writing `m_result` leaves the element in the operation. -/
@[simp] lemma State.setProduceResult_mE (p d : κ) (r : Option ProduceResult) :
    ((s.setProduceResult p r).produceOp d).mE = (s.produceOp d).mE := by
  by_cases hd : d = p
  · simp [hd]
  · simp [hd]

/-- Writing `m_result` leaves the element in the operation. -/
@[simp] lemma State.setConsumeResult_mE (w d : κ) (r : ConsumeResult) :
    ((s.setConsumeResult w r).consumeOp d).mE = (s.consumeOp d).mE := by
  by_cases hd : d = w
  · simp [State.setConsumeResult, hd]
  · simp [State.setConsumeResult, hd]

end Fields

variable [NeZero n] [DecidableEq κ]

/-! ## The transitions -/

/-- What one step of the call `c` can do. -/
inductive Transition (s : State n κ α) (c : κ) : State n κ α → Prop
  | quiet {p : Pc κ α} : Quiet s (s.pc c) p → Transition s c (s.goto c p)
  | storeDirect {e : α} : s.pc c = .produce e → s.mRunningState = .running → s.ring.used < n →
      Transition s c ((s.store c (some e)).goto c (.resumeConsumers .produced))
  | blockProducer {e : α} : s.pc c = .produce e → s.mRunningState = .running →
      Transition s c
        { s.goto c .produceSuspended with
          mProduceWaiters := c :: s.mProduceWaiters
          produceOp := update s.produceOp c { mE := some e } }
  | storeWaiter {r : Consumed α} {p : κ} {ps : List κ} : s.pc c = .resumeProducers r →
      s.ring.used < n → s.mProduceWaiters = p :: ps →
      Transition s c
        { (s.store p (s.produceOp p).mE).goto c (.wakeProducer r p) with mProduceWaiters := ps }
  | resumeProducer {r : Consumed α} {p : κ} : s.pc c = .wakeProducer r p →
      Transition s c ((s.resumeProducer p).goto c (.resumeProducers r))
  | wakeProducer {k : Waker κ} {p : κ} {ps : List κ} : s.pc c = .wakeProducers k (p :: ps) →
      Transition s c
        (((s.setProduceResult p k.result).resumeProducer p).goto c (.wakeProducers k ps))
  | notifyProducers : s.pc c = .notifyProducersLock →
      Transition s c
        { s.goto c (.wakeProducers .notify s.mProduceWaiters) with mProduceWaiters := [] }
  | drain : s.pc c = .drainLock → s.mRunningState = .running →
      Transition s c
        { s.goto c (.wakeProducers .drain s.mProduceWaiters) with
          mRunningState := .draining
          mProduceWaiters := [] }
  | takeDirect : s.pc c = .consume → s.mRunningState ≠ .stopped → 0 < s.ring.used →
      Transition s c ((s.remove c).goto c
        (.resumeProducers (ConsumeOperation.awaitResume { mE := s.ring.oldest })))
  | blockConsumer : s.pc c = .consume → s.mRunningState ≠ .stopped →
      Transition s c
        { s.goto c .consumeSuspended with
          mConsumeWaiters := c :: s.mConsumeWaiters
          consumeOp := update s.consumeOp c {} }
  | takeWaiter {r : ProduceResult} {w : κ} {ws : List κ} : s.pc c = .resumeConsumers r →
      0 < s.ring.used → s.mConsumeWaiters = w :: ws →
      Transition s c
        { (s.remove w).goto c (.wakeConsumer r w) with
          mConsumeWaiters := ws
          consumeOp := update s.consumeOp w { s.consumeOp w with mE := s.ring.oldest } }
  | resumeConsumer {r : ProduceResult} {w : κ} : s.pc c = .wakeConsumer r w →
      Transition s c ((s.resumeConsumer w).goto c (.resumeConsumers r))
  | wakeConsumer {r : ConsumeResult} {w : κ} {ws : List κ} : s.pc c = .wakeConsumers r (w :: ws) →
      Transition s c
        (((s.setConsumeResult w r).resumeConsumer w).goto c (.wakeConsumers r ws))
  | notifyConsumers : s.pc c = .notifyConsumersLock →
      Transition s c
        { s.goto c (.wakeConsumers .notified s.mConsumeWaiters) with mConsumeWaiters := [] }
  | stop {expected : RunningState} : s.pc c = .shutdownLock expected →
      s.mRunningState = expected →
      Transition s c { s.goto c .shutdownDetach with mRunningState := .stopped }
  | detach : s.pc c = .shutdownDetach →
      Transition s c
        { s.goto c (.wakeProducers (.shutdown s.mConsumeWaiters) s.mProduceWaiters) with
          mProduceWaiters := []
          mConsumeWaiters := [] }

/-- A quiet transition, given by the two control points. -/
lemma Transition.of_quiet {s : State n κ α} {c : κ} {q p : Pc κ α} (hc : s.pc c = q)
    (h : Quiet s q p) : Transition s c (s.goto c p) :=
  .quiet (hc ▸ h)

/-- The critical section of `produce`. -/
lemma produce_transition {s : State n κ α} {c : κ} {e : α} (hc : s.pc c = .produce e) :
    Transition s c (produce s c e) := by
  unfold produce
  split_ifs with hrun hroom
  · exact .of_quiet hc (.produceStopped hrun)
  · exact .storeDirect hc (not_not.mp hrun) hroom
  · exact .blockProducer hc (not_not.mp hrun)

/-- The critical section of `consume`. -/
lemma consume_transition {s : State n κ α} {c : κ} (hc : s.pc c = .consume) :
    Transition s c (consume s c) := by
  unfold consume
  split_ifs with hstop hused
  · exact .of_quiet hc (.consumeStopped hstop)
  · exact .takeDirect hc hstop hused
  · exact .blockConsumer hc hstop

/-- The critical section of `try_resume_producers`. -/
lemma tryResumeProducers_transition {s : State n κ α} {c : κ} {r : Consumed α}
    (hc : s.pc c = .resumeProducers r) : Transition s c (tryResumeProducers s c r) := by
  unfold tryResumeProducers
  split_ifs with hroom
  · split
    · exact .storeWaiter hc hroom ‹_›
    · exact .of_quiet hc .producersDone
  · exact .of_quiet hc .producersDone

/-- The critical section of `try_resume_consumers`. -/
lemma tryResumeConsumers_transition {s : State n κ α} {c : κ} {r : ProduceResult}
    (hc : s.pc c = .resumeConsumers r) : Transition s c (tryResumeConsumers s c r) := by
  unfold tryResumeConsumers
  split_ifs with hused
  · split
    · exact .takeWaiter hc hused ‹_›
    · exact .of_quiet hc .consumersDone
  · exact .of_quiet hc .consumersDone

/-- A load or test that branches between two quiet steps. -/
lemma transition_of_branch {s s' : State n κ α} {c : κ} {q p p' : Pc κ α} {b : Prop} [Decidable b]
    (hc : s.pc c = q) (hp : b → Quiet s q p) (hp' : ¬ b → Quiet s q p')
    (h : (if b then some (s.goto c p) else some (s.goto c p')) = some s') :
    Transition s c s' := by
  split_ifs at h with hb
  · cases h
    exact .of_quiet hc (hp hb)
  · cases h
    exact .of_quiet hc (hp' hb)

/-- Every step of a call is one of the listed transitions. -/
theorem advance_transition {s s' : State n κ α} {c : κ} (h : advance s c = some s') :
    Transition s c s' := by
  unfold advance at h
  split at h <;> rename_i hc
  · cases h
    exact produce_transition hc
  · cases h
    exact tryResumeConsumers_transition hc
  · cases h
    exact .resumeConsumer hc
  · cases h
    exact consume_transition hc
  · cases h
    exact tryResumeProducers_transition hc
  · cases h
    exact .resumeProducer hc
  · exact transition_of_branch hc (fun _ => .notifyProducersStopped)
      (fun _ => .notifyProducersLoaded) h
  · cases h
    exact .notifyProducers hc
  · exact transition_of_branch hc (fun _ => .notifyConsumersStopped)
      (fun _ => .notifyConsumersLoaded) h
  · cases h
    exact .notifyConsumers hc
  · rename_i k
    cases h
    cases k with
    | notify => exact .of_quiet hc .producersNotified
    | shutdown cs => exact .of_quiet hc .producersStopped
    | drain => exact .of_quiet hc .producersReleased
  · cases h
    exact .wakeProducer hc
  · rename_i r
    cases h
    cases r with
    | notified => exact .of_quiet hc .consumersNotified
    | stopped => exact .of_quiet hc .consumersStopped
  · cases h
    exact .wakeConsumer hc
  · exact transition_of_branch hc .shutdownStopped .shutdownLoaded h
  · split_ifs at h with hexp
    · cases h
      exact .stop hc hexp
    · cases h
      exact .of_quiet hc (.shutdownLost hexp)
  · cases h
    exact .detach hc
  · split_ifs at h with hrun
    · cases h
      exact .drain hc hrun
    · cases h
      exact .of_quiet hc .drainRefused
  · exact transition_of_branch hc .drainedEmpty (fun _ => .drainPending) h
  · exact transition_of_branch hc (fun _ => .drainYielded) .drainLeft h
  all_goals cases h

/-- A step of the system is a fresh call or a transition of a call in progress. -/
theorem step_cases {s s' : State n κ α} {a : Action κ α} (h : step s a = some s') :
    (∃ c f, a = .call c f ∧ s.pc c = .idle ∧
      s' = { s.goto c f.entry with called := update s.called c (some f) }) ∨
    (∃ c, a = .advance c ∧ Transition s c s') := by
  cases a with
  | call c f =>
    refine Or.inl ⟨c, f, rfl, ?_⟩
    simp only [step] at h
    split at h
    · cases h
      exact ⟨‹_›, rfl⟩
    · cases h
  | advance c => exact Or.inr ⟨c, rfl, advance_transition h⟩

end Libcoro.RingBuffer
