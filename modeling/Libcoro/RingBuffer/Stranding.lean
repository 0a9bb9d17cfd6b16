import Libcoro.RingBuffer.Waiters

/-!
# No stranded waiter

The calls of a ring buffer wake each other up after the lock is released: whoever frees a slot
runs `try_resume_producers` and whoever fills one runs `try_resume_consumers`.  The duty to make
such a check moves from call to call.  A `consume` that frees a slot has it until its check finds
no room or no waiter; a `produce` that takes an element out on behalf of a waiting consumer passes
it on to that consumer, which is still suspended when the slot becomes free.  Hence a producer
waits beside a free slot only while somebody has the check ahead of them, and the same holds for a
consumer beside an element.
-/

namespace Libcoro.RingBuffer

open Foundations Function

variable {n : ℕ} {κ α : Type*}

/-- A `consume` in the loop of `try_resume_producers`, or a call about to resume consumers, each of
which will go through that loop. -/
@[simp] def Pc.OwesProducers : Pc κ α → Prop
  | .resumeProducers _ => True
  | .wakeProducer _ _ => True
  | q => q.consumersInHand ≠ []

/-- A `produce` in the loop of `try_resume_consumers`, or a call about to resume producers, each of
which will go through that loop. -/
@[simp] def Pc.OwesConsumers : Pc κ α → Prop
  | .resumeConsumers _ => True
  | .wakeConsumer _ _ => True
  | q => q.producersInHand ≠ []

/-- A waiter that could be served has a check of its list coming. -/
structure Covered (s : State n κ α) : Prop where
  producers : s.mProduceWaiters ≠ [] → s.ring.used < n → ∃ d, (s.pc d).OwesProducers
  consumers : s.mConsumeWaiters ≠ [] → 0 < s.ring.used → ∃ d, (s.pc d).OwesConsumers

/-! ## Where the duty ends -/

section Guards

variable [NeZero n] [DecidableEq κ] {s s' : State n κ α} {c : κ}

/-- A `produce` suspends on a full buffer only. -/
lemma full_of_suspended {e : α} (hc : s.pc c = .produce e) (h : advance s c = some s')
    (hpc : s'.pc c = .produceSuspended) : ¬ s.ring.used < n := by
  simp only [advance, hc] at h
  cases h
  intro hroom
  unfold produce at hpc
  split_ifs at hpc <;> simp at hpc

/-- A `consume` suspends on an empty buffer only. -/
lemma empty_of_suspended (hc : s.pc c = .consume) (h : advance s c = some s')
    (hpc : s'.pc c = .consumeSuspended) : ¬ 0 < s.ring.used := by
  simp only [advance, hc] at h
  cases h
  intro hused
  unfold consume at hpc
  split_ifs at hpc <;> simp at hpc

/-- `try_resume_producers` ends when the buffer is full or no producer waits. -/
lemma full_of_returned {r : Consumed α} (hc : s.pc c = .resumeProducers r)
    (h : advance s c = some s') (hpc : s'.pc c = .consumeReturned r)
    (hw : s.mProduceWaiters ≠ []) : ¬ s.ring.used < n := by
  simp only [advance, hc] at h
  cases h
  intro hroom
  obtain ⟨p, ps, hps⟩ := List.exists_cons_of_ne_nil hw
  simp [tryResumeProducers, hroom, hps] at hpc

/-- `try_resume_consumers` ends when the buffer is empty or no consumer waits. -/
lemma empty_of_returned {r : ProduceResult} (hc : s.pc c = .resumeConsumers r)
    (h : advance s c = some s') (hpc : s'.pc c = .produceReturned r)
    (hw : s.mConsumeWaiters ≠ []) : ¬ 0 < s.ring.used := by
  simp only [advance, hc] at h
  cases h
  intro hused
  obtain ⟨w, ws, hws⟩ := List.exists_cons_of_ne_nil hw
  simp [tryResumeConsumers, hused, hws] at hpc

end Guards

/-- A quiet step drops the duty towards the producers only by leaving `try_resume_producers`. -/
lemma Quiet.owesProducers {s : State n κ α} {q p : Pc κ α} (h : Quiet s q p)
    (hq : q.OwesProducers) :
    p.OwesProducers ∨ ∃ r, q = .resumeProducers r ∧ p = .consumeReturned r := by
  cases h with
  | @producersDone r => exact Or.inr ⟨r, rfl, rfl⟩
  | _ => simp_all

/-- A quiet step drops the duty towards the consumers only by leaving `try_resume_consumers`. -/
lemma Quiet.owesConsumers {s : State n κ α} {q p : Pc κ α} (h : Quiet s q p)
    (hq : q.OwesConsumers) :
    p.OwesConsumers ∨ ∃ r, q = .resumeConsumers r ∧ p = .produceReturned r := by
  cases h with
  | @consumersDone r => exact Or.inr ⟨r, rfl, rfl⟩
  | _ => simp_all

/-! ## The invariant -/

variable [DecidableEq κ]

/-- Somebody still meets a condition after a move of `c` that keeps it for `c`. -/
lemma exists_update {Q : Pc κ α → Prop} {pc : κ → Pc κ α} {c : κ} {p : Pc κ α}
    (h : ∃ d, Q (pc d)) (hc : Q (pc c) → Q p) : ∃ d, Q (update pc c p d) := by
  obtain ⟨d, hd⟩ := h
  rcases eq_or_ne d c with rfl | hne
  · exact ⟨d, by simpa using hc hd⟩
  · exact ⟨d, by simpa [hne] using hd⟩

/-- The call that moves meets the condition. -/
lemma exists_update_self {Q : Pc κ α → Prop} {pc : κ → Pc κ α} {c : κ} {p : Pc κ α} (hp : Q p) :
    ∃ d, Q (update pc c p d) :=
  ⟨c, by simpa using hp⟩

namespace Covered

variable {s s' : State n κ α} {c : κ}

/-- `c` resumes a producer, which goes on with `try_resume_consumers`. -/
lemma wake_producer (h : Covered s) {w : κ} {r : ProduceResult} {p : Pc κ α}
    (hw : s.pc w = .produceSuspended) (hne : c ≠ w)
    (hp : (s.pc c).OwesProducers → p.OwesProducers) :
    Covered ((s.goto w (.resumeConsumers r)).goto c p) := by
  constructor
  · intro hwait hroom
    refine exists_update (exists_update (h.producers hwait hroom) (by simp [hw])) fun howes => ?_
    rw [State.goto_pc, update_of_ne hne] at howes
    exact hp howes
  · intro _ _
    exact ⟨w, by simp [hne.symm]⟩

/-- `c` resumes a consumer, which goes on with `try_resume_producers`. -/
lemma wake_consumer (h : Covered s) {w : κ} {r : Consumed α} {p : Pc κ α}
    (hw : s.pc w = .consumeSuspended) (hne : c ≠ w)
    (hp : (s.pc c).OwesConsumers → p.OwesConsumers) :
    Covered ((s.goto w (.resumeProducers r)).goto c p) := by
  constructor
  · intro _ _
    exact ⟨w, by simp [hne.symm]⟩
  · intro hwait hused
    refine exists_update (exists_update (h.consumers hwait hused) (by simp [hw])) fun howes => ?_
    rw [State.goto_pc, update_of_ne hne] at howes
    exact hp howes

variable [NeZero n]

/-- A quiet step keeps the waiters covered. -/
lemma quiet (h : Covered s) {p : Pc κ α} (hq : Quiet s (s.pc c) p)
    (hstep : advance s c = some (s.goto c p)) : Covered (s.goto c p) := by
  have hpc : (s.goto c p).pc c = p := by simp
  constructor
  · intro hw hroom
    refine exists_update (h.producers hw hroom) fun howes => ?_
    rcases hq.owesProducers howes with hp | ⟨r, hr, hp⟩
    · exact hp
    · exact (full_of_returned hr hstep (hpc.trans hp) hw hroom).elim
  · intro hw hused
    refine exists_update (h.consumers hw hused) fun howes => ?_
    rcases hq.owesConsumers howes with hp | ⟨r, hr, hp⟩
    · exact hp
    · exact (empty_of_returned hr hstep (hpc.trans hp) hw hused).elim

/-- Every step of a call keeps the waiters covered. -/
lemma advance (h : Covered s) (hwait : Waiters s) (hstep : RingBuffer.advance s c = some s') :
    Covered s' := by
  cases advance_transition hstep with
  | quiet hq => exact h.quiet hq hstep
  | storeDirect hc _ hroom =>
    constructor
    · intro hw _
      exact exists_update (h.producers hw hroom) (by simp [hc])
    · intro _ _
      exact exists_update_self (by simp)
  | blockProducer hc _ =>
    have hfull := full_of_suspended hc hstep (by simp)
    constructor
    · intro _ hroom
      exact (hfull hroom).elim
    · intro hw hused
      exact exists_update (h.consumers hw hused) (by simp [hc])
  | storeWaiter hc _ _ =>
    -- The check is not over for `c`, and the producer it holds has one ahead for the consumers.
    constructor
    · intro _ _
      exact exists_update_self (by simp)
    · intro _ _
      exact exists_update_self (by simp)
  | @resumeProducer r p hc =>
    obtain ⟨hp, hne⟩ := hwait.suspended_producer (c := c) (w := p) (by simp [hc])
    exact h.wake_producer hp hne (by simp)
  | @wakeProducer k p ps hc =>
    obtain ⟨hp, hne⟩ := hwait.suspended_producer (c := c) (w := p) (by simp [hc])
    exact { h.wake_producer (c := c) (w := p) (p := .wakeProducers k ps)
      (r := ((s.setProduceResult p k.result).produceOp p).mResult) hp hne
      (by cases k <;> simp [hc]) with }
  | notifyProducers hc | drain hc _ =>
    constructor
    · intro hw _
      exact (hw rfl).elim
    · intro hw hused
      exact exists_update (h.consumers hw hused) (by simp [hc])
  | takeDirect hc _ hused =>
    constructor
    · intro _ _
      exact exists_update_self (by simp)
    · intro hw _
      exact exists_update (h.consumers hw hused) (by simp [hc])
  | blockConsumer hc _ =>
    have hempty := empty_of_suspended hc hstep (by simp)
    constructor
    · intro hw hroom
      exact exists_update (h.producers hw hroom) (by simp [hc])
    · intro _ hused
      exact (hempty hused).elim
  | takeWaiter hc _ _ =>
    -- The slot is free while the consumer that will check it is still suspended.
    constructor
    · intro _ _
      exact exists_update_self (by simp)
    · intro _ _
      exact exists_update_self (by simp)
  | @resumeConsumer r w hc =>
    obtain ⟨hw, hne⟩ := hwait.suspended_consumer (c := c) (w := w) (by simp [hc])
    exact h.wake_consumer hw hne (by simp)
  | @wakeConsumer r w ws hc =>
    obtain ⟨hw, hne⟩ := hwait.suspended_consumer (c := c) (w := w) (by simp [hc])
    exact { h.wake_consumer (c := c) (w := w) (p := .wakeConsumers r ws)
      (r := ((s.setConsumeResult w r).consumeOp w).awaitResume) hw hne (by simp [hc]) with }
  | notifyConsumers hc =>
    constructor
    · intro hw hroom
      exact exists_update (h.producers hw hroom) (by simp [hc])
    · intro hw _
      exact (hw rfl).elim
  | stop hc _ =>
    constructor
    · intro hw hroom
      exact exists_update (h.producers hw hroom) (by simp [hc])
    · intro hw hused
      exact exists_update (h.consumers hw hused) (by simp [hc])
  | detach hc =>
    constructor
    · intro hw _
      exact (hw rfl).elim
    · intro hw _
      exact (hw rfl).elim

end Covered

variable [NeZero n]

/-- In every reachable state the waiters are covered. -/
lemma covered_of_reachable {s : State n κ α} (h : (machine n κ α).Reachable s) : Covered s := by
  refine h.invariant ?_ ?_
  · constructor <;> simp [machine, start]
  · intro s a t hr hs hstep
    rcases step_cases hstep with ⟨c, f, rfl, hc, rfl⟩ | ⟨c, rfl, -⟩
    · constructor
      · intro hw hroom
        exact exists_update (hs.producers hw hroom) (by simp [hc])
      · intro hw hused
        exact exists_update (hs.consumers hw hused) (by simp [hc])
    · exact hs.advance (waiters_of_reachable hr) hstep

/-! ## What the callers see -/

/-- `c` has a `try_resume_producers` check ahead: it is a `consume` in that loop, or one that some
call has taken off the list and is going to resume. -/
def State.ChecksProducers (s : State n κ α) (c : κ) : Prop :=
  (∃ r, s.pc c = .resumeProducers r) ∨ (∃ r p, s.pc c = .wakeProducer r p) ∨
    s.pc c = .consumeSuspended ∧ ∃ d, c ∈ (s.pc d).consumersInHand

/-- `c` has a `try_resume_consumers` check ahead: it is a `produce` in that loop, or one that some
call has taken off the list and is going to resume. -/
def State.ChecksConsumers (s : State n κ α) (c : κ) : Prop :=
  (∃ r, s.pc c = .resumeConsumers r) ∨ (∃ r w, s.pc c = .wakeConsumer r w) ∨
    s.pc c = .produceSuspended ∧ ∃ d, c ∈ (s.pc d).producersInHand

/-- No operation is in flight: every call has returned or is suspended. -/
def State.AtRest (s : State n κ α) : Prop :=
  ∀ c, s.pc c = .idle ∨ s.pc c = .produceSuspended ∨ s.pc c = .consumeSuspended ∨
    (∃ r, s.pc c = .produceReturned r) ∨ (∃ r, s.pc c = .consumeReturned r) ∨
    s.pc c = .notifyReturned ∨ s.pc c = .shutdownReturned ∨ s.pc c = .drainReturned

omit [DecidableEq κ] [NeZero n] in
/-- Whoever has the duty, a coroutine has the check ahead. -/
lemma Waiters.exists_checksProducers {s : State n κ α} (h : Waiters s)
    (howes : ∃ d, (s.pc d).OwesProducers) : ∃ c, s.ChecksProducers c := by
  obtain ⟨d, hd⟩ := howes
  by_cases hhand : (s.pc d).consumersInHand = []
  · refine ⟨d, ?_⟩
    cases hpc : s.pc d with
    | resumeProducers r => exact Or.inl ⟨r, hpc⟩
    | wakeProducer r p => exact Or.inr (Or.inl ⟨r, p, hpc⟩)
    | _ =>
      rw [hpc] at hd hhand
      exact (hd hhand).elim
  · obtain ⟨w, hw⟩ := List.exists_mem_of_ne_nil _ hhand
    exact ⟨w, Or.inr (Or.inr ⟨(h.suspended_consumer hw).1, d, hw⟩)⟩

omit [DecidableEq κ] [NeZero n] in
/-- Whoever has the duty, a coroutine has the check ahead. -/
lemma Waiters.exists_checksConsumers {s : State n κ α} (h : Waiters s)
    (howes : ∃ d, (s.pc d).OwesConsumers) : ∃ c, s.ChecksConsumers c := by
  obtain ⟨d, hd⟩ := howes
  by_cases hhand : (s.pc d).producersInHand = []
  · refine ⟨d, ?_⟩
    cases hpc : s.pc d with
    | resumeConsumers r => exact Or.inl ⟨r, hpc⟩
    | wakeConsumer r w => exact Or.inr (Or.inl ⟨r, w, hpc⟩)
    | _ =>
      rw [hpc] at hd hhand
      exact (hd hhand).elim
  · obtain ⟨w, hw⟩ := List.exists_mem_of_ne_nil _ hhand
    exact ⟨w, Or.inr (Or.inr ⟨(h.suspended_producer hw).1, d, hw⟩)⟩

omit [DecidableEq κ] [NeZero n] in
/-- Nobody has a duty when no operation is in flight. -/
lemma State.AtRest.not_owes {s : State n κ α} (h : s.AtRest) (d : κ) :
    ¬ (s.pc d).OwesProducers ∧ ¬ (s.pc d).OwesConsumers := by
  rcases h d with hd | hd | hd | ⟨r, hd⟩ | ⟨r, hd⟩ | hd | hd | hd <;> simp [hd]

/-- No waiter is stranded.  In every reachable state of a ring buffer with `n` slots: while a
producer waits and a slot is free, some coroutine has a `try_resume_producers` check ahead; while
a consumer waits and an element is there, some coroutine has a `try_resume_consumers` check ahead.
Once no operation is in flight, neither is the case. -/
theorem no_stranded_waiter {s : State n κ α} (h : (machine n κ α).Reachable s) :
    (s.mProduceWaiters ≠ [] → s.ring.used < n → ∃ c, s.ChecksProducers c) ∧
    (s.mConsumeWaiters ≠ [] → 0 < s.ring.used → ∃ c, s.ChecksConsumers c) ∧
    (s.AtRest → ¬ (s.mProduceWaiters ≠ [] ∧ s.ring.used < n) ∧
      ¬ (s.mConsumeWaiters ≠ [] ∧ 0 < s.ring.used)) := by
  have hcov := covered_of_reachable h
  have hwait := waiters_of_reachable h
  refine ⟨?_, ?_, ?_⟩
  · intro hw hroom
    exact hwait.exists_checksProducers (hcov.producers hw hroom)
  · intro hw hused
    exact hwait.exists_checksConsumers (hcov.consumers hw hused)
  · intro hrest
    constructor
    · rintro ⟨hw, hroom⟩
      obtain ⟨d, hd⟩ := hcov.producers hw hroom
      exact (hrest.not_owes d).1 hd
    · rintro ⟨hw, hused⟩
      obtain ⟨d, hd⟩ := hcov.consumers hw hused
      exact (hrest.not_owes d).2 hd

/-- A consumer waits; of two producers the first one fills the only slot and the second one blocks;
the first one takes its element out again for the consumer. -/
def relayTrace : List (Action ℕ ℕ) :=
  [.call 0 .consume, .advance 0, .call 1 (.produce 10), .advance 1, .call 2 (.produce 11),
    .advance 2, .advance 1]

/-- In the run above a producer waits beside a free slot, and the check ahead is that of a consumer
that is still suspended. -/
theorem no_stranded_waiter_relay : ∃ s : State 1 ℕ ℕ,
    (machine 1 ℕ ℕ).run start relayTrace = some s ∧ s.mProduceWaiters = [2] ∧
    s.ring.used = 0 ∧ s.pc 0 = .consumeSuspended ∧ s.pc 1 = .wakeConsumer .produced 0 ∧
    ∃ c, s.ChecksProducers c :=
  ⟨_, rfl, rfl, rfl, rfl, rfl, (no_stranded_waiter
    (Machine.reachable_of_run (M := machine 1 ℕ ℕ) (l := relayTrace) rfl)).1 (by decide)
      (by decide)⟩

end Libcoro.RingBuffer
