import Libcoro.RingBuffer.Waiters

/-!
# First in, first out

The elements stored so far are the elements removed so far followed by the contents of the
buffer, and each element removed belongs to the result of one `consume` call.
-/

namespace Libcoro.RingBuffer

open Foundations Function

variable {n : ℕ} {κ α : Type*}

/-- The element that a `consume` call has taken out of the buffer: while the call is suspended
it is the `m_e` of its operation, and afterwards it stands in the result. -/
def Pc.gain (mE : Option α) : Pc κ α → Option α
  | .consumeSuspended => mE
  | .resumeProducers (.value e) => some e
  | .wakeProducer (.value e) _ => some e
  | .consumeReturned (.value e) => some e
  | _ => none

/-- Resuming a consumer turns the element of its operation into its result. -/
@[simp] lemma gain_awaitResume (op : ConsumeOperation α) (mE : Option α) :
    (Pc.resumeProducers op.awaitResume : Pc κ α).gain mE = op.mE := by
  cases he : op.mE <;> simp [ConsumeOperation.awaitResume, he, Pc.gain]

/-- A result passes through `try_resume_producers` unchanged. -/
@[simp] lemma gain_wakeProducer (mE : Option α) (r : Consumed α) (p : κ) :
    (Pc.wakeProducer r p).gain mE = (Pc.resumeProducers r : Pc κ α).gain mE := by
  cases r <;> rfl

/-- A quiet step of a call neither gains nor loses an element. -/
lemma Quiet.gain_eq {s : State n κ α} {q p : Pc κ α} (h : Quiet s q p) (mE : Option α) :
    p.gain mE = q.gain mE := by
  cases h with
  | @producersDone r => cases r <;> rfl
  | _ => rfl

variable [NeZero n]

/-- The contents of the buffer continue the removed elements to the stored ones. -/
def Queued (s : State n κ α) : Prop :=
  ∃ l, s.ring.Holds l ∧ s.stored.map Prod.snd = s.removed.map Prod.snd ++ l

/-- Storing an element keeps the order. -/
lemma Queued.store {s : State n κ α} (h : Queued s) (hroom : s.ring.used < n) (p : κ) (e : α) :
    Queued (s.store p (some e)) := by
  obtain ⟨l, hl, hlog⟩ := h
  refine ⟨l ++ [e], hl.store hroom, ?_⟩
  simp [State.store, hlog]

/-- Removing the oldest element keeps the order. -/
lemma Queued.remove {s : State n κ α} (h : Queued s) (hused : 0 < s.ring.used) (w : κ) :
    Queued (s.remove w) := by
  obtain ⟨l, hl, hlog⟩ := h
  cases l with
  | nil => simp [hl.used_eq] at hused
  | cons e l =>
    refine ⟨l, hl.drop, ?_⟩
    simp [State.remove, hlog, hl.oldest_eq]

variable [DecidableEq κ]

/-- What is conserved. -/
structure Conserved (s : State n κ α) : Prop where
  queued : Queued s
  waiting : ∀ w ∈ s.mConsumeWaiters, (s.consumeOp w).mE = none
  account : ∀ c, elementsOf s.removed c = ((s.pc c).gain (s.consumeOp c).mE).toList

/-- Moving `c` between control points of equal gain changes nobody's gain. -/
lemma gain_update {op : κ → ConsumeOperation α} {pc : κ → Pc κ α} {c : κ} {p : Pc κ α}
    (hp : p.gain (op c).mE = (pc c).gain (op c).mE) :
    ∀ d, (update pc c p d).gain (op d).mE = (pc d).gain (op d).mE :=
  (forall_update_iff pc fun d q => q.gain (op d).mE = (pc d).gain (op d).mE).mpr
    ⟨hp, fun _ _ => rfl⟩

namespace Conserved

variable {s : State n κ α}

/-- A move of `c` that changes no gain. -/
lemma goto (h : Conserved s) {c : κ} {p : Pc κ α}
    (hp : p.gain (s.consumeOp c).mE = (s.pc c).gain (s.consumeOp c).mE) : Conserved (s.goto c p) :=
  ⟨h.queued, h.waiting, fun d => (h.account d).trans (congrArg _ (gain_update hp d).symm)⟩

/-- `c` resumes the suspended call `w`, both keeping their gains. -/
lemma wake (h : Conserved s) {c w : κ} {a p : Pc κ α} (hne : c ≠ w)
    (ha : a.gain (s.consumeOp w).mE = (s.pc w).gain (s.consumeOp w).mE)
    (hp : p.gain (s.consumeOp c).mE = (s.pc c).gain (s.consumeOp c).mE) :
    Conserved ((s.goto w a).goto c p) := by
  refine (h.goto ha).goto ?_
  rw [State.goto_pc, update_of_ne hne]
  exact hp

/-- Every transition conserves the elements. -/
lemma transition {s' : State n κ α} {c : κ} (h : Conserved s) (hw : Waiters s)
    (ht : Transition s c s') : Conserved s' := by
  cases ht with
  | quiet hq => exact h.goto (hq.gain_eq _)
  | storeDirect hc _ hroom =>
    have hgoto := h.goto (c := c) (p := .resumeConsumers .produced) (by simp [hc, Pc.gain])
    exact ⟨h.queued.store hroom c _, hgoto.2, hgoto.3⟩
  | blockProducer hc _ =>
    have hgoto := h.goto (c := c) (p := .produceSuspended) (by simp [hc, Pc.gain])
    exact { hgoto with }
  | @storeWaiter r p ps hc hroom hps =>
    obtain ⟨e, he⟩ := hw.element p (hw.producers.of_mem_list (hps ▸ List.mem_cons_self))
    have hgoto := h.goto (c := c) (p := .wakeProducer r p) (by simp [hc])
    refine ⟨?_, hgoto.2, hgoto.3⟩
    rw [he]
    exact h.queued.store hroom p e
  | @resumeProducer r p hc =>
    obtain ⟨hp, hne⟩ := hw.suspended_producer (c := c) (w := p) (by simp [hc])
    exact h.wake hne (by simp [hp, Pc.gain]) (by simp [hc])
  | @wakeProducer k p ps hc =>
    obtain ⟨hp, hne⟩ := hw.suspended_producer (c := c) (w := p) (by simp [hc])
    have hwake := h.wake hne
      (a := .resumeConsumers ((s.setProduceResult p k.result).produceOp p).mResult)
      (p := .wakeProducers k ps) (by simp [hp, Pc.gain]) (by simp [hc, Pc.gain])
    exact { hwake with }
  | notifyProducers hc =>
    have hgoto := h.goto (c := c) (p := .wakeProducers .notify s.mProduceWaiters)
      (by simp [hc, Pc.gain])
    exact { hgoto with }
  | drain hc _ =>
    exact { h.goto (c := c) (p := .wakeProducers .drain s.mProduceWaiters)
      (by simp [hc, Pc.gain]) with }
  | takeDirect hc _ hused =>
    refine ⟨h.queued.remove hused c, h.waiting, fun d => ?_⟩
    have hd := h.account d
    change elementsOf (s.removed ++ s.ring.oldest.toList.map (c, ·)) d = _
    rw [elementsOf_append, hd]
    by_cases hdc : d = c
    · subst hdc
      rw [State.goto_pc, update_self, gain_awaitResume, hc]
      simp [Pc.gain]
    · simp [hdc, State.remove]
  | blockConsumer hc _ =>
    refine ⟨h.queued, fun d hd => ?_, fun d => ?_⟩
    · by_cases hdc : d = c
      · simp [hdc]
      · simpa [hdc] using h.waiting d (by simpa [hdc] using hd)
    · have hd := h.account d
      by_cases hdc : d = c
      · subst hdc
        simpa [hc, Pc.gain] using hd
      · simpa [hdc] using hd
  | @takeWaiter r w ws hc hused hws =>
    have hsusp : s.pc w = .consumeSuspended := hw.consumers.of_mem_list (hws ▸ List.mem_cons_self)
    have hnone : (s.consumeOp w).mE = none := h.waiting w (hws ▸ List.mem_cons_self)
    have hnodup : (w :: ws).Nodup := hws ▸ hw.consumers.nodup none
    have hcw : c ≠ w := by
      rintro rfl
      simp [hsusp] at hc
    refine ⟨h.queued.remove hused w, fun d hd => ?_, fun d => ?_⟩
    · have hdw : d ≠ w := by
        rintro rfl
        exact (List.nodup_cons.mp hnodup).1 hd
      simpa [hdw] using h.waiting d (hws ▸ List.mem_cons_of_mem w hd)
    · have hd := h.account d
      change elementsOf (s.removed ++ s.ring.oldest.toList.map (w, ·)) d = _
      rw [elementsOf_append, hd]
      by_cases hdw : d = w
      · subst hdw
        simp [hsusp, hnone, hcw.symm, Pc.gain]
      · by_cases hdc : d = c
        · subst hdc
          simp [hdw, hc, Pc.gain]
        · simp [hdw, hdc]
  | @resumeConsumer r w hc =>
    obtain ⟨hsusp, hne⟩ := hw.suspended_consumer (c := c) (w := w) (by simp [hc])
    refine h.wake hne ?_ (by simp [hc, Pc.gain])
    rw [gain_awaitResume, hsusp]
    rfl
  | @wakeConsumer r w ws hc =>
    obtain ⟨hsusp, hne⟩ := hw.suspended_consumer (c := c) (w := w) (by simp [hc])
    have hset : Conserved (s.setConsumeResult w r) := by
      refine ⟨h.queued, fun d hd => ?_, fun d => ?_⟩
      · rw [State.setConsumeResult_mE]
        exact h.waiting d hd
      · rw [State.setConsumeResult_mE]
        exact h.account d
    refine hset.wake hne ?_ (by simp [hc, Pc.gain])
    rw [gain_awaitResume, State.setConsumeResult_pc, hsusp]
    rfl
  | notifyConsumers hc =>
    have hgoto := h.goto (c := c) (p := .wakeConsumers .notified s.mConsumeWaiters)
      (by simp [hc, Pc.gain])
    exact ⟨hgoto.1, by simp, hgoto.3⟩
  | stop hc _ =>
    have hgoto := h.goto (c := c) (p := .shutdownDetach) (by simp [hc, Pc.gain])
    exact { hgoto with }
  | detach hc =>
    have hgoto := h.goto (c := c)
      (p := .wakeProducers (.shutdown s.mConsumeWaiters) s.mProduceWaiters)
      (by simp [hc, Pc.gain])
    exact ⟨hgoto.1, by simp, hgoto.3⟩

/-- Every step of the system conserves the elements. -/
lemma step {s' : State n κ α} {a : Action κ α} (h : Conserved s) (hw : Waiters s)
    (hstep : RingBuffer.step s a = some s') : Conserved s' := by
  rcases step_cases hstep with ⟨c, f, rfl, hc, rfl⟩ | ⟨c, rfl, ht⟩
  · have hgoto : Conserved (s.goto c f.entry) := by
      refine h.goto ?_
      rw [hc]
      cases f <;> rfl
    exact { hgoto with }
  · exact h.transition hw ht

/-- Nobody has taken the same element twice, or two elements. -/
lemma removed_nodup (h : Conserved s) : (s.removed.map Prod.fst).Nodup := by
  rw [List.nodup_iff_count_le_one]
  intro c
  have hcount : (s.removed.map Prod.fst).count c = (elementsOf s.removed c).length := by
    rw [elementsOf, List.length_map, List.count_eq_countP, List.countP_map,
      List.countP_eq_length_filter]
    congr 1
  rw [hcount, h.account c]
  exact Option.length_toList_le

/-- The removed elements are exactly those that the `consume` calls have in hand. -/
lemma mem_removed_iff (h : Conserved s) (c : κ) (e : α) :
    (c, e) ∈ s.removed ↔ (s.pc c).gain (s.consumeOp c).mE = some e := by
  have hmem : (c, e) ∈ s.removed ↔ e ∈ elementsOf s.removed c := by
    simp [elementsOf]
  rw [hmem, h.account c, Option.mem_toList]

end Conserved

/-- Nothing is stored or removed at the beginning. -/
lemma conserved_start : Conserved (start : State n κ α) := by
  refine ⟨⟨[], RingStore.Holds.empty, rfl⟩, fun w hw => ?_, fun c => rfl⟩
  simp [start] at hw

/-- The elements are conserved in every reachable state. -/
lemma conserved_of_reachable {s : State n κ α} (h : (machine n κ α).Reachable s) :
    Conserved s :=
  h.invariant conserved_start fun _ _ _ hr hs hstep => hs.step (waiters_of_reachable hr) hstep

/-- In every reachable state of a ring buffer with `n` slots: at most `n` of them are used, the
two counters differ by that number, the occupied slots are those from `m_back` up to `m_front`
modulo `n`, and the elements stored so far are the elements removed so far followed by the
contents.  Each element removed belongs to one `consume` call, which has it in hand until it
returns it, and a `consume` call that returns `notified` or `stopped` has removed nothing. -/
theorem fifo_conservation {s : State n κ α} (h : (machine n κ α).Reachable s) :
    s.ring.used ≤ n ∧
    s.ring.front = s.ring.back + s.ring.used ∧
    (∀ i : Fin n, (s.ring.elements i).isSome ↔
      ∃ k < s.ring.used, (i : ℕ) = (s.ring.back + k) % n) ∧
    s.stored.map Prod.snd = s.removed.map Prod.snd ++ s.ring.contents ∧
    (s.removed.map Prod.fst).Nodup ∧
    (∀ c e, (c, e) ∈ s.removed ↔ (s.pc c).gain (s.consumeOp c).mE = some e) ∧
    (∀ c e, s.pc c = .consumeReturned (.value e) → (c, e) ∈ s.removed) ∧
    (∀ c r, s.pc c = .consumeReturned (.unexpected r) → ∀ e, (c, e) ∉ s.removed) := by
  have hcons := conserved_of_reachable h
  obtain ⟨l, hl, hlog⟩ := hcons.queued
  refine ⟨hl.used_le, hl.front_eq, fun i => ?_, ?_, hcons.removed_nodup, hcons.mem_removed_iff,
    fun c e hc => ?_, fun c r hc e => ?_⟩
  · rw [hl.isSome_iff i]
    simp only [Fin.ext_iff, slot, Fin.ofNat]
  · rw [hl.contents_eq]
    exact hlog
  · rw [hcons.mem_removed_iff, hc]
    rfl
  · rw [hcons.mem_removed_iff, hc]
    simp [Pc.gain]

/-- Two producers fill a buffer of two slots and a third one blocks; a consumer takes the oldest
element, lets the third producer in and returns. -/
def fullTrace : List (Action ℕ ℕ) :=
  [.call 0 (.produce 10), .advance 0, .advance 0, .call 1 (.produce 11), .advance 1, .advance 1,
    .call 2 (.produce 12), .advance 2, .call 3 .consume, .advance 3, .advance 3, .advance 3,
    .advance 3]

/-- In the run above the third element has wrapped around into the first slot. -/
theorem fifo_conservation_full : ∃ s : State 2 ℕ ℕ,
    (machine 2 ℕ ℕ).run start fullTrace = some s ∧ s.pc 3 = .consumeReturned (.value 10) ∧
    s.ring.contents = [11, 12] ∧ s.ring.front = 3 ∧
    s.stored.map Prod.snd = s.removed.map Prod.snd ++ s.ring.contents :=
  ⟨_, rfl, rfl, rfl, rfl,
    (fifo_conservation (Machine.reachable_of_run (l := fullTrace) rfl)).2.2.2.1⟩

end Libcoro.RingBuffer
