import Libcoro.Foundations.WrappedStore
import Libcoro.RingBuffer.Conservation

/-!
# Counters that start again

`m_front`, `m_back` and `m_used` are of type `std::size_t`.  On a platform where this type has
`w` bits, a `fetch_add` counts modulo `2 ^ w`, while slots are taken modulo `num_elements`.  The
machine of this module is the ring buffer with that arithmetic: every step is the step of the
code, and the counters it leaves behind are words.

Until `2 ^ w` elements have been stored the counters are those of `Libcoro.RingBuffer.Model`, and
what is proved there holds (`reachable_of_few_stores`).  After that, where the number of slots
divides `2 ^ w`, nothing changes.  For any other number of slots the sequence of slots jumps when
`m_front` starts again at `0`, and the stores that follow may fall on slots that are in use;
`RingStore.Laps` says which ones do.
-/

namespace Libcoro.RingBuffer

open Foundations Function

variable {n : ℕ} {κ α : Type*}

/-! ## The machine with words -/

/-- The counters are kept in words of `w` bits. -/
def State.wrap (w : ℕ) (s : State n κ α) : State n κ α :=
  { s with ring := s.ring.wrap (2 ^ w) }

/-- The elements stored and not removed, the oldest first. -/
def State.live (s : State n κ α) : List α :=
  (s.stored.drop s.removed.length).map Prod.snd

/-- The live elements are what the slots hold. -/
lemma State.live_eq {s : State n κ α} {l : List α}
    (h : s.stored.map Prod.snd = s.removed.map Prod.snd ++ l) : s.live = l := by
  have hlen : s.removed.length = (s.removed.map Prod.snd).length := (List.length_map _).symm
  rw [State.live, List.map_drop, h, hlen, List.drop_left]

/-- The step stores an element: the branches of `produce_operation::await_ready` and of
`try_resume_producers` that move `m_front`. -/
def stores (s : State n κ α) : Action κ α → Bool
  | .call _ _ => false
  | .advance c =>
    match s.pc c with
    | .produce _ => s.mRunningState = .running && s.ring.used < n
    | .resumeProducers _ => s.ring.used < n && !s.mProduceWaiters.isEmpty
    | _ => false

/-- A store is made when there is room only. -/
lemma used_lt_of_stores {s : State n κ α} {a : Action κ α} (h : stores s a = true) :
    s.ring.used < n := by
  unfold stores at h
  split at h
  · cases h
  · split at h
    · exact of_decide_eq_true (Bool.and_eq_true_iff.mp h).2
    · exact of_decide_eq_true (Bool.and_eq_true_iff.mp h).1
    · cases h

/-- The step removes an element: the branches of `consume_operation::await_ready` and of
`try_resume_consumers` that move `m_back`. -/
def removes (s : State n κ α) : Action κ α → Bool
  | .call _ _ => false
  | .advance c =>
    match s.pc c with
    | .consume => s.mRunningState ≠ .stopped && 0 < s.ring.used
    | .resumeConsumers _ => 0 < s.ring.used && !s.mConsumeWaiters.isEmpty
    | _ => false

/-- A store made by the step does not lap. -/
def Spared (w : ℕ) (s : State n κ α) (a : Action κ α) : Prop :=
  stores s a = true → ¬ s.ring.Laps (2 ^ w)

instance (w : ℕ) (s : State n κ α) (a : Action κ α) : Decidable (Spared w s a) :=
  inferInstanceAs (Decidable (_ → _))

variable [NeZero n]

/-- A store writes a slot that holds no element, and a removal takes the oldest live element. -/
structure Sound (s : State n κ α) (a : Action κ α) (s' : State n κ α) : Prop where
  store : stores s a = true → s.ring.elements (slot n s.ring.front) = none
  removal : removes s a = true →
    ∃ e, s.live = e :: s'.live ∧ s'.removed.map Prod.snd = s.removed.map Prod.snd ++ [e]

variable [DecidableEq κ]

/-- One step where `std::size_t` has `w` bits.  The slot is found from the value that `fetch_add`
returns, so only the counters that the step leaves behind are reduced. -/
def wordStep (w : ℕ) (s : State n κ α) (a : Action κ α) : Option (State n κ α) :=
  (step s a).map (State.wrap w)

/-- The buffer and its callers where `std::size_t` has `w` bits. -/
def wordMachine (w n : ℕ) [NeZero n] (κ α : Type*) [DecidableEq κ] :
    Machine (State n κ α) (Action κ α) where
  start := start
  step := wordStep w

/-- A step with words is a step of the code whose counters are reduced. -/
lemma wordStep_eq_some {w : ℕ} {s s' : State n κ α} {a : Action κ α} :
    wordStep w s a = some s' ↔ ∃ t, step s a = some t ∧ t.wrap w = s' :=
  Option.map_eq_some_iff

/-! ## What a step does to the slots -/

/-- A step of the code stores an element, removes the oldest one or leaves the slots alone. -/
inductive Effect (s : State n κ α) (a : Action κ α) (t : State n κ α) : Prop
  | store (p : κ) (e : α) : stores s a = true → removes s a = false → s.ring.used < n →
      t.ring = s.ring.store (some e) → t.stored = s.stored ++ [(p, e)] →
      t.removed = s.removed → Effect s a t
  | remove (c : κ) : stores s a = false → removes s a = true → 0 < s.ring.used →
      t.ring = s.ring.drop → t.stored = s.stored →
      t.removed = s.removed ++ s.ring.oldest.toList.map (c, ·) → Effect s a t
  | other : stores s a = false → removes s a = false → t.ring = s.ring →
      t.stored = s.stored → t.removed = s.removed → Effect s a t

section Effects

variable {s t : State n κ α} {c : κ}

/-- The critical section of `produce`. -/
lemma produce_effect {e : α} (hc : s.pc c = .produce e) :
    Effect s (.advance c) (produce s c e) := by
  have hremoves : removes s (.advance c) = false := by simp [removes, hc]
  unfold produce
  split_ifs with hrun hroom
  · exact .other (by simp [stores, hc, hrun]) hremoves rfl rfl rfl
  · exact .store c e (by simp [stores, hc, not_not.mp hrun, hroom]) hremoves hroom rfl rfl rfl
  · exact .other (by simp [stores, hc, hroom]) hremoves rfl rfl rfl

/-- The critical section of `consume`. -/
lemma consume_effect (hc : s.pc c = .consume) : Effect s (.advance c) (consume s c) := by
  have hstores : stores s (.advance c) = false := by simp [stores, hc]
  unfold consume
  split_ifs with hstop hused
  · exact .other hstores (by simp [removes, hc, hstop]) rfl rfl rfl
  · exact .remove c hstores (by simp [removes, hc, hstop, hused]) hused rfl rfl rfl
  · exact .other hstores (by simp [removes, hc, hused]) rfl rfl rfl

/-- The critical section of `try_resume_producers`. -/
lemma tryResumeProducers_effect {r : Consumed α} (hw : Waiters s)
    (hc : s.pc c = .resumeProducers r) : Effect s (.advance c) (tryResumeProducers s c r) := by
  have hremoves : removes s (.advance c) = false := by simp [removes, hc]
  unfold tryResumeProducers
  split_ifs with hroom
  · split
    · rename_i p ps hps
      obtain ⟨e, he⟩ := hw.element p (hw.producers.of_mem_list (hps ▸ List.mem_cons_self))
      refine .store p e (by simp [stores, hc, hroom, hps]) hremoves hroom ?_ ?_ rfl
      · simp [State.store, he]
      · simp [State.store, he]
    · rename_i hps
      exact .other (by simp [stores, hc, hps]) hremoves rfl rfl rfl
  · exact .other (by simp [stores, hc, hroom]) hremoves rfl rfl rfl

/-- The critical section of `try_resume_consumers`. -/
lemma tryResumeConsumers_effect {r : ProduceResult} (hc : s.pc c = .resumeConsumers r) :
    Effect s (.advance c) (tryResumeConsumers s c r) := by
  have hstores : stores s (.advance c) = false := by simp [stores, hc]
  unfold tryResumeConsumers
  split_ifs with hused
  · split
    · rename_i w ws hws
      exact .remove w hstores (by simp [removes, hc, hused, hws]) hused rfl rfl rfl
    · rename_i hws
      exact .other hstores (by simp [removes, hc, hws]) rfl rfl rfl
  · exact .other hstores (by simp [removes, hc, hused]) rfl rfl rfl

/-- A call outside of these four critical sections leaves the slots alone. -/
lemma Transition.frame (ht : Transition s c t) (hproduce : ∀ e, s.pc c ≠ .produce e)
    (hproducers : ∀ r, s.pc c ≠ .resumeProducers r) (hconsume : s.pc c ≠ .consume)
    (hconsumers : ∀ r, s.pc c ≠ .resumeConsumers r) :
    t.ring = s.ring ∧ t.stored = s.stored ∧ t.removed = s.removed := by
  cases ht with
  | storeDirect hc => exact absurd hc (hproduce _)
  | storeWaiter hc => exact absurd hc (hproducers _)
  | takeDirect hc => exact absurd hc hconsume
  | takeWaiter hc => exact absurd hc (hconsumers _)
  | _ => exact ⟨rfl, rfl, rfl⟩

/-- Every step of a call has one of the three effects. -/
lemma advance_effect (hw : Waiters s) (h : advance s c = some t) : Effect s (.advance c) t := by
  have ht := advance_transition h
  cases hc : s.pc c with
  | produce e =>
    simp only [advance, hc, Option.some.injEq] at h
    exact h ▸ produce_effect hc
  | consume =>
    simp only [advance, hc, Option.some.injEq] at h
    exact h ▸ consume_effect hc
  | resumeProducers r =>
    simp only [advance, hc, Option.some.injEq] at h
    exact h ▸ tryResumeProducers_effect hw hc
  | resumeConsumers r =>
    simp only [advance, hc, Option.some.injEq] at h
    exact h ▸ tryResumeConsumers_effect hc
  | _ =>
    obtain ⟨hring, hstored, hremoved⟩ :=
      ht.frame (by simp [hc]) (by simp [hc]) (by simp [hc]) (by simp [hc])
    exact .other (by simp [stores, hc]) (by simp [removes, hc]) hring hstored hremoved

/-- Every step of the code has one of the three effects. -/
lemma step_effect {a : Action κ α} (hw : Waiters s) (h : step s a = some t) : Effect s a t := by
  rcases step_cases h with ⟨c, f, rfl, -, rfl⟩ | ⟨c, rfl, -⟩
  · exact .other rfl rfl rfl rfl rfl
  · exact advance_effect hw h

end Effects

/-! ## Before the counters start again -/

/-- A step with words keeps every suspended operation in exactly one place. -/
lemma Waiters.wordStep {w : ℕ} {s s' : State n κ α} {a : Action κ α} (h : Waiters s)
    (hstep : wordStep w s a = some s') : Waiters s' := by
  obtain ⟨t, ht, rfl⟩ := wordStep_eq_some.mp hstep
  have ht' := h.step ht
  exact ⟨ht'.producers, ht'.consumers, ht'.element⟩

/-- With unbounded counters, `m_back` counts the elements removed. -/
lemma back_eq_removed {s : State n κ α} (h : (machine n κ α).Reachable s) :
    s.ring.back = s.removed.length := by
  refine h.invariant (I := fun s => s.ring.back = s.removed.length) rfl fun s a t hr hs ht => ?_
  cases step_effect (waiters_of_reachable hr) ht with
  | store p e _ _ _ hring _ hremoved | other _ _ hring _ hremoved =>
    rw [hring, hremoved]
    exact hs
  | remove c _ _ hused hring _ hremoved =>
    obtain ⟨l, hl, -⟩ := (conserved_of_reachable hr).queued
    cases l with
    | nil => exact absurd hl.used_eq hused.ne'
    | cons e l =>
      rw [hring, hremoved, hl.oldest_eq]
      simp [RingStore.drop, hs]

/-- With unbounded counters, the counters of a state with fewer than `2 ^ w` stores are words. -/
lemma wrap_eq_self {w : ℕ} (hn : n < 2 ^ w) {s : State n κ α} (h : (machine n κ α).Reachable s)
    (hfew : s.stored.length < 2 ^ w) : s.wrap w = s := by
  obtain ⟨l, hl, hlog⟩ := (conserved_of_reachable h).queued
  have hback := back_eq_removed h
  have hlen : s.stored.length = s.removed.length + l.length := by
    simpa using congrArg List.length hlog
  have hfront := hl.front_eq
  have hused := hl.used_eq
  have hwrap : s.ring.wrap (2 ^ w) = s.ring := by
    rw [RingStore.wrap, Nat.mod_eq_of_lt (by omega), Nat.mod_eq_of_lt (by omega),
      Nat.mod_eq_of_lt (hl.used_le.trans_lt hn)]
  rw [State.wrap, hwrap]

/-- Until `2 ^ w` elements have been stored, the buffer with words is in a state that the buffer
with unbounded counters reaches as well. -/
theorem reachable_of_few_stores {w : ℕ} (hn : n < 2 ^ w) {s : State n κ α}
    (h : (wordMachine w n κ α).Reachable s) (hfew : s.stored.length < 2 ^ w) :
    (machine n κ α).Reachable s := by
  refine (h.invariant
    (I := fun s => Waiters s ∧ (s.stored.length < 2 ^ w → (machine n κ α).Reachable s))
    ⟨waiters_start, fun _ => Machine.Reachable.start⟩ ?_).2 hfew
  rintro s a s' _ ⟨hw, hs⟩ hstep
  refine ⟨hw.wordStep hstep, fun hfew => ?_⟩
  obtain ⟨t, ht, rfl⟩ := wordStep_eq_some.mp hstep
  have hmono : s.stored.length ≤ t.stored.length := by
    cases step_effect hw ht with
    | store p e _ _ _ _ hstored _ => simp [hstored]
    | remove c _ _ _ _ hstored _ | other _ _ _ hstored _ => rw [hstored]
  have hreach : (machine n κ α).Reachable t := (hs (hmono.trans_lt hfew)).tail ht
  rwa [wrap_eq_self hn hreach hfew]

/-- An element is stored, removed, and another one is stored. -/
def reuseTrace : List (Action ℕ ℕ) :=
  [.call 0 (.produce 7), .advance 0, .advance 0, .call 1 .consume, .advance 1, .advance 1,
    .call 2 (.produce 8), .advance 2, .advance 2]

/-- The run above uses the slot of a buffer with one slot and words of two bits twice. -/
theorem reachable_of_few_stores_twice : ∃ s : State 1 ℕ ℕ,
    (wordMachine 2 1 ℕ ℕ).run start reuseTrace = some s ∧
    s.stored = [(0, 7), (2, 8)] ∧ s.removed = [(1, 7)] ∧ (machine 1 ℕ ℕ).Reachable s :=
  ⟨_, rfl, rfl, rfl, reachable_of_few_stores (by decide)
    (Machine.reachable_of_run (M := wordMachine 2 1 ℕ ℕ) (l := reuseTrace) rfl) (by decide)⟩

/-! ## Runs without a lapping store -/

/-- What holds as long as no store has lapped: the live counters and the history agree. -/
structure Wrapped (w : ℕ) (s : State n κ α) : Prop where
  waiters : Waiters s
  queued : ∃ l, s.ring.HoldsMod (2 ^ w) l ∧ s.stored.map Prod.snd = s.removed.map Prod.snd ++ l

omit [DecidableEq κ] in
/-- Nothing is stored at the beginning. -/
lemma wrapped_start (w : ℕ) : Wrapped w (start : State n κ α) :=
  ⟨waiters_start, [], RingStore.HoldsMod.empty (Nat.two_pow_pos w), rfl⟩

namespace Wrapped

variable {w : ℕ} {s s' : State n κ α} {a : Action κ α}

omit [DecidableEq κ] in
/-- The slot of `m_front` is free exactly when the store does not lap. -/
lemma front_free_iff (h : Wrapped w s) (hn : n < 2 ^ w) (hroom : s.ring.used < n) :
    s.ring.elements (slot n s.ring.front) = none ↔ ¬ s.ring.Laps (2 ^ w) := by
  obtain ⟨l, hl, -⟩ := h.queued
  exact hl.front_free_iff hn.le hroom

omit [DecidableEq κ] in
/-- The counters are words already. -/
lemma ring_wrap (h : Wrapped w s) (hn : n < 2 ^ w) : s.ring.wrap (2 ^ w) = s.ring := by
  obtain ⟨l, hl, -⟩ := h.queued
  exact hl.wrap_eq hn

omit [DecidableEq κ] in
/-- A removal takes the oldest live element. -/
lemma removal (h : Wrapped w s) (hn : n < 2 ^ w) {c : κ} (hused : 0 < s.ring.used)
    (hring : s'.ring = s.ring.drop.wrap (2 ^ w)) (hstored : s'.stored = s.stored)
    (hremoved : s'.removed = s.removed ++ s.ring.oldest.toList.map (c, ·)) :
    (∃ e, s.live = e :: s'.live ∧ s'.removed.map Prod.snd = s.removed.map Prod.snd ++ [e]) ∧
    ∃ l, s'.ring.HoldsMod (2 ^ w) l ∧
      s'.stored.map Prod.snd = s'.removed.map Prod.snd ++ l := by
  obtain ⟨l, hl, hlog⟩ := h.queued
  cases l with
  | nil => exact absurd hl.window.length_eq hused.ne'
  | cons e l =>
    have htaken : s'.removed.map Prod.snd = s.removed.map Prod.snd ++ [e] := by
      simp [hremoved, hl.oldest_eq]
    have hlog' : s'.stored.map Prod.snd = s'.removed.map Prod.snd ++ l := by
      rw [hstored, hlog, htaken, List.append_assoc, List.singleton_append]
    refine ⟨⟨e, ?_, htaken⟩, l, ?_, hlog'⟩
    · rw [State.live_eq hlog, State.live_eq hlog']
    · rw [hring]
      exact hl.drop hn

/-- A step whose store does not lap keeps the counters and the history in agreement, and is
sound. -/
lemma step (h : Wrapped w s) (hn : n < 2 ^ w) (hspared : Spared w s a)
    (hstep : wordStep w s a = some s') : Wrapped w s' ∧ Sound s a s' := by
  have hwaiters := h.waiters.wordStep hstep
  obtain ⟨t, ht, rfl⟩ := wordStep_eq_some.mp hstep
  cases step_effect h.waiters ht with
  | store p e hstores hremoves hroom hring hstored hremoved =>
    obtain ⟨l, hl, hlog⟩ := h.queued
    have hlaps : ¬ s.ring.Laps (2 ^ w) := hspared hstores
    refine ⟨⟨hwaiters, l ++ [e], ?_, ?_⟩, fun _ => ?_, fun hr => ?_⟩
    · rw [State.wrap, hring]
      exact hl.store hn hroom hlaps
    · simp [State.wrap, hstored, hremoved, hlog]
    · exact (h.front_free_iff hn hroom).mpr hlaps
    · simp [hremoves] at hr
  | remove c hstores hremoves hused hring hstored hremoved =>
    have hdrop : (t.wrap w).ring = s.ring.drop.wrap (2 ^ w) := congrArg (RingStore.wrap _) hring
    obtain ⟨htaken, hqueued⟩ := h.removal hn hused hdrop hstored hremoved
    refine ⟨⟨hwaiters, hqueued⟩, fun hs => ?_, fun _ => htaken⟩
    simp [hstores] at hs
  | other hstores hremoves hring hstored hremoved =>
    obtain ⟨l, hl, hlog⟩ := h.queued
    refine ⟨⟨hwaiters, l, ?_, ?_⟩, fun hs => ?_, fun hr => ?_⟩
    · rw [State.wrap, hring, h.ring_wrap hn]
      exact hl
    · simp [State.wrap, hstored, hremoved, hlog]
    · simp [hstores] at hs
    · simp [hremoves] at hr

end Wrapped

/-- In every run whose stores do not lap the counters and the history agree. -/
lemma wrapped_of_reachable {w : ℕ} (hn : n < 2 ^ w) {s : State n κ α}
    (h : (wordMachine w n κ α).ReachableUnder (Spared w) s) : Wrapped w s :=
  h.invariant (wrapped_start w) fun _ _ _ _ hs hG hstep => (hs.step hn hG hstep).1

/-! ## A run that laps -/

/-- A reachable state in which nobody waits, with keys left for further calls. -/
structure Calm (w : ℕ) (s : State n κ α) : Prop where
  reachable : (wordMachine w n κ α).Reachable s
  wrapped : Wrapped w s
  running : s.mRunningState = .running
  producers : s.mProduceWaiters = []
  consumers : s.mConsumeWaiters = []
  idle : {c | s.pc c = .idle}.Infinite

/-- The beginning is calm. -/
lemma calm_start (w : ℕ) [Infinite κ] : Calm w (start : State n κ α) := by
  refine ⟨Machine.Reachable.start, wrapped_start w, rfl, rfl, rfl, ?_⟩
  have huniv : {c : κ | (start : State n κ α).pc c = .idle} = Set.univ := Set.eq_univ_of_forall
    fun _ => rfl
  rw [huniv]
  exact Set.infinite_univ

namespace Calm

variable {w : ℕ} {s : State n κ α}

/-- A step that moves one call and leaves the others alone keeps the buffer calm. -/
lemma step (h : Calm w s) (hn : n < 2 ^ w) {a : Action κ α} {t : State n κ α} {c : κ} {p : Pc κ α}
    (hspared : Spared w s a) (ht : RingBuffer.step s a = some t)
    (hrun : t.mRunningState = s.mRunningState) (hproducers : t.mProduceWaiters = s.mProduceWaiters)
    (hconsumers : t.mConsumeWaiters = s.mConsumeWaiters) (hpc : t.pc = update s.pc c p) :
    Calm w (t.wrap w) := by
  have hword : wordStep w s a = some (t.wrap w) := wordStep_eq_some.mpr ⟨t, ht, rfl⟩
  refine ⟨h.reachable.tail hword, (h.wrapped.step hn hspared hword).1, hrun.trans h.running,
    hproducers.trans h.producers, hconsumers.trans h.consumers, ?_⟩
  refine (h.idle.sdiff (Set.finite_singleton c)).mono fun d hd => ?_
  have hdc : d ≠ c := fun hdc => hd.2 hdc
  have hd' : t.pc d = .idle := by
    rw [hpc, update_of_ne hdc]
    exact hd.1
  exact hd'

/-- A coroutine calls a member function. -/
lemma call (h : Calm w s) (hn : n < 2 ^ w) (f : Call α) :
    ∃ (c : κ) (s' : State n κ α), Calm w s' ∧ s'.ring = s.ring ∧ s'.pc c = f.entry := by
  obtain ⟨c, hc⟩ := h.idle.nonempty
  have hidle : s.pc c = .idle := hc
  have ht : RingBuffer.step s (.call c f) =
      some { s.goto c f.entry with called := update s.called c (some f) } := by
    simp [RingBuffer.step, hidle]
  refine ⟨c, _, h.step hn (by simp [Spared, stores]) ht rfl rfl rfl rfl, h.wrapped.ring_wrap hn, ?_⟩
  exact update_self ..

/-- A `produce` that finds room stores its element and returns. -/
lemma produce (h : Calm w s) (hn : n < 2 ^ w) (hroom : s.ring.used < n)
    (hlaps : ¬ s.ring.Laps (2 ^ w)) (e : α) :
    ∃ s' : State n κ α, Calm w s' ∧ s'.ring = (s.ring.store (some e)).wrap (2 ^ w) := by
  obtain ⟨c, s₁, h₁, hring, hc⟩ := h.call hn (.produce e)
  rw [← hring] at hroom hlaps ⊢
  have hstore : RingBuffer.step s₁ (.advance c) =
      some ((s₁.store c (some e)).goto c (.resumeConsumers .produced)) := by
    simp [RingBuffer.step, advance, hc, RingBuffer.produce, h₁.running, hroom]
  have h₂ := h₁.step hn (fun _ => hlaps) hstore rfl rfl rfl rfl
  set s₂ := State.wrap w ((s₁.store c (some e)).goto c (.resumeConsumers .produced))
  have hc₂ : s₂.pc c = .resumeConsumers .produced := update_self ..
  have hreturn : RingBuffer.step s₂ (.advance c) =
      some (s₂.goto c (.produceReturned .produced)) := by
    simp [RingBuffer.step, advance, hc₂, tryResumeConsumers, h₂.consumers]
  exact ⟨_, h₂.step hn (by simp [Spared, stores, hc₂]) hreturn rfl rfl rfl rfl,
    h₂.wrapped.ring_wrap hn⟩

/-- A `consume` that finds an element removes it and returns. -/
lemma consume (h : Calm w s) (hn : n < 2 ^ w) (hused : 0 < s.ring.used) :
    ∃ s' : State n κ α, Calm w s' ∧ s'.ring = s.ring.drop.wrap (2 ^ w) := by
  obtain ⟨c, s₁, h₁, hring, hc⟩ := h.call hn .consume
  rw [← hring] at hused ⊢
  set r := ConsumeOperation.awaitResume { mE := s₁.ring.oldest } with hr
  have hremove : RingBuffer.step s₁ (.advance c) =
      some ((s₁.remove c).goto c (.resumeProducers r)) := by
    simp [RingBuffer.step, advance, hc, RingBuffer.consume, h₁.running, hused, hr]
  have h₂ := h₁.step hn (by simp [Spared, stores, hc]) hremove rfl rfl rfl rfl
  set s₂ := State.wrap w ((s₁.remove c).goto c (.resumeProducers r))
  have hc₂ : s₂.pc c = .resumeProducers r := update_self ..
  have hreturn : RingBuffer.step s₂ (.advance c) = some (s₂.goto c (.consumeReturned r)) := by
    simp [RingBuffer.step, advance, hc₂, tryResumeProducers, h₂.producers]
  exact ⟨_, h₂.step hn (by simp [Spared, stores, hc₂, h₂.producers]) hreturn rfl rfl rfl rfl,
    h₂.wrapped.ring_wrap hn⟩

variable [Nonempty α]

/-- As long as the counters have not started again, one more element can be stored. -/
lemma exists_stored (h : Calm w s) (hn : n < 2 ^ w) (hroom : s.ring.used < n)
    (hlt : s.ring.back + s.ring.used < 2 ^ w) :
    ∃ s' : State n κ α, Calm w s' ∧ s'.ring.back = s.ring.back ∧
      s'.ring.used = s.ring.used + 1 := by
  obtain ⟨l, hl, -⟩ := h.wrapped.queued
  have e : α := Classical.arbitrary α
  obtain ⟨s', h', hring⟩ := h.produce hn hroom (hl.not_laps_of_lt hlt) e
  refine ⟨s', h', ?_, ?_⟩ <;> simp only [hring, RingStore.wrap, RingStore.store]
  · exact Nat.mod_eq_of_lt hl.back_lt
  · exact Nat.mod_eq_of_lt (by omega)

variable [Infinite κ]

/-- Producers alone fill as many slots as there are. -/
lemma exists_filled (hn : n < 2 ^ w) (k : ℕ) (hk : k ≤ n) :
    ∃ s : State n κ α, Calm w s ∧ s.ring.back = 0 ∧ s.ring.used = k := by
  induction k with
  | zero => exact ⟨start, calm_start w, rfl, rfl⟩
  | succ k ih =>
    obtain ⟨s, h, hback, hused⟩ := ih (by omega)
    obtain ⟨s', h', hback', hused'⟩ := h.exists_stored hn (by omega) (by omega)
    exact ⟨s', h', hback'.trans hback, by omega⟩

/-- A producer and a consumer in turn move `k` elements along, up to the point where the counters
start again. -/
lemma exists_advanced (hn : n < 2 ^ w) {k : ℕ} (hk : k < n) (b : ℕ) (hb : b + k ≤ 2 ^ w)
    (hpos : 0 < k) :
    ∃ s : State n κ α, Calm w s ∧ s.ring.back = b ∧ s.ring.used = k := by
  induction b with
  | zero => exact exists_filled hn k hk.le
  | succ b ih =>
    obtain ⟨s, h, hback, hused⟩ := ih (by omega)
    obtain ⟨s₁, h₁, hback₁, hused₁⟩ := h.exists_stored hn (by omega) (by omega)
    obtain ⟨s₂, h₂, hring₂⟩ := h₁.consume hn (by omega)
    refine ⟨s₂, h₂, ?_, ?_⟩ <;> simp only [hring₂, RingStore.wrap, RingStore.drop]
    · rw [hback₁, hback]
      exact Nat.mod_eq_of_lt (by omega)
    · rw [hused₁, hused, Nat.add_sub_cancel]
      exact Nat.mod_eq_of_lt (by omega)

end Calm

/-- With a number of slots that does not divide `2 ^ w`, some run makes a store that overwrites a
live element: the one after `2 ^ w` stores that leave `2 ^ w % n` elements alive. -/
lemma exists_overwriting {w : ℕ} [Infinite κ] [Nonempty α] (hn : n < 2 ^ w) (hdvd : ¬ n ∣ 2 ^ w) :
    ∃ (s : State n κ α) (a : Action κ α) (s' : State n κ α) (e : α),
      (wordMachine w n κ α).Reachable s ∧ (wordMachine w n κ α).step s a = some s' ∧
      stores s a = true ∧ s.ring.elements (slot n s.ring.front) = some e ∧ e ∈ s.live := by
  have hpos : 0 < 2 ^ w % n := Nat.pos_of_ne_zero fun h => hdvd (Nat.dvd_of_mod_eq_zero h)
  have hlt : 2 ^ w % n < n := Nat.mod_lt _ (NeZero.pos n)
  obtain ⟨s, h, hback, hused⟩ := Calm.exists_advanced (κ := κ) (α := α) hn hlt (2 ^ w - 2 ^ w % n)
    (by omega) hpos
  have e : α := Classical.arbitrary α
  obtain ⟨c, s₁, h₁, hring, hc⟩ := h.call hn (.produce e)
  obtain ⟨l, hl, hlog⟩ := h₁.wrapped.queued
  have hlaps : s₁.ring.Laps (2 ^ w) := by
    have hsum : s₁.ring.back + s₁.ring.used = 2 ^ w := by
      rw [hring, hback, hused]
      omega
    refine ⟨?_, by rw [hring, hused]⟩
    rw [hl.front_eq, hsum, Nat.mod_self]
    exact hpos
  have hroom : s₁.ring.used < n := by rw [hring, hused]; exact hlt
  have hfull : s₁.ring.elements (slot n s₁.ring.front) ≠ none := fun hnone =>
    (h₁.wrapped.front_free_iff hn hroom).mp hnone hlaps
  obtain ⟨e', he'⟩ := Option.ne_none_iff_exists'.mp hfull
  have hstep : (wordMachine w n κ α).step s₁ (.advance c) = some ((produce s₁ c e).wrap w) := by
    simp [wordMachine, wordStep, step, advance, hc]
  refine ⟨s₁, .advance c, _, e', h₁.reachable, hstep, ?_, he', ?_⟩
  · simp [stores, hc, h₁.running, hroom]
  · rw [State.live_eq hlog]
    exact hl.window.mem_of_eq_some he'

/-! ## When the slots survive -/

/-- Where `std::size_t` has `w` bits and the buffer has `n < 2 ^ w` slots: every store of every run
writes a free slot and every removal takes the oldest live element exactly when `n` divides
`2 ^ w`.  For any `n`, in a run whose stores have not lapped so far, the next step is sound exactly
when it does not store in a state with `m_front < 2 ^ w % n ≤ m_used`. -/
theorem slots_survive_iff {w : ℕ} [Infinite κ] [Nonempty α] (hn : n < 2 ^ w) :
    ((∀ (s : State n κ α) (a : Action κ α) (s' : State n κ α),
        (wordMachine w n κ α).Reachable s → (wordMachine w n κ α).step s a = some s' →
        Sound s a s') ↔ n ∣ 2 ^ w) ∧
    ∀ (s : State n κ α) (a : Action κ α) (s' : State n κ α),
      (wordMachine w n κ α).ReachableUnder (Spared w) s →
      (wordMachine w n κ α).step s a = some s' → (Sound s a s' ↔ Spared w s a) := by
  refine ⟨⟨fun hsound => ?_, fun hdvd s a s' hs hstep => ?_⟩, fun s a s' hs hstep => ?_⟩
  · by_contra hdvd
    obtain ⟨s, a, s', e, hs, hstep, hstores, he, -⟩ :=
      exists_overwriting (κ := κ) (α := α) hn hdvd
    have hnone := (hsound s a s' hs hstep).store hstores
    simp [he] at hnone
  · have hspared : ∀ (t : State n κ α) (b : Action κ α), Spared w t b :=
      fun t _ _ => RingStore.not_laps_of_dvd hdvd t.ring
    have hunder : (wordMachine w n κ α).ReachableUnder (Spared w) s :=
      Machine.Path.mono hs fun t b _ => hspared t b
    exact ((wrapped_of_reachable hn hunder).step hn (hspared s a) hstep).2
  · have hwrapped := wrapped_of_reachable hn hs
    refine ⟨fun hsound hstores => ?_, fun hspared => (hwrapped.step hn hspared hstep).2⟩
    exact (hwrapped.front_free_iff hn (used_lt_of_stores hstores)).mp (hsound.store hstores)

/-- Five elements pass through the buffer, each before the next one comes. -/
def turnsTrace : List (Action ℕ ℕ) :=
  (List.range 5).flatMap fun k =>
    [.call (2 * k) (.produce k), .advance (2 * k), .advance (2 * k), .call (2 * k + 1) .consume,
      .advance (2 * k + 1), .advance (2 * k + 1)]

/-- Four slots survive every run where `std::size_t` has 32 bits.  With three slots and words of two
bits the run above has started the counters again without lapping, and the next store is sound. -/
theorem slots_survive_iff_turns :
    (∀ (s : State 4 ℕ ℕ) (a : Action ℕ ℕ) (s' : State 4 ℕ ℕ),
      (wordMachine 32 4 ℕ ℕ).Reachable s → (wordMachine 32 4 ℕ ℕ).step s a = some s' →
      Sound s a s') ∧
    ∃ s s' : State 3 ℕ ℕ,
      (wordMachine 2 3 ℕ ℕ).runUnder (Spared 2) start
        (turnsTrace ++ [.call 10 (.produce 5)]) = some s ∧
      s.ring.front = 1 ∧ s.ring.back = 1 ∧ stores s (.advance 10) = true ∧
      (wordMachine 2 3 ℕ ℕ).step s (.advance 10) = some s' ∧ Sound s (.advance 10) s' := by
  refine ⟨(slots_survive_iff (by norm_num)).1.mpr (by norm_num), ?_⟩
  have hrun : ∃ s s' : State 3 ℕ ℕ,
      (wordMachine 2 3 ℕ ℕ).runUnder (Spared 2) start
        (turnsTrace ++ [.call 10 (.produce 5)]) = some s ∧
      s.ring.front = 1 ∧ s.ring.back = 1 ∧ stores s (.advance 10) = true ∧
      (wordMachine 2 3 ℕ ℕ).step s (.advance 10) = some s' ∧ Spared 2 s (.advance 10) :=
    ⟨_, _, rfl, rfl, rfl, rfl, rfl, by decide⟩
  obtain ⟨s, s', hs, hfront, hback, hstores, hstep, hspared⟩ := hrun
  exact ⟨s, s', hs, hfront, hback, hstores, hstep,
    ((slots_survive_iff (by norm_num)).2 s _ s' (Machine.reachableUnder_of_run hs) hstep).mpr
      hspared⟩

/-- Three slots do not survive where `std::size_t` has 32 bits: some run makes a store that
overwrites a live element. -/
theorem slots_overwritten :
    ∃ (s : State 3 ℕ ℕ) (a : Action ℕ ℕ) (s' : State 3 ℕ ℕ) (e : ℕ),
      (wordMachine 32 3 ℕ ℕ).Reachable s ∧ (wordMachine 32 3 ℕ ℕ).step s a = some s' ∧
      stores s a = true ∧ s.ring.elements (slot 3 s.ring.front) = some e ∧ e ∈ s.live :=
  exists_overwriting (by norm_num) (by norm_num)

end Libcoro.RingBuffer
