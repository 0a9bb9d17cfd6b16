import Libcoro.SharedMutex.Exclusion

/-!
# Nobody barges past a waiter

The fast path of `lock_shared` looks at `m_state` and `m_exclusive_waiters` only.  Since the
first waiter of a mutex locked in shared mode is an exclusive one, it finds the list of waiters
empty whenever it succeeds, and the lock is granted in the order of arrival (`no_barging`).
-/

namespace Libcoro.SharedMutex

open Foundations

variable {κ : Type*} [DecidableEq κ] {s t : State κ} {q : List κ}

omit [DecidableEq κ] in
/-- Taking the lock directly leaves the orders of arrival and of granting as they are. -/
lemma tryMode_logs {e : Bool} (h : tryMode s e = (true, t)) :
    t.grants = s.grants ∧ t.reached = s.reached := by
  rcases tryMode_true h with ⟨-, -, rfl⟩ | ⟨-, -, rfl⟩ | ⟨-, -, -, rfl⟩ <;> exact ⟨rfl, rfl⟩

/-- A step grants the lock to waiters at the front of the list or, when nobody waits, to its
caller; whoever has reached the mutex stays where it is in the order of arrival. -/
lemma Transition.grants {a : Action κ} (ht : Transition s a t) (h : Books s q)
    (hm : Moded s q) :
    ∃ g, t.grants = s.grants ++ g ∧ (q ≠ [] → g <+: q) ∧ s.reached <+: t.reached := by
  cases ht with
  | lockDirect hc htry =>
    rename_i c e n r
    have hcoming : (s.pc c).Coming := by simp [hc, Pc.Coming]
    obtain ⟨hbooks, hmoded⟩ := h.construct hm hcoming e
    have hq := hmoded.queue_eq_nil hbooks.lined htry
    have hlogs : r.grants = s.grants ∧ r.reached = s.reached := by
      simpa [State.construct] using tryMode_logs htry
    refine ⟨[c], ?_, fun hne => (hne hq).elim, ?_⟩
    · simp [State.letIn, hlogs.1]
    · simp [State.letIn, hlogs.2]
  | tryDirect hc htry =>
    rename_i c e n r
    have hq := hm.queue_eq_nil h.lined htry
    have hlogs : r.grants = s.grants ∧ r.reached = s.reached := tryMode_logs htry
    refine ⟨[c], ?_, fun hne => (hne hq).elim, ?_⟩
    · simp [State.letIn, hlogs.1]
    · simp [State.letIn, hlogs.2]
  | lockSuspend hc htry =>
    refine ⟨[], ?_, fun _ => ⟨q, rfl⟩, ?_⟩
    · simp [awaitSuspend, State.construct, State.goto]
    · simp [awaitSuspend, State.construct]
  | unlockLast hc hone hrel =>
    obtain ⟨-, hbooks⟩ := h.leaveShared hc
    obtain ⟨run, rest, rfl, hgrants, hreached, -⟩ :=
      hbooks.release (h.vacant_of_last hm hc hone) (by simp) hrel
    refine ⟨run, hgrants, fun _ => List.prefix_append run rest, ?_⟩
    rw [hreached]
    exact List.prefix_rfl
  | unlock hc hrel =>
    obtain ⟨run, rest, rfl, hgrants, hreached, -⟩ :=
      (h.leaveExclusive hc).release (hm.vacant_of_exclusive hc) (by simp) hrel
    refine ⟨run, hgrants, fun _ => List.prefix_append run rest, ?_⟩
    rw [hreached]
    exact List.prefix_rfl
  | _ => exact ⟨[], (List.append_nil _).symm, fun _ => ⟨q, rfl⟩, List.prefix_rfl⟩

/-- The order of arrival only ever gets longer. -/
lemma reached_grows (hs : (machine κ).Reachable s)
    (hst : (machine κ).Path (fun _ _ => True) s t) : s.reached <+: t.reached := by
  refine hs.along (I := fun t => s.reached <+: t.reached) hst List.prefix_rfl ?_
  intro r a r' hr hfront hstep
  obtain ⟨q, hbooks, hmoded⟩ := books_of_reachable hr
  obtain ⟨-, -, -, hgrow⟩ := (step_transition hstep).grants hbooks hmoded
  exact hfront.trans hgrow

omit [DecidableEq κ] in
/-- Whoever left the queue `q` from the front while `d` stayed in it was before `d`. -/
lemma sublist_of_leaves {out out' q' later : List κ} {c d : κ}
    (heq : out ++ q ++ later = out' ++ q') (hnodup : (out' ++ q').Nodup) (hd : d ∈ q)
    (hd' : d ∈ q') (hc : c ∈ out') (hnot : c ∉ out) : [c, d].Sublist q := by
  obtain ⟨q₁, q₂, rfl⟩ := List.append_of_mem hd
  obtain ⟨r₁, r₂, rfl⟩ := List.append_of_mem hd'
  have hsplit : (out ++ q₁) ++ d :: (q₂ ++ later) = (out' ++ r₁) ++ d :: r₂ := by
    simpa using heq
  -- `d` occurs once, so both sides have the same part before it
  have honce : ((out ++ q₁) ++ d :: (q₂ ++ later)).Nodup := by
    rw [hsplit]
    simpa using hnodup
  obtain ⟨-, hright, hleft⟩ := List.nodup_append'.mp honce
  have hbefore : out ++ q₁ = out' ++ r₁ := by
    refine ((List.append_cons_inj_of_notMem ?_ ?_).mp hsplit).1
    · intro hmem
      exact hleft hmem List.mem_cons_self
    · exact (List.nodup_cons.mp hright).1
  have hmem : c ∈ out ++ q₁ := by
    rw [hbefore]
    exact List.mem_append_left _ hc
  have hq₁ : c ∈ q₁ := (List.mem_append.mp hmem).resolve_left hnot
  exact (List.singleton_sublist.mpr hq₁).append (List.singleton_sublist.mpr List.mem_cons_self)

/-- In every reachable state of a shared mutex with the waiters `q`, oldest first:
* whoever has been let in came before all of `q`, as the operations that reached the mutex and
  were not turned away are, in order, those that were let in followed by `q`;
* the first waiter of a mutex locked in shared mode is an exclusive one;
* while somebody waits, a step lets in nobody but waiters at the front of `q`;
* as long as the waiter `d` is not let in, those let in from now on are waiters that were
  before `d` in `q`. -/
theorem no_barging (h : (machine κ).Reachable s) :
    ∃ q, s.waiters.Holds q ∧ (∀ c, c ∈ q ↔ s.pc c = .suspended) ∧
      s.reached = s.grants ++ q ∧ s.reached.Nodup ∧
      (∀ c, c ∈ s.grants ↔ ¬ (s.pc c).Coming ∧ s.pc c ≠ .suspended) ∧
      (s.mState = .lockedShared → ∀ w ∈ q.head?, s.mExclusive w = true) ∧
      (∀ a t, (machine κ).step s a = some t → q ≠ [] → ∃ g, g <+: q ∧ t.grants = s.grants ++ g) ∧
      (∀ t, (machine κ).Path (fun _ _ => True) s t → ∀ d ∈ q, t.pc d = .suspended →
        ∀ c ∈ t.grants, c ∉ s.grants → [c, d].Sublist q) := by
  obtain ⟨q, hbooks, hmoded⟩ := books_of_reachable h
  have hlined := hbooks.lined
  refine ⟨q, hlined.holds, hlined.suspended, hlined.reached, hlined.nodup, ?_, ?_, ?_, ?_⟩
  · intro c
    have harrived := hlined.arrived c
    rw [hlined.reached, List.mem_append, hlined.suspended] at harrived
    constructor
    · intro hc
      refine ⟨harrived.mp (Or.inl hc), ?_⟩
      intro hsusp
      have hnodup := hlined.nodup
      rw [hlined.reached] at hnodup
      exact (List.nodup_append'.mp hnodup).2.2 hc ((hlined.suspended c).mpr hsusp)
    · rintro ⟨hcoming, hsusp⟩
      exact (harrived.mpr hcoming).resolve_right hsusp
  · intro hsh
    rw [Moded, hsh] at hmoded
    exact hmoded.2.2
  · intro a t hstep hne
    obtain ⟨g, hgrants, hfront, -⟩ := (step_transition hstep).grants hbooks hmoded
    exact ⟨g, hfront hne, hgrants⟩
  · intro t hst d hd hsusp c hc hnot
    obtain ⟨q', hbooks', -⟩ := books_of_reachable (h.trans hst)
    have hlined' := hbooks'.lined
    obtain ⟨later, hlater⟩ := reached_grows h hst
    have hnodup := hlined'.nodup
    rw [hlined.reached, hlined'.reached] at hlater
    rw [hlined'.reached] at hnodup
    exact sublist_of_leaves hlater hnodup hd ((hlined'.suspended d).mpr hsusp) hc hnot

/-- In the run of two readers and two writers, the lock is granted in the order of arrival; the
reader that came after the second writer still waits behind it. -/
theorem no_barging_readers : ∃ s : State ℕ,
    (machine ℕ).run start readersTrace = some s ∧ s.reached = [0, 1, 2, 3, 4] ∧
    s.grants = [0, 1, 2] ∧ s.mState = .lockedShared ∧
    ∃ q, s.reached = s.grants ++ q ∧ ∀ w ∈ q.head?, s.mExclusive w = true := by
  refine ⟨_, rfl, rfl, rfl, rfl, ?_⟩
  obtain ⟨q, -, -, hreached, -, -, hfirst, -⟩ :=
    no_barging (Machine.reachable_of_run (l := readersTrace) rfl)
  exact ⟨q, hreached, hfirst rfl⟩

end Libcoro.SharedMutex
