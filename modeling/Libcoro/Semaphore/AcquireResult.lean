import Libcoro.Semaphore.Conservation

/-!
# What `acquire` returns

`await_resume` computes the result of `acquire` from `m_shutdown` and not from the way in which
the operation was completed.  When `shutdown` sets the flag after an acquirer has got its permit
and before it looks at the flag, the acquirer is told that it has none (`permit_lost`).  In a run
without that race the result tells the truth (`acquire_truthful`).
-/

namespace Libcoro.Semaphore

open Foundations Function

variable {κ : Type*}

/-- The calls that have returned from `acquire` or `try_acquire`. -/
def Pc.settled : Pc κ → Bool
  | .tryReturned _ => true
  | .acquireReturned _ => true
  | _ => false

/-- When `shutdown` sets the flag, every call that has got a permit has returned. -/
def GrantsSettled (s : State κ) : Action κ → Prop
  | .advance c => s.pc c = .shutdownExchange → s.mShutdown = false →
      ∀ d ∈ s.grants, (s.pc d).settled = true
  | _ => True

instance [DecidableEq κ] (s : State κ) (a : Action κ) : Decidable (GrantsSettled s a) := by
  unfold GrantsSettled
  split <;> infer_instance

/-- The acquirers that have seen the flag unset in their critical section. -/
def Pc.Unaware : Pc κ → Prop
  | .tryLoad k => k ≠ .user
  | .tryExchange k _ => k ≠ .user
  | .acquirePush => True
  | .acquireSuspend => True
  | _ => False

/-- A semaphore with the flag set has no acquirer on its way to a permit, and nobody on the list
of waiters except while the `shutdown` that set the flag has yet to detach them. -/
structure Closed (s : State κ) : Prop where
  unaware : ∀ c, (s.pc c).Unaware → s.mShutdown = false
  waiters : s.mShutdown = true → s.mAcquireWaiters ≠ [] → ∃ c, s.pc c = .shutdownPopAll

/-- Once the flag is set no acquirer with a permit has still to return, and none has returned
`shutdown` with a permit. -/
structure Truthful (s : State κ) : Prop where
  settled : s.mShutdown = true → ∀ c ∈ s.grants, (s.pc c).settled = true
  returned : ∀ c, s.pc c = .acquireReturned .shutdown → c ∉ s.grants

/-- Such an acquirer owns the mutex. -/
lemma Pc.Unaware.inSection {p : Pc κ} (h : p.Unaware) : p.InSection := by
  cases p <;> first | exact h | trivial

/-- A quiet move of an acquirer that has seen the flag unset. -/
lemma Quiet.unaware {max : ℤ} {s : State κ} {q p : Pc κ} (h : Quiet max s q p) (hp : p.Unaware) :
    q.Unaware ∨ s.mShutdown = false := by
  cases h with
  | @call f => cases f <;> simp [Pc.Unaware] at hp
  | @loadFail k _
  | @reloadFail k x _ => rcases k with _ | _ | _ <;> simp_all [Pc.Unaware]
  | load | reload => exact Or.inl hp
  | notShutdown hflag => exact Or.inr hflag
  | _ => exact hp.elim

/-- Whoever makes a quiet move has not returned, and returns `shutdown` only if the flag is set. -/
lemma Quiet.settled {max : ℤ} {s : State κ} {q p : Pc κ} (h : Quiet max s q p) :
    q.settled = false ∧ (p = .acquireReturned .shutdown → s.mShutdown = true) := by
  cases h with
  | @call f => cases f <;> simp [Pc.settled]
  | @loadFail k _
  | @reloadFail k x _ => rcases k with _ | _ | _ <;> simp [Pc.settled]
  | resume =>
    refine ⟨rfl, ?_⟩
    cases s.mShutdown <;> simp
  | _ => simp [Pc.settled]

variable [DecidableEq κ] {max : ℤ} {s t : State κ} {c w : κ} {p : Pc κ}

namespace Closed

/-- A move of `c` that leaves the waiters and the flag alone. -/
lemma goto (h : Closed s) (hp : p.Unaware → s.mShutdown = false) (hc : s.pc c ≠ .shutdownPopAll) :
    Closed (s.goto c p) := by
  constructor
  · exact (forall_update_iff s.pc fun _ q => q.Unaware → s.mShutdown = false).mpr
      ⟨hp, fun d _ => h.unaware d⟩
  · intro hflag hne
    obtain ⟨d, hd⟩ := h.waiters hflag hne
    have hdc : d ≠ c := by
      rintro rfl
      exact hc hd
    exact ⟨d, by simpa [hdc] using hd⟩

/-- `c` resumes the suspended `w`. -/
lemma wake (h : Closed s) (hw : s.pc w = .suspended) (hcw : c ≠ w) (hp : ¬ p.Unaware)
    (hc : s.pc c ≠ .shutdownPopAll) : Closed ((s.goto w .acquireResume).goto c p) := by
  have hfirst : Closed (s.goto w .acquireResume) := h.goto False.elim (by simp [hw])
  refine hfirst.goto (fun hun => (hp hun).elim) ?_
  simpa [hcw] using hc

omit [DecidableEq κ] in
/-- While a `release` is about to pop, the flag is not set or there is nobody to pop. -/
lemma not_stopped (h : Closed s) (hs : Sound max s) (hc : s.pc c = .releasePop)
    (hne : s.mAcquireWaiters ≠ []) : s.mShutdown = false := by
  by_contra hflag
  obtain ⟨d, hd⟩ := h.waiters (by simpa using hflag) hne
  have hdc : d ≠ c := by
    rintro rfl
    simp [hc] at hd
  refine hs.not_inSection (c := c) (by simp [hc, Pc.InSection]) hdc ?_
  simp [hd, Pc.InSection]

/-- Every transition leaves a semaphore with the flag set closed. -/
lemma transition (h : Closed s) (hs : Sound max s) (ht : Transition max s c t) : Closed t := by
  cases ht with
  | quiet hq =>
    refine h.goto ?_ ?_
    · intro hp
      exact (hq.unaware hp).elim (h.unaware c) id
    · intro hc
      rw [hc] at hq
      cases hq
  | @lock p hlock _ =>
    have hgoto : Closed (s.goto c p) := by
      generalize hpc : s.pc c = q at hlock
      apply h.goto
      all_goals cases hlock <;> simp [hpc, Pc.Unaware]
    exact { hgoto with }
  | @unlock p hunlock =>
    have hgoto : Closed (s.goto c p) := by
      generalize hpc : s.pc c = q at hunlock
      apply h.goto
      all_goals cases hunlock <;> simp [hpc, Pc.Unaware]
    exact { hgoto with }
  | @take k hc =>
    have hgoto : Closed (s.goto c k.success) := by
      apply h.goto
      · rcases k with _ | _ <;> exact False.elim
      · simp [hc]
    exact { hgoto with }
  | push hc =>
    have hflag := h.unaware c (by simp [hc, Pc.Unaware])
    have hgoto : Closed (s.goto c .acquireSuspend) := h.goto (fun _ => hflag) (by simp [hc])
    refine ⟨hgoto.1, ?_⟩
    intro hset
    rw [show s.mShutdown = true from hset] at hflag
    cases hflag
  | drop hc _ | add hc =>
    have hgoto : Closed (s.goto c (.releaseUnlock none)) := h.goto False.elim (by simp [hc])
    exact { hgoto with }
  | @handOff w ws hc hws =>
    have hflag := h.not_stopped hs hc (by simp [hws])
    have hgoto : Closed (s.goto c (.releaseUnlock (some w))) := h.goto False.elim (by simp [hc])
    refine ⟨hgoto.1, ?_⟩
    intro hset
    rw [show s.mShutdown = true from hset] at hflag
    cases hflag
  | @resumeOne w hc =>
    obtain ⟨hw, hcw⟩ := hs.suspended_of_mem_hand (c := c) (w := w)
      (by simp [hc, Pc.inHand, Pc.toGrant])
    exact h.wake hw hcw id (by simp [hc])
  | stop hc _ =>
    refine ⟨?_, fun _ _ => ⟨c, by simp⟩⟩
    -- whoever has seen the flag unset is in its critical section, and so is `c`
    refine (forall_update_iff s.pc fun _ q => q.Unaware → true = false).mpr ⟨False.elim, ?_⟩
    intro d hd hun
    refine (hs.not_inSection (c := c) (by simp [hc, Pc.InSection]) hd ?_).elim
    exact hun.inSection
  | popAll hc =>
    refine ⟨?_, fun _ hne => (hne rfl).elim⟩
    exact (forall_update_iff s.pc fun _ q => q.Unaware → s.mShutdown = false).mpr
      ⟨False.elim, fun d _ => h.unaware d⟩
  | @resumeNext w ws hc =>
    obtain ⟨hw, hcw⟩ := hs.suspended_of_mem_hand (c := c) (w := w)
      (by simp [hc, Pc.inHand, Pc.toStop])
    exact h.wake hw hcw id (by simp [hc])

end Closed

/-- A semaphore with the flag set is closed in every reachable state. -/
lemma closed_of_reachable {startingValue : ℤ} (h0 : 0 ≤ startingValue)
    (hmax : startingValue ≤ max) (h : (machine κ max startingValue).Reachable s) : Closed s := by
  refine h.invariant ?_ ?_
  · constructor
    all_goals simp [machine, start]
  · intro s a t hr hs hstep
    exact hs.transition (sound_of_reachable h0 hmax hr) (step_transition hstep)

namespace Truthful

/-- A move of `c`, which has not returned, that concerns no permit. -/
lemma goto (h : Truthful s) (hc : (s.pc c).settled = false)
    (hp : p = .acquireReturned .shutdown → s.mShutdown = true) : Truthful (s.goto c p) := by
  have hold : s.mShutdown = true → c ∉ s.grants := by
    intro hflag hmem
    have hset := h.settled hflag c hmem
    simp [hc] at hset
  constructor
  · intro hflag d hd
    have hdc : d ≠ c := by
      rintro rfl
      exact hold hflag hd
    simpa [hdc] using h.settled hflag d hd
  · refine (forall_update_iff s.pc fun d q =>
      q = .acquireReturned .shutdown → d ∉ s.grants).mpr ⟨?_, fun d _ => h.returned d⟩
    exact fun hq => hold (hp hq)

/-- `c` logs a permit for `x`, which has not returned, while the flag is not set. -/
lemma log (h : Truthful s) {x : κ} {ws releases : List κ} {n : ℤ} (hc : (s.pc c).settled = false)
    (hx : (s.pc x).settled = false) (hp : p ≠ .acquireReturned .shutdown)
    (hflag : s.mShutdown = true → x = c ∧ p.settled = true) :
    Truthful { s.goto c p with
      mCounter := n
      mAcquireWaiters := ws
      grants := x :: s.grants
      releases := releases } := by
  have hgoto : Truthful (s.goto c p) := h.goto hc fun hq => (hp hq).elim
  constructor
  · intro hset d hd
    rcases List.mem_cons.mp hd with rfl | hd
    · obtain ⟨rfl, hsettled⟩ := hflag hset
      simpa using hsettled
    · exact hgoto.settled hset d hd
  · intro d hd hmem
    rcases List.mem_cons.mp hmem with rfl | hmem
    · rcases eq_or_ne d c with rfl | hdc
      · exact hp (by simpa using hd)
      · have hret : s.pc d = .acquireReturned .shutdown := by simpa [hdc] using hd
        simp [hret, Pc.settled] at hx
    · exact hgoto.returned d hd hmem

/-- `c` resumes the suspended `w`. -/
lemma wake (h : Truthful s) (hw : s.pc w = .suspended) (hcw : c ≠ w)
    (hc : (s.pc c).settled = false) (hp : p ≠ .acquireReturned .shutdown) :
    Truthful ((s.goto w .acquireResume).goto c p) := by
  have hfirst : Truthful (s.goto w .acquireResume) :=
    h.goto (by simp [hw, Pc.settled]) fun hq => by cases hq
  refine hfirst.goto ?_ fun hq => (hp hq).elim
  simpa [hcw] using hc

/-- A transition that sets the flag only when every call with a permit has returned keeps the
results true. -/
lemma transition (h : Truthful s) (hs : Sound max s) (hclosed : Closed s)
    (hguard : s.pc c = .shutdownExchange → s.mShutdown = false →
      ∀ d ∈ s.grants, (s.pc d).settled = true)
    (ht : Transition max s c t) : Truthful t := by
  cases ht with
  | quiet hq => exact h.goto hq.settled.1 hq.settled.2
  | @lock p hlock _ =>
    have hgoto : Truthful (s.goto c p) := by
      generalize hpc : s.pc c = q at hlock
      apply h.goto
      all_goals cases hlock <;> simp [hpc, Pc.settled]
    exact { hgoto with }
  | @unlock p hunlock =>
    have hgoto : Truthful (s.goto c p) := by
      generalize hpc : s.pc c = q at hunlock
      apply h.goto
      all_goals cases hunlock <;> simp [hpc, Pc.settled]
    exact { hgoto with }
  | @take k hc =>
    have hnot : (s.pc c).settled = false := by simp [hc, Pc.settled]
    refine h.log hnot hnot (by rcases k with _ | _ <;> simp) ?_
    intro hflag
    refine ⟨rfl, ?_⟩
    rcases k with _ | again
    · rfl
    · have hunset := hclosed.unaware c (by simp [hc, Pc.Unaware])
      simp [hflag] at hunset
  | push hc =>
    have hgoto : Truthful (s.goto c .acquireSuspend) :=
      h.goto (by simp [hc, Pc.settled]) fun hq => by cases hq
    exact { hgoto with }
  | drop hc _ | add hc =>
    have hgoto : Truthful (s.goto c (.releaseUnlock none)) :=
      h.goto (by simp [hc, Pc.settled]) fun hq => by cases hq
    exact { hgoto with }
  | @handOff w ws hc hws =>
    have hw := hs.suspended_of_mem (c := c) (w := w) (by simp [hc, Pc.InSection])
      (by simp [hc]) (by simp [hws])
    refine h.log (by simp [hc, Pc.settled]) (by simp [hw, Pc.settled]) (by simp) ?_
    intro hflag
    have hunset := hclosed.not_stopped hs hc (by simp [hws])
    simp [hflag] at hunset
  | @resumeOne w hc =>
    obtain ⟨hw, hcw⟩ := hs.suspended_of_mem_hand (c := c) (w := w)
      (by simp [hc, Pc.inHand, Pc.toGrant])
    exact h.wake hw hcw (by simp [hc, Pc.settled]) (by simp)
  | stop hc hflag =>
    have hgoto : Truthful (s.goto c .shutdownPopAll) :=
      h.goto (by simp [hc, Pc.settled]) fun hq => by cases hq
    refine ⟨?_, hgoto.2⟩
    intro _ d hd
    have hset := hguard hc hflag d hd
    have hdc : d ≠ c := by
      rintro rfl
      simp [hc, Pc.settled] at hset
    simpa [hdc] using hset
  | popAll hc =>
    have hgoto : Truthful (s.goto c (.shutdownUnlock s.mAcquireWaiters)) :=
      h.goto (by simp [hc, Pc.settled]) fun hq => by cases hq
    exact { hgoto with }
  | @resumeNext w ws hc =>
    obtain ⟨hw, hcw⟩ := hs.suspended_of_mem_hand (c := c) (w := w)
      (by simp [hc, Pc.inHand, Pc.toStop])
    exact h.wake hw hcw (by simp [hc, Pc.settled]) (by simp)

end Truthful

/-- The guard of a step, in the form in which its transition uses it. -/
lemma GrantsSettled.of_step {a : Action κ} (hguard : GrantsSettled s a)
    (hstep : step max s a = some t) (hc : s.pc a.actor = .shutdownExchange)
    (hflag : s.mShutdown = false) : ∀ d ∈ s.grants, (s.pc d).settled = true := by
  cases a with
  | call c f | spurious c =>
    change s.pc c = _ at hc
    simp [step, hc] at hstep
  | advance c => exact hguard hc hflag

/-- In every run of a `semaphore<max>` in which `shutdown` sets the flag only when every call that
has got a permit has returned, an `acquire` that has returned was told `acquired` if and only if it
got a permit. -/
theorem acquire_truthful {startingValue : ℤ} (h0 : 0 ≤ startingValue) (hmax : startingValue ≤ max)
    (h : (machine κ max startingValue).ReachableUnder GrantsSettled s) {r : AcquireResult}
    (hc : s.pc c = .acquireReturned r) : r = .acquired ↔ c ∈ s.grants := by
  have htruthful : Truthful s := by
    refine h.invariant ?_ ?_
    · constructor
      all_goals simp [machine, start]
    · intro s a t hr hs hguard hstep
      have hreach := hr.reachable
      exact hs.transition (sound_of_reachable h0 hmax hreach) (closed_of_reachable h0 hmax hreach)
        (hguard.of_step hstep) (step_transition hstep)
  constructor
  · have hgranted := (granted_of_reachable h0 hmax h.reachable).accounts c
    rw [hc] at hgranted
    exact hgranted
  · intro hmem
    cases r with
    | acquired => rfl
    | shutdown => exact (htruthful.returned c hc hmem).elim

/-- One call takes the only permit and returns, another one waits, and `shutdown` wakes it. -/
def orderlyTrace : List (Action ℕ) :=
  [.call 0 .acquire, .advance 0, .advance 0, .advance 0, .advance 0, .advance 0, .advance 0,
    .call 1 .acquire, .advance 1, .advance 1, .advance 1, .advance 1, .advance 1, .advance 1,
    .advance 1, .call 2 .shutdown, .advance 2, .advance 2, .advance 2, .advance 2, .advance 2,
    .advance 2, .advance 1]

/-- After the run above the first call has its permit and was told so, and the second one has none
and was told so. -/
theorem acquire_truthful_orderly : ∃ s : State ℕ,
    (machine ℕ 1 1).runUnder GrantsSettled (start 1) orderlyTrace = some s ∧
    s.pc 0 = .acquireReturned .acquired ∧ s.pc 1 = .acquireReturned .shutdown ∧
    (AcquireResult.acquired = .acquired ↔ 0 ∈ s.grants) ∧
    (AcquireResult.shutdown = .acquired ↔ 1 ∈ s.grants) := by
  have hreach := Machine.reachableUnder_of_run (M := machine ℕ 1 1) (G := GrantsSettled)
    (l := orderlyTrace) rfl
  exact ⟨_, rfl, rfl, rfl, acquire_truthful (by decide) (by decide) hreach rfl,
    acquire_truthful (by decide) (by decide) hreach rfl⟩

/-- A call takes the only permit and gives the mutex back; before it looks at the flag again,
`shutdown` sets it. -/
def racingTrace : List (Action ℕ) :=
  [.call 0 .acquire, .advance 0, .advance 0, .advance 0, .advance 0, .advance 0,
    .call 1 .shutdown, .advance 1, .advance 1, .advance 1, .advance 1, .advance 1, .advance 1,
    .advance 0]

/-- After the run above the call was told that the semaphore is shut down, and the permit that it
has taken is lost. -/
theorem permit_lost : ∃ s : State ℕ,
    (machine ℕ 1 1).run (start 1) racingTrace = some s ∧
    s.pc 0 = .acquireReturned .shutdown ∧ 0 ∈ s.grants ∧ s.mCounter = 0 :=
  ⟨_, rfl, rfl, by decide, rfl⟩

end Libcoro.Semaphore
