import Libcoro.Semaphore.AcquireResult

/-!
# A semaphore that has been shut down

Two paths of the source go on after a `shutdown` has completed as if it had not.  `try_acquire`
works on the counter alone and never looks at `m_shutdown`, so it still hands out the permits that
are left.  And a second `shutdown` that finds the flag set returns at once, although the one that
has set it may still have all the waiters to detach (`shutdown_not_final`).  In a run that takes
neither path a completed `shutdown` is final (`shutdown_final`).
-/

namespace Libcoro.Semaphore

open Foundations Function

variable {κ : Type*}

/-- The next step of `c` goes against a `shutdown`: the flag is set, and a `try_acquire` of the
user is about to see a permit, or another `shutdown` is about to return before the waiters have
been detached. -/
def State.heedless (s : State κ) (c : κ) : Bool :=
  s.mShutdown &&
    match s.pc c with
    | .tryLoad .user => decide (0 < s.mCounter)
    | .tryExchange .user _ => decide (0 < s.mCounter)
    | .shutdownLoad => !s.mAcquireWaiters.isEmpty
    | _ => false

/-- The step does not go against a `shutdown`. -/
def Heeds (s : State κ) (a : Action κ) : Prop :=
  s.heedless a.actor = false

instance (s : State κ) (a : Action κ) : Decidable (Heeds s a) :=
  inferInstanceAs (Decidable (s.heedless a.actor = false))

/-- The flag is set and the waiters have been detached. -/
structure Stopped (s : State κ) : Prop where
  flag : s.mShutdown = true
  waiters : s.mAcquireWaiters = []

/-- The `shutdown` calls that count on the waiters having been detached. -/
@[simp] def Pc.Detached : Pc κ → Prop
  | .shutdownUnlock _ => True
  | .shutdownResume _ => True
  | .shutdownReturned => True
  | _ => False

/-- Where a call can be that was made after a `shutdown` had completed: not on its way to the list
of waiters, and returned only without a permit. -/
def Pc.Refused : Pc κ → Prop
  | .tryLoad k => k = .user
  | .tryExchange k _ => k = .user
  | .tryReturned b => b = false
  | .acquirePush => False
  | .acquireSuspend => False
  | .suspended => False
  | .acquireReturned r => r = .shutdown
  | _ => True

/-- A quiet move of a `shutdown` that has seen the flag. -/
lemma Quiet.detached {max : ℤ} {s : State κ} {q p : Pc κ} (h : Quiet max s q p)
    (hp : p.Detached) (hq : ¬ q.Detached) :
    s.mShutdown = true ∧ (q = .shutdownLoad ∨ q = .shutdownExchange) := by
  cases h with
  | @call f => cases f <;> exact hp.elim
  | @loadFail k _ | @reloadFail k x _ => rcases k with _ | _ | _ <;> exact hp.elim
  | shutdownAgain hflag => exact ⟨hflag, Or.inl rfl⟩
  | shutdownLate hflag => exact ⟨hflag, Or.inr rfl⟩
  | shutdownDone => exact (hq trivial).elim
  | _ => exact hp.elim

/-- A quiet move of a call that comes too late. -/
lemma Quiet.refused {max : ℤ} {s : State κ} {q p : Pc κ} (h : Quiet max s q p)
    (hflag : s.mShutdown = true) (hq : q.Refused) : p.Refused := by
  cases h with
  | @call f => cases f <;> trivial
  | @loadFail k _ | @reloadFail k x _ =>
    obtain rfl : k = .user := hq
    rfl
  | load | reload => exact hq
  | notShutdown hunset => simp [hflag] at hunset
  | resume => simp [hflag, Pc.Refused]
  | _ => trivial

/-- Whoever pops, with the flag set, knows that the waiters have been detached. -/
lemma Closed.stopped {max : ℤ} {s : State κ} {c : κ} (h : Closed s) (hs : Sound max s)
    (hflag : s.mShutdown = true) (hin : (s.pc c).InSection) (hc : s.pc c ≠ .shutdownPopAll) :
    Stopped s := by
  refine ⟨hflag, ?_⟩
  by_contra hne
  obtain ⟨d, hd⟩ := h.waiters hflag hne
  have hdc : d ≠ c := by
    rintro rfl
    exact hc hd
  refine hs.not_inSection hin hdc ?_
  simp [hd, Pc.InSection]

variable [DecidableEq κ] {max : ℤ} {s t : State κ} {c : κ}

/-! ## The flag and the waiters -/

/-- Nobody goes back on a `shutdown`. -/
lemma Stopped.transition (h : Stopped s) (hclosed : Closed s) (ht : Transition max s c t) :
    Stopped t := by
  cases ht with
  | push hc =>
    have hunset := hclosed.unaware c (by simp [hc, Pc.Unaware])
    simp [h.flag] at hunset
  | handOff _ hws => simp [h.waiters] at hws
  | stop => exact ⟨rfl, h.waiters⟩
  | popAll => exact ⟨h.flag, rfl⟩
  | _ => exact ⟨h.flag, h.waiters⟩

/-- When a call becomes the first `shutdown` to count on the detached waiters, they have been
detached. -/
lemma Transition.stopped_of_first (ht : Transition max s c t) (hs : Sound max s)
    (hclosed : Closed s) (hgranted : Granted s) (hheeds : s.heedless c = false)
    (hnone : ∀ d, ¬ (s.pc d).Detached)
    {d : κ} (hd : (t.pc d).Detached) : Stopped t := by
  -- only the control point of `c` can have become one of the three
  have hgoto : ∀ p : Pc κ, (update s.pc c p d).Detached → p.Detached := by
    intro p hp
    rcases eq_or_ne d c with rfl | hdc
    · simpa using hp
    · exact (hnone d (by simpa [hdc] using hp)).elim
  cases ht with
  | @quiet p hq =>
    obtain ⟨hflag, hc | hc⟩ := hq.detached (hgoto p hd) (hnone c)
    · have hempty : s.mAcquireWaiters = [] := by simpa [State.heedless, hflag, hc] using hheeds
      exact ⟨hflag, hempty⟩
    · have hstopped := hclosed.stopped hs hflag (c := c) (by simp [hc, Pc.InSection]) (by simp [hc])
      exact ⟨hflag, hstopped.waiters⟩
  | @lock p hlock _ =>
    have hp := hgoto p hd
    generalize s.pc c = q at hlock
    cases hlock <;> exact hp.elim
  | @unlock p hunlock =>
    have hp := hgoto p hd
    have hq := hnone c
    generalize s.pc c = q at hunlock hq
    cases hunlock with
    | shutdown => exact (hq trivial).elim
    | _ => exact hp.elim
  | @take k _ => rcases k with _ | _ <;> exact (hgoto _ hd).elim
  | popAll hc => exact ⟨hgranted.stopping c (by simp [hc, Pc.Stopping]), rfl⟩
  | @resumeOne w hc =>
    rcases eq_or_ne d c with rfl | hdc
    · simp at hd
    · rcases eq_or_ne d w with rfl | hdw
      · simp [hdc] at hd
      · exact (hnone d (by simpa [hdc, hdw] using hd)).elim
  | resumeNext hc => exact (hnone c (by simp [hc])).elim
  | _ => exact (hgoto _ hd).elim

/-- While a `shutdown` counts on the waiters having been detached, they have been. -/
lemma stopped_of_reachable {startingValue : ℤ} (h0 : 0 ≤ startingValue)
    (hmax : startingValue ≤ max) (h : (machine κ max startingValue).ReachableUnder Heeds s)
    (hc : (s.pc c).Detached) : Stopped s := by
  refine h.invariant (I := fun s => ∀ c, (s.pc c).Detached → Stopped s) ?_ ?_ c hc
  · intro c hc
    exact hc.elim
  · intro s a t hr hs hheeds hstep d hd
    have ht := step_transition hstep
    have hclosed := closed_of_reachable h0 hmax hr.reachable
    by_cases hex : ∃ d, (s.pc d).Detached
    · obtain ⟨d, hd⟩ := hex
      exact (hs d hd).transition hclosed ht
    · exact ht.stopped_of_first (sound_of_reachable h0 hmax hr.reachable) hclosed
        (granted_of_reachable h0 hmax hr.reachable) hheeds (not_exists.mp hex) hd

/-! ## The counter and the late calls -/

omit [DecidableEq κ] in
/-- Once the flag is set, a step that heeds it takes no permit. -/
lemma not_take (hs : Sound max s) (hclosed : Closed s) (hflag : s.mShutdown = true)
    (hheeds : s.heedless c = false) {k : Caller} : s.pc c ≠ .tryExchange k s.mCounter := by
  intro hc
  cases k with
  | user =>
    have hle : s.mCounter ≤ 0 := by simpa [State.heedless, hflag, hc] using hheeds
    have hpos := hs.knows c
    rw [hc] at hpos
    exact absurd (show 0 < s.mCounter from hpos) (by omega)
  | awaitReady again =>
    have hunset := hclosed.unaware c (by simp [hc, Pc.Unaware])
    simp [hflag] at hunset

/-- Once the flag is set, only a `release` changes the counter. -/
lemma Transition.counter (ht : Transition max s c t)
    (htake : ∀ k : Caller, s.pc c ≠ .tryExchange k s.mCounter) :
    t.mCounter = s.mCounter ∨ s.pc c = .releaseAdd ∧ t.mCounter = s.mCounter + 1 := by
  cases ht with
  | take hc => exact (htake _ hc).elim
  | add hc => exact Or.inr ⟨hc, rfl⟩
  | _ => exact Or.inl rfl

/-- A late call after a move of `c`. -/
lemma refused_update {f : κ → Pc κ} {p : Pc κ} {d : κ} (hd : (f d).Refused)
    (hp : (f c).Refused → p.Refused) : (update f c p d).Refused := by
  rcases eq_or_ne d c with rfl | hdc
  · simpa using hp hd
  · simpa [hdc] using hd

/-- A call that comes too late stays without a permit. -/
lemma Transition.refused (ht : Transition max s c t) (hflag : s.mShutdown = true)
    (htake : ∀ k : Caller, s.pc c ≠ .tryExchange k s.mCounter) {d : κ} (hd : (s.pc d).Refused) :
    (t.pc d).Refused := by
  cases ht with
  | quiet hq => exact refused_update hd (hq.refused hflag)
  | lock hlock _ =>
    refine refused_update hd fun _ => ?_
    generalize s.pc c = q at hlock
    cases hlock <;> trivial
  | unlock hunlock =>
    refine refused_update hd fun hc => ?_
    generalize s.pc c = q at hunlock hc
    cases hunlock with
    | suspend => exact hc
    | _ => trivial
  | take hc => exact (htake _ hc).elim
  | push hc => exact refused_update hd fun hr => by simp [hc, Pc.Refused] at hr
  | resumeOne | resumeNext =>
    exact refused_update (refused_update hd fun _ => trivial) fun _ => trivial
  | _ => exact refused_update hd fun _ => trivial

/-- A semaphore with `max` permits that hands none out: nobody waits, only a `release` changes the
counter, and a call that is left to itself returns without a permit. -/
structure Refuses (max startingValue : ℤ) (s : State κ) : Prop where
  waiters : s.mAcquireWaiters = []
  counter : ∀ {a : Action κ} {t : State κ}, Heeds s a → step max s a = some t →
    t.mCounter = s.mCounter ∨ s.pc a.actor = .releaseAdd ∧ t.mCounter = s.mCounter + 1
  acquire : ∀ {c : κ}, s.pc c = .idle → s.mMutex = none →
    ∃ t : State κ, (machine κ max startingValue).run s
        [.call c .acquire, .advance c, .advance c, .advance c, .advance c] = some t ∧
      t.pc c = .acquireReturned .shutdown ∧ t.mCounter = s.mCounter
  tryAcquire : ∀ {c : κ}, s.pc c = .idle → s.mCounter ≤ 0 →
    ∃ t : State κ, (machine κ max startingValue).run s [.call c .tryAcquire, .advance c] = some t ∧
      t.pc c = .tryReturned false ∧ t.mCounter = s.mCounter

/-- A stopped semaphore hands out no permit. -/
lemma Stopped.refuses (h : Stopped s) (hs : Sound max s) (hclosed : Closed s) {startingValue : ℤ} :
    Refuses max startingValue s := by
  refine ⟨h.waiters, ?_, ?_, ?_⟩
  · intro a t hheeds hstep
    exact (step_transition hstep).counter fun _ => not_take hs hclosed h.flag hheeds
  · intro c hc hfree
    simp [Machine.run_cons, machine, step, advance, State.lock, State.unlock, hc, hfree, h.flag]
  · intro c hc hle
    simp [Machine.run_cons, machine, step, advance, tryTest, hc, hle]

/-- In every run of a `semaphore<max>` whose steps all heed the flag, a `shutdown` that has
completed is final: from then on the semaphore hands out no permit and the counter never
decreases, and a call that is made later neither waits nor gets a permit. -/
theorem shutdown_final {startingValue : ℤ} (h0 : 0 ≤ startingValue) (hmax : startingValue ≤ max)
    (h : (machine κ max startingValue).ReachableUnder Heeds s) (hc : s.pc c = .shutdownReturned)
    (hpath : (machine κ max startingValue).Path Heeds s t) :
    Refuses max startingValue t ∧ s.mCounter ≤ t.mCounter ∧
      ∀ d, s.pc d = .idle → (t.pc d).Refused := by
  have hstopped := stopped_of_reachable h0 hmax h (c := c) (by simp [hc])
  obtain ⟨ht, hle, hlate⟩ : Stopped t ∧
      s.mCounter ≤ t.mCounter ∧ ∀ d, s.pc d = .idle → (t.pc d).Refused := by
    refine h.along (I := fun t => Stopped t ∧ s.mCounter ≤ t.mCounter ∧
      ∀ d, s.pc d = .idle → (t.pc d).Refused) hpath ?_ ?_
    · exact ⟨hstopped, le_rfl, fun d hd => by simp [hd, Pc.Refused]⟩
    · rintro t a t' hr ⟨ht, hle, hlate⟩ hheeds hstep
      have hclosed := closed_of_reachable h0 hmax hr.reachable
      have htrans := step_transition hstep
      have htake : ∀ k : Caller, t.pc a.actor ≠ .tryExchange k t.mCounter :=
        fun _ => not_take (sound_of_reachable h0 hmax hr.reachable) hclosed ht.flag hheeds
      refine ⟨ht.transition hclosed htrans, ?_, ?_⟩
      · rcases htrans.counter htake with hsame | ⟨-, hadd⟩ <;> omega
      · exact fun d hd => htrans.refused ht.flag htake (hlate d hd)
  have hr := Machine.ReachableUnder.reachable (h.trans hpath)
  exact ⟨ht.refuses (sound_of_reachable h0 hmax hr) (closed_of_reachable h0 hmax hr), hle, hlate⟩

/-- A `try_acquire` takes the only permit, an `acquire` waits, and `shutdown` wakes it. -/
def shutdownTrace : List (Action ℕ) :=
  [.call 0 .tryAcquire, .advance 0, .advance 0,
    .call 1 .acquire, .advance 1, .advance 1, .advance 1, .advance 1, .advance 1, .advance 1,
    .advance 1,
    .call 2 .shutdown, .advance 2, .advance 2, .advance 2, .advance 2, .advance 2, .advance 2,
    .advance 2]

/-- Late calls of `acquire`, `try_acquire` and `release`. -/
def lateTrace : List (Action ℕ) :=
  [.call 3 .acquire, .advance 3, .advance 3, .advance 3, .advance 3,
    .call 4 .tryAcquire, .advance 4,
    .call 5 .release, .advance 5, .advance 5, .advance 5, .advance 5, .advance 5]

/-- After the two runs above the late calls have returned without a permit, and the permit that
was given back stays. -/
theorem shutdown_final_late : ∃ s t : State ℕ,
    (machine ℕ 1 1).runUnder Heeds (start 1) shutdownTrace = some s ∧
    s.pc 2 = .shutdownReturned ∧
    (machine ℕ 1 1).runUnder Heeds s lateTrace = some t ∧
    t.pc 3 = .acquireReturned .shutdown ∧ t.pc 4 = .tryReturned false ∧ t.mCounter = 1 ∧
    Refuses 1 1 t ∧ s.mCounter ≤ t.mCounter ∧ ∀ d, s.pc d = .idle → (t.pc d).Refused := by
  have hrun := Machine.reachableUnder_of_run (M := machine ℕ 1 1) (G := Heeds)
    (l := shutdownTrace) rfl
  exact ⟨_, _, rfl, rfl, rfl, rfl, rfl, rfl,
    shutdown_final (by decide) (by decide) hrun (c := 2) rfl
      (Machine.path_of_runUnder (l := lateTrace) rfl)⟩

/-- A `shutdown` completes while there is a permit, and a `try_acquire` is called. -/
def leftoverTrace : List (Action ℕ) :=
  [.call 0 .shutdown, .advance 0, .advance 0, .advance 0, .advance 0, .advance 0, .advance 0,
    .call 1 .tryAcquire, .advance 1, .advance 1]

/-- An `acquire` waits; one `shutdown` sets the flag, and another one finds it set. -/
def hastyTrace : List (Action ℕ) :=
  [.call 0 .acquire, .advance 0, .advance 0, .advance 0, .advance 0, .advance 0, .advance 0,
    .advance 0,
    .call 1 .shutdown, .advance 1, .advance 1, .advance 1,
    .call 2 .shutdown, .advance 2]

/-- After the first run above `try_acquire` has got a permit of a semaphore that is shut down, and
after the second one a `shutdown` has completed with a waiter on the list. -/
theorem shutdown_not_final :
    (∃ s : State ℕ, (machine ℕ 1 1).run (start 1) leftoverTrace = some s ∧
      s.pc 0 = .shutdownReturned ∧ s.pc 1 = .tryReturned true ∧ s.mCounter = 0) ∧
    ∃ s : State ℕ, (machine ℕ 1 0).run (start 0) hastyTrace = some s ∧
      s.pc 2 = .shutdownReturned ∧ s.pc 0 = .suspended ∧ s.mAcquireWaiters = [0] :=
  ⟨⟨_, rfl, rfl, rfl, rfl⟩, ⟨_, rfl, rfl, rfl, rfl⟩⟩

end Libcoro.Semaphore
