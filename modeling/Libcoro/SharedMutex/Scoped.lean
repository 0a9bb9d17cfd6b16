import Libcoro.SharedMutex.Exclusion

/-!
# The scoped versions of the lock

`scoped_lock` and `scoped_lock_shared` lock the mutex, await the task of the caller and unlock the
mutex again.  The unlocking is a statement after the `co_await` of the task, not a destructor: an
exception of the task leaves the body at the `co_await`, with the lock held.  The users of the
machine below use the mutex in this way only.  A task that suspends takes no step.
-/

namespace Libcoro.SharedMutex.Scoped

open Foundations Function

/-- How the scoped task of a call has ended. -/
inductive Exit where
  | normal
  | exception
  deriving DecidableEq, Repr

/-- A shared mutex and the scoped calls. -/
structure State (κ : Type*) where
  mutex : SharedMutex.State κ
  exit : κ → Option Exit

/-- A call of `scoped_lock` or `scoped_lock_shared`; the end of its task, by which it goes on with
`unlock` or `unlock_shared`, or with nothing; a step of the mutex or of its executor. -/
inductive Action (κ : Type*) where
  | scopedLock (c : κ)
  | scopedLockShared (c : κ)
  | taskReturns (c : κ)
  | taskThrows (c : κ)
  | execute (w : κ)
  | advance (c : κ) (rounds : ℕ)
  deriving DecidableEq, Repr

variable {κ : Type*} [DecidableEq κ]

/-- A step of the mutex. -/
def State.withMutex (s : State κ) (a : SharedMutex.Action κ) : Option (State κ) :=
  (SharedMutex.step s.mutex a).map fun m => { s with mutex := m }

/-- The end of the task of `c`. -/
def State.setExit (s : State κ) (c : κ) (e : Exit) : State κ :=
  { s with exit := update s.exit c (some e) }

/-- `c` runs its task, which has not ended. -/
def State.inTask (s : State κ) (c : κ) : Bool :=
  match s.mutex.pc c, s.exit c with
  | .holding _, none => true
  | _, _ => false

/-- One step of the system. -/
def step (s : State κ) : Action κ → Option (State κ)
  | .scopedLock c => s.withMutex (.call c .lock)
  | .scopedLockShared c => s.withMutex (.call c .lockShared)
  | .taskReturns c => if s.inTask c then (s.setExit c .normal).withMutex (.unlock c) else none
  | .taskThrows c => if s.inTask c then some (s.setExit c .exception) else none
  | .execute w => s.withMutex (.execute w)
  | .advance c rounds => s.withMutex (.advance c rounds)

/-- The mutex and its scoped users as a machine. -/
def machine (κ : Type*) [DecidableEq κ] : Machine (State κ) (Action κ) where
  start := { mutex := SharedMutex.start, exit := fun _ => none }
  step := step

/-- The call `c` has completed, normally or with the exception of its task. -/
def State.Completed (s : State κ) (c : κ) : Prop :=
  s.mutex.pc c = .released ∨ s.exit c = some .exception

/-- No task throws. -/
def TasksReturn (_ : State κ) : Action κ → Prop
  | .taskThrows _ => False
  | _ => True

instance (s : State κ) (a : Action κ) : Decidable (TasksReturn s a) := by
  unfold TasksReturn
  split <;> infer_instance

/-! ## What a holder can rely on -/

omit [DecidableEq κ] in
/-- Taking the lock directly moves nobody. -/
lemma tryMode_pc {s t : SharedMutex.State κ} {e : Bool} (h : tryMode s e = (true, t)) :
    t.pc = s.pc := by
  rcases tryMode_true h with ⟨-, -, rfl⟩ | ⟨-, -, rfl⟩ | ⟨-, -, -, rfl⟩ <;> rfl

omit [DecidableEq κ] in
/-- A holder is a shared or an exclusive one. -/
lemma not_vacant {p : Pc κ} {e : Bool} (hp : p = .holding e) : ¬ (¬ p.Shares ∧ ¬ p.Owns) := by
  subst hp
  cases e <;> simp [Pc.Shares, Pc.Owns]

/-- A holder stays one until it unlocks the mutex. -/
lemma holding_of_transition {s t : SharedMutex.State κ} {q : List κ} {a : SharedMutex.Action κ}
    {d : κ} {e : Bool} (ht : Transition s a t) (h : Books s q) (hm : Moded s q)
    (hd : s.pc d = .holding e) (ha : a ≠ .unlock d) : t.pc d = .holding e := by
  have hmoved : ∀ {c : κ} {p : Pc κ}, s.pc c ≠ .holding e →
      update s.pc c p d = .holding e := by
    intro c p hc
    rw [update_of_ne (by rintro rfl; exact hc hd)]
    exact hd
  cases ht with
  | call hc | busy hc | lockSuspend hc _ | tryRefused hc _
  | unlockOther hc _ => exact hmoved (by simp [hc])
  | @beginUnlock c e' hc =>
    have hdc : d ≠ c := by
      rintro rfl
      exact ha rfl
    exact (update_of_ne hdc _ _).trans hd
  | @execute w hw =>
    have hgranted := Parked.of_mem_list h.handled.handles hw
    refine hmoved fun hw => ?_
    simp [hw, Pc.Granted] at hgranted
  | lockDirect hc htry | tryDirect hc htry =>
    change update _ _ _ d = _
    rw [tryMode_pc htry]
    exact hmoved (by simp [hc])
  | unlockLast hc hone _ =>
    -- whoever wakes the waiters was the last holder
    exact (not_vacant (hmoved (by simp [hc])) (h.vacant_of_last hm hc hone d)).elim
  | unlock hc _ =>
    exact (not_vacant (hmoved (by simp [hc])) (hm.vacant_of_exclusive hc d)).elim
  | @resume c w n hc =>
    have hmem : w ∈ (s.pc c).inHand := by simp [hc, Pc.inHand]
    have hgranted := Parked.of_mem_hand h.handled.handles hmem
    have hdc : d ≠ c := by
      rintro rfl
      simp [hc] at hd
    refine (update_of_ne hdc _ _).trans (hmoved fun hw => ?_)
    simp [hw, Pc.Granted] at hgranted

/-! ## The scoped calls -/

variable {s t : State κ}

/-- A step of the system is a step of the mutex that ends no task, the normal end of a task with
the first step of the unlocking, or the exception of a task. -/
lemma step_cases {a : Action κ} (h : step s a = some t) :
    (∃ b, SharedMutex.step s.mutex b = some t.mutex ∧ (∀ d, b ≠ .unlock d) ∧ t.exit = s.exit) ∨
    (∃ c, SharedMutex.step s.mutex (.unlock c) = some t.mutex ∧ s.exit c = none ∧
      t.exit = update s.exit c (some .normal)) ∨
    ∃ c e, a = .taskThrows c ∧ s.mutex.pc c = .holding e ∧ t = s.setExit c .exception := by
  have hmutex : ∀ {b : SharedMutex.Action κ}, (∀ d, b ≠ .unlock d) → s.withMutex b = some t →
      ∃ b, SharedMutex.step s.mutex b = some t.mutex ∧ (∀ d, b ≠ .unlock d) ∧
        t.exit = s.exit := by
    intro b hb hstep
    obtain ⟨m, hm, rfl⟩ := Option.map_eq_some_iff.mp hstep
    exact ⟨b, hm, hb, rfl⟩
  have htask : ∀ {c : κ}, s.inTask c → (∃ e, s.mutex.pc c = .holding e) ∧ s.exit c = none := by
    intro c hc
    unfold State.inTask at hc
    split at hc
    · exact ⟨⟨_, ‹_›⟩, ‹_›⟩
    · simp at hc
  cases a with
  | scopedLock c | scopedLockShared c | execute w
  | advance c rounds => exact Or.inl (hmutex (by simp) h)
  | taskReturns c =>
    simp only [step] at h
    split_ifs at h with hc
    obtain ⟨m, hm, rfl⟩ := Option.map_eq_some_iff.mp h
    exact Or.inr (Or.inl ⟨c, hm, (htask hc).2, rfl⟩)
  | taskThrows c =>
    simp only [step] at h
    split_ifs at h with hc
    obtain ⟨⟨e, he⟩, -⟩ := htask hc
    exact Or.inr (Or.inr ⟨c, e, rfl, he, (Option.some.inj h).symm⟩)

/-- The mutex of the system goes through a run of its own. -/
lemma mutex_reachable {G : State κ → Action κ → Prop} (h : (machine κ).ReachableUnder G s) :
    (SharedMutex.machine κ).Reachable s.mutex := by
  refine h.invariant (I := fun s => (SharedMutex.machine κ).Reachable s.mutex) .start ?_
  intro s a t _ hs _ hstep
  rcases step_cases hstep with ⟨b, hb, -⟩ | ⟨c, hc, -⟩ | ⟨c, e, -, -, rfl⟩
  · exact hs.tail hb
  · exact hs.tail (a := .unlock c) hc
  · exact hs

/-- A call whose task has thrown holds the lock for good, so the mutex is never unlocked again. -/
theorem locked_of_exception (h : (machine κ).Reachable s) {c : κ}
    (hc : s.exit c = some .exception) :
    (∃ e, s.mutex.pc c = .holding e) ∧ s.mutex.mState ≠ .unlocked := by
  have hholding : ∀ d, s.exit d = some .exception → ∃ e, s.mutex.pc d = .holding e := by
    refine h.invariant
      (I := fun s => ∀ d, s.exit d = some .exception → ∃ e, s.mutex.pc d = .holding e) nofun ?_
    intro s a t hr hs hstep d hd
    obtain ⟨q, hbooks, hmoded⟩ := books_of_reachable (mutex_reachable hr)
    rcases step_cases hstep with ⟨b, hb, hne, hexit⟩ | ⟨c, hb, hnone, hexit⟩ | ⟨c, e, -, he, rfl⟩
    · obtain ⟨e, he⟩ := hs d (hexit ▸ hd)
      exact ⟨e, holding_of_transition (step_transition hb) hbooks hmoded he (hne d)⟩
    · have hdc : d ≠ c := by
        rintro rfl
        simp [hexit] at hd
      rw [hexit, update_of_ne hdc] at hd
      obtain ⟨e, he⟩ := hs d hd
      refine ⟨e, holding_of_transition (step_transition hb) hbooks hmoded he ?_⟩
      rintro ⟨⟩
      exact hdc rfl
    · rcases eq_or_ne d c with rfl | hdc
      · exact ⟨e, he⟩
      · exact hs d (by simpa [State.setExit, hdc] using hd)
  obtain ⟨e, he⟩ := hholding c hc
  refine ⟨⟨e, he⟩, fun hun => ?_⟩
  obtain ⟨q, -, hmoded⟩ := books_of_reachable (mutex_reachable h)
  rw [Moded, hun] at hmoded
  exact not_vacant he (hmoded.2 c)

/-- The task of a reader throws. -/
theorem locked_of_exception_reader : ∃ s : State (Fin 1),
    (machine (Fin 1)).run (machine (Fin 1)).start
      [.scopedLockShared 0, .advance 0 0, .taskThrows 0] = some s ∧ s.mutex.mState ≠ .unlocked :=
  ⟨_, rfl, (locked_of_exception (c := 0) (Machine.reachable_of_run (M := machine (Fin 1))
    (l := [.scopedLockShared 0, .advance 0 0, .taskThrows 0]) rfl) rfl).2⟩

/-- No task has thrown in a run in which all tasks return. -/
lemma exit_ne_exception (h : (machine κ).ReachableUnder TasksReturn s) (c : κ) :
    s.exit c ≠ some .exception := by
  refine h.invariant (I := fun s => ∀ c, s.exit c ≠ some .exception) nofun ?_ c
  intro s a t _ hs hguard hstep d
  rcases step_cases hstep with ⟨b, -, -, hexit⟩ | ⟨c, -, -, hexit⟩ | ⟨c, e, rfl, -⟩
  · rw [hexit]
    exact hs d
  · rw [hexit]
    rcases eq_or_ne d c with rfl | hdc
    · simp
    · simpa [hdc] using hs d
  · exact hguard.elim

/-- In every run in which all tasks return: when every scoped call has completed, the mutex is
unlocked, has no shared users and no waiters. -/
theorem scoped_releases (h : (machine κ).ReachableUnder TasksReturn s)
    (hdone : ∀ c, s.mutex.pc c = .idle ∨ s.Completed c) :
    s.mutex.mState = .unlocked ∧ s.mutex.mSharedUsers = 0 ∧ s.mutex.waiters.head = none ∧
      s.mutex.waiters.tail = none ∧ ∀ c, s.mutex.pc c ≠ .suspended := by
  have hpc : ∀ c, s.mutex.pc c = .idle ∨ s.mutex.pc c = .released := by
    intro c
    rcases hdone c with hc | hc | hc
    · exact Or.inl hc
    · exact Or.inr hc
    · exact (exit_ne_exception h c hc).elim
  have hvacant : ∀ c, ¬ (s.mutex.pc c).Shares ∧ ¬ (s.mutex.pc c).Owns := by
    intro c
    rcases hpc c with hc | hc <;> simp [hc, Pc.Shares, Pc.Owns]
  obtain ⟨q, hbooks, hmoded⟩ := books_of_reachable (mutex_reachable h)
  have hun : s.mutex.mState = .unlocked := by
    unfold Moded at hmoded
    cases hm : s.mutex.mState with
    | unlocked => rfl
    | lockedShared =>
      rw [hm] at hmoded
      obtain ⟨c, hc⟩ := hmoded.1
      exact ((hvacant c).1 hc).elim
    | lockedExclusive =>
      rw [hm] at hmoded
      obtain ⟨⟨c, hc, -⟩, -⟩ := hmoded
      exact ((hvacant c).2 hc).elim
  have husers : s.mutex.mSharedUsers = 0 := by
    have hempty : {c | (s.mutex.pc c).Shares} = ∅ :=
      Set.eq_empty_of_forall_notMem fun c => (hvacant c).1
    have hcard := hbooks.counted
    rw [Counted, hempty, Set.encard_empty] at hcard
    exact_mod_cast hcard.symm
  rw [Moded, hun] at hmoded
  obtain ⟨rfl, -⟩ := hmoded
  refine ⟨hun, husers, hbooks.lined.holds.head_eq, hbooks.lined.holds.tail_eq, fun c hc => ?_⟩
  rcases hpc c with hc' | hc' <;> simp [hc'] at hc

/-- A reader waits for a writer and is let in when the task of the writer returns. -/
def returningTrace : List (Action (Fin 2)) :=
  [.scopedLock 0, .advance 0 0, .scopedLockShared 1, .advance 1 0, .taskReturns 0, .advance 0 2,
    .execute 1, .taskReturns 1, .advance 1 0]

/-- After the run above both calls have completed and the mutex is unlocked. -/
theorem scoped_releases_returning : ∃ s : State (Fin 2),
    (machine (Fin 2)).runUnder TasksReturn (machine (Fin 2)).start returningTrace = some s ∧
    (∀ c, s.Completed c) ∧ s.mutex.mState = .unlocked ∧ s.mutex.mSharedUsers = 0 := by
  have hrun : ∃ s : State (Fin 2),
      (machine (Fin 2)).runUnder TasksReturn (machine (Fin 2)).start returningTrace = some s ∧
      s.mutex.pc 0 = .released ∧ s.mutex.pc 1 = .released :=
    ⟨_, rfl, rfl, rfl⟩
  obtain ⟨s, hs, h0, h1⟩ := hrun
  have hdone : ∀ c, s.Completed c := Fin.forall_fin_two.mpr ⟨Or.inl h0, Or.inl h1⟩
  obtain ⟨hun, husers, -⟩ := scoped_releases (Machine.reachableUnder_of_run hs)
    fun c => Or.inr (hdone c)
  exact ⟨s, hs, hdone, hun, husers⟩

/-- The task of the only call throws, under `scoped_lock` and under `scoped_lock_shared`: the call
has completed, and the mutex stays locked. -/
theorem exception_leaks : ∃ s t : State (Fin 1),
    (machine (Fin 1)).run (machine (Fin 1)).start
      [.scopedLock 0, .advance 0 0, .taskThrows 0] = some s ∧
    (machine (Fin 1)).run (machine (Fin 1)).start
      [.scopedLockShared 0, .advance 0 0, .taskThrows 0] = some t ∧
    (∀ c, s.Completed c) ∧ s.mutex.mState = .lockedExclusive ∧
    (∀ c, t.Completed c) ∧ t.mutex.mState = .lockedShared ∧ t.mutex.mSharedUsers = 1 :=
  ⟨_, _, rfl, rfl, Fin.forall_fin_one.mpr (Or.inr rfl), rfl,
    Fin.forall_fin_one.mpr (Or.inr rfl), rfl, rfl⟩

end Libcoro.SharedMutex.Scoped
