import Libcoro.Foundations.Placement
import Libcoro.ConditionVariable.Model

/-!
# The lock and the waiters of a condition variable

What every step of the coroutines can do (`Transition`), and the two facts that hold of every
run: the mutex and the control points agree on who owns it, and every coroutine that has
queued itself on the condition variable is on `m_awaiters` or in the hands of one notifier.
-/

namespace Libcoro.ConditionVariable

open Foundations Function

variable {ι δ : Type*}

/-- The coroutines that own the mutex.  A notifier owns it while it evaluates a predicate. -/
def Pc.Holds : Pc ι → Prop
  | .holding => True
  | .waitPush => True
  | .waitUnlock => True
  | .evaluating _ _ => True
  | .notReady _ _ => True
  | _ => False

/-- The coroutines that wait for the mutex. -/
def Pc.Queued : Pc ι → Prop
  | .locking _ => True
  | _ => False

/-- The coroutines that have pushed their awaiter and have not been resumed. -/
def Pc.Parked : Pc ι → Prop
  | .waitUnlock => True
  | .waiting => True
  | _ => False

/-- The awaiters that a notifier has popped and not dealt with. -/
def Pc.inHand : Pc ι → List ι
  | .locking (.evaluate w ws) => w :: ws
  | .notifying ws => ws
  | .evaluating w ws => w :: ws
  | .notReady w ws => w :: ws
  | .requeue w ws => w :: ws
  | _ => []

/-- The move from `q` to `p` does not concern the awaiters. -/
def Pc.Neutral (q p : Pc ι) : Prop :=
  p.inHand = q.inHand ∧ (p.Parked ↔ q.Parked)

/-- Getting the mutex changes nothing for the awaiters. -/
lemma neutral_locked (p : Pc ι) : p.Neutral p.locked := by
  cases p with
  | locking k => cases k <;> exact ⟨rfl, Iff.rfl⟩
  | _ => exact ⟨rfl, Iff.rfl⟩

@[simp] lemma holds_afterLock (k : AfterLock ι) : k.pc.Holds := by
  cases k <;> trivial

@[simp] lemma not_queued_afterLock (k : AfterLock ι) : ¬ k.pc.Queued := by
  cases k <;> exact id

/-- Whoever waits for the mutex owns it once it is let in. -/
lemma Pc.Queued.holds_locked {p : Pc ι} (h : p.Queued) : p.locked.Holds ∧ ¬ p.locked.Queued := by
  cases p with
  | locking k => exact ⟨holds_afterLock k, not_queued_afterLock k⟩
  | _ => exact h.elim

/-- The mutex and the control points agree. -/
def LockSound (s : State ι δ) : Prop :=
  s.lock.Governs (fun c => (s.pc c).Holds) (fun c => (s.pc c).Queued)

/-- Every parked awaiter is on `m_awaiters` or in the hands of one notifier. -/
def Waiters (s : State ι δ) : Prop :=
  Parked Pc.inHand Pc.Parked s.mAwaiters s.pc

/-- A step that touches neither `m_awaiters` nor the awaiters in hand. -/
lemma Waiters.congr {s s' : State ι δ} (h : Waiters s) (hlist : s'.mAwaiters = s.mAwaiters)
    (hpc : ∀ d, (s.pc d).Neutral (s'.pc d)) : Waiters s' := by
  unfold Waiters
  rw [hlist]
  exact Parked.congr h hpc

/-- A parked coroutine has no awaiter in hand. -/
lemma inHand_of_parked (q : Pc ι) (hq : q.Parked) : q.inHand = [] := by
  cases q <;> simp_all [Pc.Parked, Pc.inHand]

/-- Whoever is being evaluated waits: it has released the mutex. -/
lemma Waiters.waiting_of_evaluating {s : State ι δ} (hw : Waiters s) (h : LockSound s) {c w : ι}
    {ws : List ι} (hc : s.pc c = .evaluating w ws) : s.pc w = .waiting ∧ w ≠ c := by
  have hparked : (s.pc w).Parked := by
    refine Parked.of_mem_hand hw (c := c) ?_
    simp [hc, Pc.inHand]
  have hwc : w ≠ c := by
    rintro rfl
    simp [hc, Pc.Parked] at hparked
  refine ⟨?_, hwc⟩
  cases hpw : s.pc w with
  | waiting => rfl
  | waitUnlock =>
    have hholds := HandoverLock.Governs.holds_unique h (c := w) (d := c)
      (by simp [hpw, Pc.Holds]) (by simp [hc, Pc.Holds])
    exact (hwc hholds).elim
  | _ => simp [hpw, Pc.Parked] at hparked

/-! ## The transitions -/

variable [DecidableEq ι]

/-- What one step of the system can do. -/
inductive Transition (s : State ι δ) : Action ι δ → State ι δ → Prop
  | lock {c : ι} : s.pc c = .idle → Transition s (.lock c) (s.acquire c .user)
  | write {c : ι} {d : δ} {o : Bool} : s.pc c = .holding →
      Transition s (.write c d o)
        { s with data := d, owes := update s.owes c (s.owes c || o) }
  | wait {c : ι} {a : Awaiter δ} {b : Bool} : s.pc c = .holding →
      Transition s (.wait c a b) (wait s c a b)
  | unlock {c : ι} : s.pc c = .holding → Transition s (.unlock c) (s.release c .idle)
  | beginAll {c : ι} : s.pc c = .idle → Transition s (.notifyAll c) (s.goto c .notifyAll)
  | beginOne {c : ι} : s.pc c = .idle → Transition s (.notifyOne c) (s.goto c .notifyOne)
  | requestStop {c : ι} :
      Transition s (.requestStop c)
        { s with stopRequested := update s.stopRequested c true }
  | push {c : ι} : s.pc c = .waitPush →
      Transition s (.advance c) { s.goto c .waitUnlock with mAwaiters := c :: s.mAwaiters }
  | suspend {c : ι} : s.pc c = .waitUnlock → Transition s (.advance c) (s.release c .waiting)
  | popAll {c : ι} : s.pc c = .notifyAll →
      Transition s (.advance c)
        { s.goto c (.notifying s.mAwaiters) with
          mAwaiters := []
          owes := update s.owes c false }
  | popNone {c : ι} : s.pc c = .notifyOne → s.mAwaiters = [] →
      Transition s (.advance c) (s.goto c .idle)
  | pop {c w : ι} {ws : List ι} : s.pc c = .notifyOne → s.mAwaiters = w :: ws →
      Transition s (.advance c) { s.goto c (.notifying [w]) with mAwaiters := ws }
  | notified {c : ι} : s.pc c = .notifying [] → Transition s (.advance c) (s.goto c .idle)
  | relock {c w : ι} {ws : List ι} : s.pc c = .notifying (w :: ws) →
      Transition s (.advance c) (s.acquire c (.evaluate w ws))
  | resume {c w : ι} {ws : List ι} : s.pc c = .evaluating w ws →
      (s.awaiter w).ready s.data (s.stopRequested w) = true →
      Transition s (.advance c)
        { (s.goto w .holding).goto c (.notifying ws) with
          lock := .held w s.lock.waiting
          mPredicateResult := update s.mPredicateResult w
            ((s.awaiter w).predicateResult s.data (s.mPredicateResult w)) }
  | refuse {c w : ι} {ws : List ι} : s.pc c = .evaluating w ws →
      (s.awaiter w).ready s.data (s.stopRequested w) = false →
      Transition s (.advance c)
        { s.goto c (.notReady w ws) with
          mPredicateResult := update s.mPredicateResult w
            ((s.awaiter w).predicateResult s.data (s.mPredicateResult w)) }
  | unlockNotReady {c w : ι} {ws : List ι} : s.pc c = .notReady w ws →
      Transition s (.advance c) (s.release c (.requeue w ws))
  | requeue {c w : ι} {ws : List ι} : s.pc c = .requeue w ws →
      Transition s (.advance c) { s.goto c (.notifying ws) with mAwaiters := w :: s.mAwaiters }

/-- Every step of a coroutine inside the library is one of the listed transitions. -/
lemma advance_transition {s s' : State ι δ} {c : ι} (h : advance s c = some s') :
    Transition s (.advance c) s' := by
  unfold advance at h
  split at h <;> rename_i hc
  · cases h
    exact .push hc
  · cases h
    exact .suspend hc
  · cases h
    exact .popAll hc
  · split at h
    · cases h
      exact .popNone hc ‹_›
    · cases h
      exact .pop hc ‹_›
  · cases h
    exact .notified hc
  · cases h
    exact .relock hc
  · cases h
    unfold onNotify
    cases hr : (s.awaiter _).ready s.data (s.stopRequested _) with
    | true => exact .resume hc hr
    | false => exact .refuse hc hr
  · cases h
    exact .unlockNotReady hc
  · cases h
    exact .requeue hc
  all_goals cases h

/-- Every step of the system is one of the listed transitions. -/
theorem step_transition {s s' : State ι δ} {a : Action ι δ} (h : step s a = some s') :
    Transition s a s' := by
  cases a with
  | requestStop c =>
    cases h
    exact .requestStop
  | advance c => exact advance_transition h
  | lock c =>
    obtain ⟨hc, rfl⟩ : s.pc c = .idle ∧ s.acquire c .user = s' := by simpa [step] using h
    exact .lock hc
  | write c d o =>
    obtain ⟨hc, rfl⟩ : s.pc c = .holding ∧ _ = s' := by simpa [step] using h
    exact .write hc
  | wait c a b =>
    obtain ⟨hc, rfl⟩ : s.pc c = .holding ∧ wait s c a b = s' := by simpa [step] using h
    exact .wait hc
  | unlock c =>
    obtain ⟨hc, rfl⟩ : s.pc c = .holding ∧ s.release c .idle = s' := by simpa [step] using h
    exact .unlock hc
  | notifyAll c =>
    obtain ⟨hc, rfl⟩ : s.pc c = .idle ∧ s.goto c .notifyAll = s' := by simpa [step] using h
    exact .beginAll hc
  | notifyOne c =>
    obtain ⟨hc, rfl⟩ : s.pc c = .idle ∧ s.goto c .notifyOne = s' := by simpa [step] using h
    exact .beginOne hc

/-! ## The mutex -/

section Fields

variable (s : State ι δ) (c : ι) (k : AfterLock ι) (p : Pc ι)

@[simp] lemma State.goto_pc : (s.goto c p).pc = update s.pc c p := rfl

/-- A call of `lock` moves nobody but its caller. -/
lemma State.acquire_pc : ∃ q, (q = k.pc ∨ q = .locking k) ∧
    (s.acquire c k).pc = update s.pc c q := by
  unfold State.acquire
  split
  · exact ⟨k.pc, Or.inl rfl, rfl⟩
  · exact ⟨.locking k, Or.inr rfl, rfl⟩

/-- A call of `unlock` moves its caller, and the others at most by letting them in. -/
lemma State.release_pc : (s.release c p).pc c = p ∧
    ∀ d, d ≠ c → (s.release c p).pc d = s.pc d ∨ (s.release c p).pc d = (s.pc d).locked := by
  unfold State.release
  split
  · rename_i o w ws _
    refine ⟨by simp, fun d hd => ?_⟩
    by_cases hdw : d = w
    · exact Or.inr (by simp [hdw ▸ hd, hdw])
    · exact Or.inl (by simp [hd, hdw])
  · exact ⟨by simp, fun d hd => Or.inl (by simp [hd])⟩

@[simp] lemma State.acquire_mAwaiters : (s.acquire c k).mAwaiters = s.mAwaiters := by
  unfold State.acquire
  split <;> rfl

@[simp] lemma State.release_mAwaiters : (s.release c p).mAwaiters = s.mAwaiters := by
  unfold State.release
  split <;> rfl

@[simp] lemma State.release_data : (s.release c p).data = s.data := by
  unfold State.release
  split <;> rfl

@[simp] lemma State.release_awaiter : (s.release c p).awaiter = s.awaiter := by
  unfold State.release
  split <;> rfl

@[simp] lemma State.release_owes : (s.release c p).owes = s.owes := by
  unfold State.release
  split <;> rfl

end Fields

namespace LockSound

variable {s : State ι δ} {c w : ι} {p : Pc ι}

/-- A move of `c` that does not touch the mutex. -/
lemma goto (h : LockSound s) (hholds : p.Holds ↔ (s.pc c).Holds)
    (hqueued : p.Queued ↔ (s.pc c).Queued) : LockSound (s.goto c p) := by
  refine HandoverLock.Governs.congr h (fun d => ?_) fun d => ?_
  · by_cases hd : d = c
    · simp [hd, hholds]
    · simp [hd]
  · by_cases hd : d = c
    · simp [hd, hqueued]
    · simp [hd]

/-- A call of `lock`. -/
lemma acquire (h : LockSound s) (k : AfterLock ι) (hholds : ¬ (s.pc c).Holds)
    (hqueued : ¬ (s.pc c).Queued) : LockSound (s.acquire c k) := by
  unfold State.acquire
  split <;> rename_i hlock
  · unfold LockSound at h
    rw [hlock] at h
    refine HandoverLock.Governs.acquire h (fun d => ?_) fun d => ?_
    · by_cases hd : d = c
      · simp [hd]
      · simp [hd]
    · by_cases hd : d = c
      · simp [hd, hqueued]
      · simp [hd]
  · unfold LockSound at h
    rw [hlock] at h
    refine HandoverLock.Governs.enqueue h hqueued (fun d => ?_) fun d => ?_
    · by_cases hd : d = c
      · simp only [hd, State.goto_pc, update_self]
        exact iff_of_false id hholds
      · simp [hd]
    · by_cases hd : d = c
      · simp [hd, Pc.Queued]
      · simp [hd]

/-- A call of `unlock` by the owner. -/
lemma release (h : LockSound s) (hc : (s.pc c).Holds) (hholds : ¬ p.Holds)
    (hqueued : ¬ p.Queued) : LockSound (s.release c p) := by
  obtain ⟨ws, hlock⟩ := HandoverLock.Governs.eq_held h hc
  have hcq : ¬ (s.pc c).Queued := by
    cases hpc : s.pc c <;> simp_all [Pc.Holds, Pc.Queued]
  unfold State.release
  unfold LockSound at h
  rw [hlock] at h ⊢
  cases ws with
  | nil =>
    refine HandoverLock.Governs.release h (fun d => ?_) fun d => ?_
    · by_cases hd : d = c
      · simp [hd, hholds]
      · simp [hd]
    · by_cases hd : d = c
      · simp [hd, hqueued, hcq]
      · simp [hd]
  | cons w ws =>
    have hw : (s.pc w).Queued := (h.mem_waiting w).mp List.mem_cons_self
    have hwc : w ≠ c := fun heq => hcq (heq ▸ hw)
    refine HandoverLock.Governs.handover h (fun d => ?_) fun d => ?_
    · by_cases hd : d = c
      · simp [hd, hholds, hwc.symm]
      · by_cases hdw : d = w
        · simp [hdw, hwc, hw.holds_locked.1]
        · simp only [hd, hdw, State.goto_pc, ne_eq, not_false_eq_true, update_of_ne,
            iff_false]
          exact fun hdh => hd (h.holds_unique hdh hc)
    · by_cases hd : d = c
      · simp [hd, hqueued, hcq]
      · by_cases hdw : d = w
        · simp [hdw, hwc, hw.holds_locked.2]
        · simp [hd, hdw]

end LockSound

/-- Every transition keeps the mutex and the control points in agreement. -/
lemma LockSound.transition {s s' : State ι δ} {a : Action ι δ} (h : LockSound s)
    (hw : Waiters s) (ht : Transition s a s') : LockSound s' := by
  cases ht with
  | lock hc => exact h.acquire .user (by simp [hc, Pc.Holds]) (by simp [hc, Pc.Queued])
  | write hc | requestStop => exact ⟨h.1, h.2, h.3⟩
  | @wait c a b hc =>
    exact { h.goto (c := c) (p := if a.awaitReady s.data then .holding else .waitPush)
      (by split_ifs <;> simp [hc, Pc.Holds]) (by split_ifs <;> simp [hc, Pc.Queued]) with }
  | unlock hc | suspend hc | unlockNotReady hc => exact h.release (by simp [hc, Pc.Holds]) id id
  | beginAll hc | beginOne hc | popNone hc _
  | notified hc => exact h.goto (by simp [hc, Pc.Holds]) (by simp [hc, Pc.Queued])
  | @push c hc =>
    exact { h.goto (c := c) (p := .waitUnlock) (by simp [hc, Pc.Holds])
      (by simp [hc, Pc.Queued]) with }
  | @popAll c hc =>
    exact { h.goto (c := c) (p := .notifying s.mAwaiters) (by simp [hc, Pc.Holds])
      (by simp [hc, Pc.Queued]) with }
  | @pop c w ws hc _ =>
    exact { h.goto (c := c) (p := .notifying [w]) (by simp [hc, Pc.Holds])
      (by simp [hc, Pc.Queued]) with }
  | relock hc => exact h.acquire _ (by simp [hc, Pc.Holds]) (by simp [hc, Pc.Queued])
  | @resume c w ws hc _ =>
    obtain ⟨hwait, hwc⟩ := hw.waiting_of_evaluating h hc
    have hholds : (s.pc c).Holds := by simp [hc, Pc.Holds]
    obtain ⟨ls, hlock⟩ := HandoverLock.Governs.eq_held h hholds
    have hwaiting : s.lock.waiting = ls := by
      rw [hlock]
      rfl
    unfold LockSound at h
    rw [hlock, ← hwaiting] at h
    refine HandoverLock.Governs.pass h (fun d => ?_) fun d => ?_
    · by_cases hd : d = c
      · simp [hd, hwc.symm, Pc.Holds]
      · by_cases hdw : d = w
        · simp [hdw, hwc, Pc.Holds]
        · simp only [hd, hdw, State.goto_pc, ne_eq, not_false_eq_true, update_of_ne,
            iff_false]
          exact fun hdh => hd (h.holds_unique hdh hholds)
    · by_cases hd : d = c
      · simp [hd, hc, Pc.Queued]
      · by_cases hdw : d = w
        · simp [hdw, hwc, hwait, Pc.Queued]
        · simp [hd, hdw]
  | @refuse c w ws hc _ =>
    exact { h.goto (c := c) (p := .notReady w ws) (by simp [hc, Pc.Holds])
      (by simp [hc, Pc.Queued]) with }
  | @requeue c w ws hc =>
    exact { h.goto (c := c) (p := .notifying ws) (by simp [hc, Pc.Holds])
      (by simp [hc, Pc.Queued]) with }

/-- A call of `lock` does not concern the awaiters. -/
lemma State.acquire_neutral {s : State ι δ} {c : ι} {k : AfterLock ι}
    (hk : (s.pc c).Neutral (.locking k)) (d : ι) :
    (s.pc d).Neutral ((s.acquire c k).pc d) := by
  obtain ⟨q, hq, hpc⟩ := s.acquire_pc c k
  rw [hpc]
  refine (forall_update_iff s.pc fun d q => (s.pc d).Neutral q).mpr ⟨?_, ?_⟩ d
  · rcases hq with rfl | rfl
    · have hlocked := neutral_locked (.locking k)
      exact ⟨hlocked.1.trans hk.1, hlocked.2.trans hk.2⟩
    · exact hk
  · exact fun d _ => ⟨rfl, Iff.rfl⟩

/-- A call of `unlock` does not concern the awaiters. -/
lemma State.release_neutral {s : State ι δ} {c : ι} {p : Pc ι} (hp : (s.pc c).Neutral p) (d : ι) :
    (s.pc d).Neutral ((s.release c p).pc d) := by
  obtain ⟨hc, hother⟩ := s.release_pc c p
  by_cases hd : d = c
  · rw [hd, hc]
    exact hp
  · rcases hother d hd with heq | heq
    · rw [heq]
      exact ⟨rfl, Iff.rfl⟩
    · rw [heq]
      exact neutral_locked (s.pc d)

namespace Waiters

variable {s s' : State ι δ} {c : ι} {p : Pc ι}

/-- A move of `c` that does not concern the awaiters. -/
lemma goto (h : Waiters s) (hp : (s.pc c).Neutral p) : Waiters (s.goto c p) :=
  h.congr rfl ((forall_update_iff s.pc fun d q => (s.pc d).Neutral q).mpr
    ⟨hp, fun _ _ => ⟨rfl, Iff.rfl⟩⟩)

/-- Every transition keeps every parked awaiter in exactly one place. -/
lemma transition {a : Action ι δ} (h : Waiters s) (ht : Transition s a s') : Waiters s' := by
  cases ht with
  | lock hc | relock hc =>
    refine h.congr (s.acquire_mAwaiters _ _) (State.acquire_neutral ?_)
    simp [hc, Pc.Neutral, Pc.inHand, Pc.Parked]
  | write hc | requestStop => exact h
  | wait hc =>
    refine h.goto ?_
    split_ifs <;> simp [hc, Pc.Neutral, Pc.inHand, Pc.Parked]
  | unlock hc | suspend hc | unlockNotReady hc =>
    refine h.congr (s.release_mAwaiters _ _) (State.release_neutral ?_)
    simp [hc, Pc.Neutral, Pc.inHand, Pc.Parked]
  | beginAll hc | beginOne hc | popNone hc _ | notified hc
  | refuse hc _ => exact h.goto (by simp [hc, Pc.Neutral, Pc.inHand, Pc.Parked])
  | push hc => exact Parked.park h (by simp [hc, Pc.Parked]) trivial (by simp [hc, Pc.inHand])
  | popAll hc =>
    exact Parked.exchange h (by simp [hc, Pc.inHand]) (by simp [hc, Pc.Parked])
  | @pop c w ws hc hlist =>
    exact Parked.exchange h (by simp [hc, hlist, Pc.inHand]) (by simp [hc, Pc.Parked])
  | resume hc _ =>
    exact Parked.wake h inHand_of_parked (by simp [hc, Pc.inHand]) id id rfl
  | @requeue c w ws hc =>
    refine Parked.exchange h ?_ (by simp [hc, Pc.Parked])
    rw [hc]
    exact List.perm_middle.symm

end Waiters

/-- In every reachable state the mutex agrees with the control points and every parked awaiter
is in exactly one place. -/
theorem sound_of_reachable {d : δ} {s : State ι δ} (h : (machine ι d).Reachable s) :
    LockSound s ∧ Waiters s := by
  refine h.invariant (I := fun s => LockSound s ∧ Waiters s) ⟨?_, ?_⟩ ?_
  · refine ⟨fun c => ?_, List.nodup_nil, fun c => ?_⟩
    · simp [machine, start, Pc.Holds]
    · simp [machine, start, Pc.Queued]
  · exact Parked.nil rfl id
  · rintro s a s' - ⟨hl, hw⟩ hstep
    have ht := step_transition hstep
    exact ⟨hl.transition hw ht, hw.transition ht⟩

end Libcoro.ConditionVariable
