import Libcoro.ConditionVariable.Waiters

/-!
# Lost wakeups

A notifier that finds the predicate of a waiter false releases the mutex first and pushes the
waiter back afterwards.  In between the waiter is on no list: a coroutine that makes the
predicate true there and awaits `notify_all` does not find it, and the waiter is left suspended
with a true predicate and nobody to wake it (`lost_wakeup`).  In runs where `notify_all` does
not read the list while such a waiter is on its way back, no wakeup is lost
(`no_lost_wakeup`).
-/

namespace Libcoro.ConditionVariable

open Foundations Function

variable {ι δ : Type*}

/-- The predicate of the current wait of `w` is true on the data. -/
@[simp] def State.Wants (s : State ι δ) (w : ι) : Prop :=
  (s.awaiter w).awaitReady s.data = true

instance (s : State ι δ) (w : ι) : Decidable (s.Wants w) :=
  inferInstanceAs (Decidable (_ = true))

/-- The awaiter that a notifier is about to push back, the mutex being released. -/
def Pc.returning : Pc ι → Option ι
  | .requeue w _ => some w
  | _ => none

/-- A change that makes the predicate of a suspended waiter true is one that its author will
notify. -/
def Disciplined (s : State ι δ) : Action ι δ → Prop
  | .write _ d owes => (∃ w, s.pc w = .waiting ∧ ¬ s.Wants w ∧
      (s.awaiter w).awaitReady d = true) → owes = true
  | _ => True

/-- `notify_all` does not read the list while an awaiter whose predicate is true is on its way
back to it. -/
def NobodyReturning (s : State ι δ) : Action ι δ → Prop
  | .advance c => s.pc c = .notifyAll → ∀ d w, (s.pc d).returning = some w → ¬ s.Wants w
  | _ => True

instance [Fintype ι] [DecidableEq ι] (s : State ι δ) (a : Action ι δ) :
    Decidable (Disciplined s a) := by
  unfold Disciplined
  split <;> infer_instance

instance [Fintype ι] [DecidableEq ι] (s : State ι δ) (a : Action ι δ) :
    Decidable (NobodyReturning s a) := by
  unfold NobodyReturning
  split <;> infer_instance

/-- A coroutine that is inside `notify_one` or `notify_all`. -/
@[simp] def Pc.Notifying : Pc ι → Prop
  | .locking (.evaluate _ _) => True
  | .notifyAll => True
  | .notifyOne => True
  | .notifying _ => True
  | .evaluating _ _ => True
  | .notReady _ _ => True
  | .requeue _ _ => True
  | _ => False

instance (p : Pc ι) : Decidable p.Notifying := by
  unfold Pc.Notifying
  split <;> infer_instance

/-- The awaiters that a notifier has popped and has still to evaluate. -/
def Pc.pending : Pc ι → List ι
  | .locking (.evaluate w ws) => w :: ws
  | .notifying ws => ws
  | .evaluating w ws => w :: ws
  | .notReady _ ws => ws
  | .requeue _ ws => ws
  | _ => []

/-- What is in hand is still to be evaluated, or was found false, or is on its way back. -/
lemma mem_inHand_cases {p : Pc ι} {w : ι} (h : w ∈ p.inHand) :
    w ∈ p.pending ∨ (∃ ws, p = .notReady w ws) ∨ p.returning = some w := by
  cases p with
  | locking k => cases k <;> simp_all [Pc.inHand, Pc.pending]
  | notReady v ws =>
    rcases List.mem_cons.mp h with rfl | hmem
    · exact Or.inr (Or.inl ⟨ws, rfl⟩)
    · exact Or.inl hmem
  | requeue v ws =>
    rcases List.mem_cons.mp h with rfl | hmem
    · exact Or.inr (Or.inr rfl)
    · exact Or.inl hmem
  | _ => simp_all [Pc.inHand, Pc.pending]

/-- Getting the mutex evaluates nothing. -/
lemma pending_locked (p : Pc ι) : p.locked.pending = p.pending := by
  cases p with
  | locking k => cases k <;> rfl
  | _ => rfl

/-- Whoever has something to evaluate is notifying. -/
lemma notifying_of_mem_pending {p : Pc ι} {w : ι} (h : w ∈ p.pending) : p.Notifying := by
  cases p with
  | locking k => cases k <;> simp_all [Pc.pending]
  | _ => simp_all [Pc.pending]

/-- A waiter that is not ready on notification has a false predicate. -/
lemma awaitReady_of_not_ready {a : Awaiter δ} {d : δ} {b : Bool} (h : a.ready d b = false) :
    a.awaitReady d = false := by
  cases a <;> simp_all [Awaiter.ready, Awaiter.awaitReady]

/-- What the owner of the mutex has found false is still false. -/
def Pc.Refused (s : State ι δ) (c : ι) : Pc ι → Prop
  | .waitPush => ¬ s.Wants c
  | .waitUnlock => ¬ s.Wants c
  | .notReady w _ => ¬ s.Wants w
  | _ => True

/-- Whoever has found something false holds the mutex. -/
lemma refused_of_not_holds {s : State ι δ} {c : ι} {p : Pc ι} (h : ¬ p.Holds) : p.Refused s c := by
  cases p <;> simp_all [Pc.Holds, Pc.Refused]

/-- The reasons why a suspended waiter with a true predicate will be looked at. -/
def State.Covered (s : State ι δ) (w : ι) : Prop :=
  (∃ c, s.owes c = true) ∨ (∃ c, s.pc c = .notifyAll) ∨ ∃ c, w ∈ (s.pc c).pending

/-- No wakeup has been lost so far. -/
structure Alert (s : State ι δ) : Prop where
  refused : ∀ c, (s.pc c).Refused s c
  covered : ∀ w, s.pc w = .waiting → s.Wants w → s.Covered w

/-- Being let in refuses nobody. -/
lemma refused_locked {s : State ι δ} {c : ι} {p : Pc ι} (h : p.Refused s c) :
    p.locked.Refused s c := by
  cases p with
  | locking k => cases k <;> trivial
  | _ => exact h

/-- A step that changes no data, no awaiter and no obligation, evaluates nobody and lets nobody
suspend with a true predicate. -/
lemma Alert.keep {s s' : State ι δ} (h : Alert s) (hdata : s'.data = s.data)
    (hawaiter : s'.awaiter = s.awaiter) (howes : s'.owes = s.owes)
    (hrefused : ∀ d, (s'.pc d).Refused s d)
    (hall : ∀ d, s.pc d = .notifyAll → s'.pc d = .notifyAll)
    (hwait : ∀ w, s'.pc w = .waiting → s.Wants w → s.pc w = .waiting)
    (hpend : ∀ w d, s.pc w = .waiting → s'.pc w = .waiting → s.Wants w → w ∈ (s.pc d).pending →
      w ∈ (s'.pc d).pending) : Alert s' := by
  have hwants : ∀ w, s'.Wants w ↔ s.Wants w := by
    intro w
    unfold State.Wants
    rw [hdata, hawaiter]
  refine ⟨fun d => ?_, fun w hw hwant => ?_⟩
  · have hd := hrefused d
    cases hpc : s'.pc d <;> simp_all [Pc.Refused]
  · have hold := hwait w hw ((hwants w).mp hwant)
    rcases h.covered w hold ((hwants w).mp hwant) with ⟨d, hd⟩ | ⟨d, hd⟩ | ⟨d, hd⟩
    · exact Or.inl ⟨d, by rw [howes, hd]⟩
    · exact Or.inr (Or.inl ⟨d, hall d hd⟩)
    · exact Or.inr (Or.inr ⟨d, hpend w d hold hw ((hwants w).mp hwant) hd⟩)

variable [DecidableEq ι]

namespace Alert

variable {s : State ι δ} {c : ι}

/-- A move of `c` alone, away from any control point but the beginning of `notify_all`. -/
lemma goto (h : Alert s) {p : Pc ι} (hc : s.pc c ≠ .notifyAll) (hp : p.Refused s c)
    (hwait : p ≠ .waiting)
    (hpend : ∀ w, s.pc w = .waiting → s.Wants w → w ∈ (s.pc c).pending → w ∈ p.pending) :
    Alert (s.goto c p) := by
  refine h.keep rfl rfl rfl (fun d => ?_) (fun d hd => ?_) (fun w hw _ => ?_)
    fun w d hw _ hwant hmem => ?_
  · by_cases hdc : d = c
    · simpa [hdc] using hp
    · simpa [hdc] using h.refused d
  · have hdc : d ≠ c := fun heq => hc (heq ▸ hd)
    simpa [hdc] using hd
  · by_cases hwc : w = c
    · exact (hwait (by simpa [hwc] using hw)).elim
    · simpa [hwc] using hw
  · by_cases hdc : d = c
    · simpa [hdc] using hpend w hw hwant (hdc ▸ hmem)
    · simpa [hdc] using hmem

/-- A call of `lock`. -/
lemma acquire (h : Alert s) {k : AfterLock ι} (hc : s.pc c ≠ .notifyAll)
    (hpend : (Pc.locking k).pending = (s.pc c).pending) : Alert (s.acquire c k) := by
  have hlocked : k.pc.pending = (s.pc c).pending := (pending_locked (.locking k)).trans hpend
  unfold State.acquire
  split
  · have hgoto := h.goto (p := k.pc) hc (by cases k <;> trivial)
      (by cases k <;> simp [AfterLock.pc]) fun w _ _ hw => by rwa [hlocked]
    exact { hgoto with }
  · have hgoto := h.goto (p := .locking k) hc trivial (by simp) fun w _ _ hw => by rwa [hpend]
    exact { hgoto with }

/-- A call of `unlock`, after which `c` goes on at `p`. -/
lemma release (h : Alert s) {p : Pc ι} (hc : s.pc c ≠ .notifyAll) (hp : ¬ p.Holds)
    (hwait : p = .waiting → ¬ s.Wants c) (hpend : p.pending = (s.pc c).pending) :
    Alert (s.release c p) := by
  obtain ⟨hpc, hother⟩ := s.release_pc c p
  refine h.keep (s.release_data c p) (s.release_awaiter c p) (s.release_owes c p) (fun d => ?_)
    (fun d hd => ?_) (fun w hw hwant => ?_) fun w d hw hw' hwant hmem => ?_
  · by_cases hdc : d = c
    · rw [hdc, hpc]
      exact refused_of_not_holds hp
    · rcases hother d hdc with heq | heq
      · rw [heq]
        exact h.refused d
      · rw [heq]
        exact refused_locked (h.refused d)
  · have hdc : d ≠ c := fun heq => hc (heq ▸ hd)
    rcases hother d hdc with heq | heq <;> rw [heq, hd]
    rfl
  · by_cases hwc : w = c
    · exact (hwait (hpc ▸ hwc ▸ hw) (hwc ▸ hwant)).elim
    · rcases hother w hwc with heq | heq
      · rwa [heq] at hw
      · rw [heq] at hw
        cases hpw : s.pc w with
        | locking k => cases k <;> simp [hpw, Pc.locked, AfterLock.pc] at hw
        | _ => simp_all [Pc.locked]
  · by_cases hdc : d = c
    · rw [hdc, hpc, hpend]
      exact hdc ▸ hmem
    · rcases hother d hdc with heq | heq
      · rwa [heq]
      · rwa [heq, pending_locked]

/-- A write by the owner of the mutex, who will notify if it makes a predicate true. -/
lemma write (h : Alert s) (hl : LockSound s) (hc : s.pc c = .holding) {d : δ} {o : Bool}
    (hdisc : Disciplined s (.write c d o)) :
    Alert { s with data := d, owes := update s.owes c (s.owes c || o) } := by
  have howes : ∀ e, s.owes e = true →
      update s.owes c (s.owes c || o) e = true := by
    intro e he
    by_cases hec : e = c
    · simp [hec, hec ▸ he]
    · simpa [hec] using he
  refine ⟨fun e => ?_, fun w hw hwant => ?_⟩
  · -- nobody else holds the mutex
    by_cases hec : e = c
    · simp [hec, hc, Pc.Refused]
    · refine refused_of_not_holds fun hholds => hec ?_
      exact HandoverLock.Governs.holds_unique hl hholds (by simp [hc, Pc.Holds])
  · by_cases hold : s.Wants w
    · rcases h.covered w hw hold with ⟨e, he⟩ | hrest
      · exact Or.inl ⟨e, howes e he⟩
      · exact Or.inr hrest
    · obtain rfl : o = true := hdisc ⟨w, hw, hold, hwant⟩
      exact Or.inl ⟨c, by simp⟩

/-- The predicate is evaluated before the coroutine suspends. -/
lemma wait (h : Alert s) (hl : LockSound s) (hc : s.pc c = .holding) (a : Awaiter δ) (b : Bool) :
    Alert (ConditionVariable.wait s c a b) := by
  have hother : ∀ w, w ≠ c → ((ConditionVariable.wait s c a b).Wants w ↔ s.Wants w) := by
    intro w hw
    simp [ConditionVariable.wait, State.goto, hw]
  refine ⟨fun e => ?_, fun w hw hwant => ?_⟩
  · by_cases hec : e = c
    · subst hec
      by_cases hready : a.awaitReady s.data = true
      · simp [ConditionVariable.wait, hready, Pc.Refused]
      · simp [ConditionVariable.wait, hready, Pc.Refused, State.goto]
    · have hnot : ¬ (s.pc e).Holds := fun hholds => hec
        (HandoverLock.Governs.holds_unique hl hholds (by simp [hc, Pc.Holds]))
      refine refused_of_not_holds ?_
      simpa [ConditionVariable.wait, hec] using hnot
  · have hwc : w ≠ c := by
      rintro rfl
      simp only [ConditionVariable.wait, State.goto_pc, update_self] at hw
      split_ifs at hw
    have hold : s.pc w = .waiting := by simpa [ConditionVariable.wait, hwc] using hw
    rcases h.covered w hold ((hother w hwc).mp hwant) with howes | ⟨e, he⟩ | ⟨e, he⟩
    · exact Or.inl howes
    · have hec : e ≠ c := by
        rintro rfl
        simp [hc] at he
      exact Or.inr (Or.inl ⟨e, by simpa [ConditionVariable.wait, hec] using he⟩)
    · have hec : e ≠ c := by
        rintro rfl
        simp [hc, Pc.pending] at he
      exact Or.inr (Or.inr ⟨e, by simpa [ConditionVariable.wait, hec] using he⟩)

/-- `notify_all` takes over every waiter that has to be looked at, unless one is on its way
back to the list. -/
lemma popAll (h : Alert s) (hw : Waiters s) (hc : s.pc c = .notifyAll)
    (hret : NobodyReturning s (.advance c)) :
    Alert { s.goto c (.notifying s.mAwaiters) with
      mAwaiters := []
      owes := update s.owes c false } := by
  refine ⟨fun e => ?_, fun w hwait hwant => ?_⟩
  · change Pc.Refused s e ((s.goto c (.notifying s.mAwaiters)).pc e)
    by_cases hec : e = c
    · simp [hec, Pc.Refused]
    · simpa [hec] using h.refused e
  · have hwc : w ≠ c := by
      rintro rfl
      simp at hwait
    have hwait' : s.pc w = .waiting := by simpa [hwc] using hwait
    have hpend : ∃ e, w ∈ ((s.goto c (.notifying s.mAwaiters)).pc e).pending := by
      rcases Parked.mem_or hw (x := w) (by simp [hwait', Pc.Parked]) with hlist | ⟨e, he⟩
      · exact ⟨c, by simpa [Pc.pending] using hlist⟩
      · have hec : e ≠ c := by
          rintro rfl
          simp [hc, Pc.inHand] at he
        rcases mem_inHand_cases he with hmem | ⟨ws, hnot⟩ | hback
        · exact ⟨e, by simpa [hec] using hmem⟩
        · have hrefused := h.refused e
          rw [hnot] at hrefused
          exact (hrefused hwant).elim
        · exact (hret hc e w hback hwant).elim
    exact Or.inr (Or.inr hpend)

/-- Every transition that keeps to the discipline loses no wakeup, unless `notify_all` reads the
list while an awaiter with a true predicate is on its way back to it. -/
lemma transition {s' : State ι δ} {a : Action ι δ} (h : Alert s) (hl : LockSound s)
    (hw : Waiters s) (hdisc : Disciplined s a) (hret : NobodyReturning s a)
    (ht : Transition s a s') : Alert s' := by
  cases ht with
  | lock hc | relock hc => exact h.acquire (by simp [hc]) (by simp [hc, Pc.pending])
  | write hc => exact h.write hl hc hdisc
  | wait hc => exact h.wait hl hc _ _
  | unlock hc
  | unlockNotReady hc => exact h.release (by simp [hc]) id (by simp) (by simp [hc, Pc.pending])
  | beginAll hc | beginOne hc | popNone hc _
  | notified hc => exact h.goto (by simp [hc]) trivial (by simp) (by simp [hc, Pc.pending])
  | requestStop => exact ⟨h.1, h.2⟩
  | @push c hc =>
    have hrefused : ¬ s.Wants c := by simpa [hc, Pc.Refused] using h.refused c
    exact { h.goto (c := c) (p := .waitUnlock) (by simp [hc]) hrefused (by simp)
      (by simp [hc, Pc.pending]) with }
  | @suspend c hc =>
    have hrefused : ¬ s.Wants c := by simpa [hc, Pc.Refused] using h.refused c
    exact h.release (by simp [hc]) id (fun _ => hrefused) (by simp [hc, Pc.pending])
  | popAll hc => exact h.popAll hw hc hret
  | @pop c w ws hc _ =>
    exact { h.goto (c := c) (p := .notifying [w]) (by simp [hc]) trivial (by simp)
      (by simp [hc, Pc.pending]) with }
  | @resume c w ws hc _ =>
    obtain ⟨hwait, hwc⟩ := hw.waiting_of_evaluating hl hc
    have hpc : (s.goto w .holding).pc c = .evaluating w ws := by simp [hwc.symm, hc]
    have hwoken : Alert (s.goto w .holding) :=
      h.goto (by simp [hwait]) trivial (by simp) (by simp [hwait, Pc.pending])
    have hgoto : Alert ((s.goto w .holding).goto c (.notifying ws)) := by
      refine hwoken.goto (by simp [hpc]) trivial (by simp) fun v hv _ hmem => ?_
      have hvw : v ≠ w := by
        rintro rfl
        simp at hv
      simpa [hpc, Pc.pending, hvw] using hmem
    exact { hgoto with }
  | @refuse c w ws hc hready =>
    have hnot : ¬ s.Wants w := by
      simp [awaitReady_of_not_ready hready]
    have hgoto : Alert (s.goto c (.notReady w ws)) := by
      refine h.goto (by simp [hc]) hnot (by simp) fun v _ hwant hmem => ?_
      have hvw : v ≠ w := by
        rintro rfl
        exact hnot hwant
      simpa [hc, Pc.pending, hvw] using hmem
    exact { hgoto with }
  | @requeue c w ws hc =>
    exact { h.goto (c := c) (p := .notifying ws) (by simp [hc]) trivial (by simp)
      (by simp [hc, Pc.pending]) with }

end Alert

/-- No wakeup is lost in a run that keeps to the discipline and in which `notify_all` never reads
the list while an awaiter with a true predicate is on its way back to it. -/
lemma alert_of_reachable {d : δ} {s : State ι δ}
    (h : (machine ι d).ReachableUnder (fun s a => Disciplined s a ∧ NobodyReturning s a) s) :
    Alert s := by
  refine h.invariant ⟨fun c => trivial, fun w hw => ?_⟩ ?_
  · simp [machine, start] at hw
  · rintro s a s' hr hs ⟨hdisc, hret⟩ hstep
    obtain ⟨hl, hw⟩ := sound_of_reachable hr.reachable
    exact hs.transition hl hw hdisc hret (step_transition hstep)

/-- Take a run in which the data is changed under the mutex only (which the model enforces), the
author of every change that makes the predicate of a suspended waiter true awaits
`notify_all` for it, and `notify_all` never reads `m_awaiters` while a notified waiter whose
predicate is true stands between the `unlock` in `on_notify` and its push back.  In every
state reached where no notify call is in progress and none is owed, no waiter that is
suspended in a wait with a predicate has a true predicate. -/
theorem no_lost_wakeup {d : δ} {s : State ι δ}
    (h : (machine ι d).ReachableUnder (fun s a => Disciplined s a ∧ NobodyReturning s a) s)
    (hnotify : ∀ c, ¬ (s.pc c).Notifying) (howes : ∀ c, s.owes c = false) {w : ι}
    {p : δ → Bool} (hw : s.pc w = .waiting)
    (hp : s.awaiter w = .withPredicate p ∨ s.awaiter w = .withPredicateStopToken p) :
    p s.data = false := by
  have hwants : s.Wants w ↔ p s.data = true := by
    rcases hp with hp | hp <;> simp [hp, Awaiter.awaitReady]
  rw [← Bool.not_eq_true, ← hwants]
  intro hwant
  rcases (alert_of_reachable h).covered w hw hwant with ⟨c, hc⟩ | ⟨c, hc⟩ | ⟨c, hc⟩
  · simp [howes c] at hc
  · exact hnotify c (by simp [hc])
  · exact hnotify c (notifying_of_mem_pending hc)

/-- Coroutine `0` waits for the number `5`; `1` writes `3` and notifies, which finds the
predicate false and pushes the waiter back. -/
def refusedTrace : List (Action (Fin 2) ℕ) :=
  [.lock 0, .wait 0 (.withPredicate (· == 5)) false, .advance 0, .advance 0, .lock 1,
    .write 1 3 true, .unlock 1, .notifyAll 1, .advance 1, .advance 1, .advance 1, .advance 1,
    .advance 1, .advance 1]

/-- After the run above the waiter is suspended and its predicate is false. -/
theorem no_lost_wakeup_refused : ∃ s : State (Fin 2) ℕ,
    (machine (Fin 2) 0).runUnder (fun s a => Disciplined s a ∧ NobodyReturning s a) (start 0)
      refusedTrace = some s ∧
    s.pc 0 = .waiting ∧ s.mAwaiters = [0] ∧ s.data = 3 ∧ (s.data == 5) = false :=
  ⟨_, rfl, rfl, rfl, rfl,
    no_lost_wakeup (Machine.reachableUnder_of_run (M := machine (Fin 2) 0) (l := refusedTrace) rfl)
      (by decide) (by decide) (w := 0) (p := (· == 5)) rfl (Or.inl rfl)⟩

/-- Coroutine `0` waits for the number `5`; `1` writes `3` and notifies.  When `1` has found the
predicate false and released the mutex, `2` writes `5` and notifies; then `1` pushes the
waiter back. -/
def lostTrace : List (Action (Fin 3) ℕ) :=
  [.lock 0, .wait 0 (.withPredicate (· == 5)) false, .advance 0, .advance 0, .lock 1,
    .write 1 3 true, .unlock 1, .notifyAll 1, .advance 1, .advance 1, .advance 1, .advance 1,
    .lock 2, .write 2 5 true, .unlock 2, .notifyAll 2, .advance 2, .advance 2, .advance 1,
    .advance 1]

/-- The run above keeps to the discipline and ends with a free mutex, no notify call in progress
or owed, and a waiter that is suspended although its predicate is true. -/
theorem lost_wakeup : ∃ s : State (Fin 3) ℕ,
    (machine (Fin 3) 0).runUnder Disciplined (start 0) lostTrace = some s ∧
    (machine (Fin 3) 0).ReachableUnder Disciplined s ∧
    s.lock = .free ∧ (∀ c, s.pc c = .idle ∨ s.pc c = .waiting) ∧ (∀ c, s.owes c = false) ∧
    s.pc 0 = .waiting ∧ s.awaiter 0 = .withPredicate (· == 5) ∧ s.data = 5 :=
  ⟨_, rfl, Machine.reachableUnder_of_run (M := machine (Fin 3) 0) (l := lostTrace) rfl, rfl,
    by decide, by decide, rfl, rfl, rfl⟩

end Libcoro.ConditionVariable
