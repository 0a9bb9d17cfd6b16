import Libcoro.Scheduler.TimedEvents

/-!
# The timer is armed for the earliest event

`process_timeout_execute` reads the earliest entry and sets the timer without holding
`m_timed_events_mutex`.  A worker that adds a new earliest entry and arms the timer between the
two steps has its arming overwritten by the stale one, and the timer may end up disarmed
although an entry waits for it.  And the timer is late by the time that passes between the reading
of the clock and its setting.  Runs of both kinds are in `timer_lost`.  Without them the timer is
always armed in time (`timer_armed`).
-/

namespace Libcoro.Scheduler.Timer

open Foundations Function

variable {ι κ : Type*}

/-- A thread inside `update_timeout`. -/
def Pc.Updating : Pc κ → Prop
  | .updateNow _ => True
  | .updateRead _ _ => True
  | .updateSet _ _ => True
  | _ => False

/-- A thread inside `update_timeout` that holds the mutex. -/
def Pc.Locked : Pc κ → Prop
  | .updateNow locked => locked = true
  | .updateRead locked _ => locked = true
  | .updateSet locked _ => locked = true
  | _ => False

/-- A thread in `process_timeout_execute` or at the beginning of `remove_timer_token`, which only
the event loop runs. -/
@[simp] def Pc.LoopOnly : Pc κ → Prop
  | .removeLock _ => True
  | .timeoutLock _ => True
  | .updateNow locked => locked = false
  | .updateRead locked _ => locked = false
  | .updateSet locked _ => locked = false
  | _ => False

/-- A thread that has read the earliest entry without holding the mutex and is about to set the
timer. -/
def Pc.InWindow : Pc κ → Bool
  | .updateSet locked _ => !locked
  | _ => false

/-- The time point that a thread is about to insert. -/
def Pc.inserting : Pc κ → Option ℤ
  | .addLock tp _ => some tp
  | _ => none

/-- What a thread is about to set the timer to. -/
def Pc.setting : Pc κ → Option Rearm
  | .updateSet _ r => r
  | _ => none

/-- No worker inserts a new earliest entry between the two steps of the update that
`process_timeout_execute` makes, and no time passes between the reading of the clock and the
setting of the timer. -/
def Undisturbed (s : State ι κ) : Action ι κ → Prop
  | .advance a => (∀ tp ∈ (s.pc a).inserting, s.mTimedEvents.isFirst tp = true →
      (s.pc .loop).InWindow = false) ∧ ∀ r ∈ (s.pc a).setting, r.now = s.clock
  | _ => True

instance (s : State ι κ) (a : Action ι κ) : Decidable (Undisturbed s a) := by
  unfold Undisturbed
  split <;> infer_instance

/-- The timer fires at the time point `tp`, or at once if that was over when it was set. -/
def ArmedFor (timer : Option ArmedTimer) (tp : ℤ) : Prop :=
  ∃ t, timer = some t ∧ t.deadline = max tp (t.armedAt + 1)

/-- `update_timeout` arms the timer for what it has read, if no time has passed since then. -/
lemma armedFor_setTimer (r : Rearm) : ArmedFor (setTimer r.now (some r)) r.tp := by
  refine ⟨_, rfl, ?_⟩
  simp only [watchTimerDelay_eq]
  omega

/-- What `update_timeout` has read is still the earliest time point. -/
def Current (s : State ι κ) (r : Option Rearm) : Prop :=
  r.map Rearm.tp = s.mTimedEvents.earliest.map Prod.fst

/-- The agreement of the threads with the mutex, the earliest entry and the timer. -/
structure Kept (s : State ι κ) : Prop where
  mutex : ∀ a, s.mTimedEventsMutex = some a ↔ (s.pc a).Locked
  loopOnly : ∀ a, (s.pc a).LoopOnly → a = .loop
  current : ∀ a locked r, s.pc a = .updateSet locked r → Current s r
  armed : (∃ a, (s.pc a).Updating) ∨
    ∀ e, s.mTimedEvents.earliest = some e → ArmedFor s.timer e.1

/-- Nobody holds the mutex in between two steps, and nobody has read under it. -/
lemma Kept.not_locked {s : State ι κ} (h : Kept s) (hm : s.mTimedEventsMutex = none) (b : Agent ι) :
    ¬ (s.pc b).Locked := by
  rw [← h.mutex b, hm]
  simp

variable [DecidableEq ι]

@[simp] lemma State.goto_pc (s : State ι κ) (a : Agent ι) (p : Pc κ) :
    (s.goto a p).pc = update s.pc a p := rfl

namespace Kept

variable {s s' : State ι κ} {a : Agent ι} {p : Pc κ}

/-- A step of `a` that leaves the first entry where it is, outside of `update_timeout`. -/
lemma keep (h : Kept s) (ha : ¬ (s.pc a).Updating) (hp : ¬ p.Updating)
    (hloop : p.LoopOnly → a = .loop) (hpc : s'.pc = update s.pc a p)
    (hmutex : s'.mTimedEventsMutex = s.mTimedEventsMutex) (htimer : s'.timer = s.timer)
    (hearliest : s'.mTimedEvents.earliest = s.mTimedEvents.earliest) : Kept s' := by
  have hlocked : ∀ q : Pc κ, ¬ q.Updating → ¬ q.Locked := by
    intro q hq hl
    cases q <;> simp_all [Pc.Updating, Pc.Locked]
  refine ⟨fun b => ?_, fun b hb => ?_, fun b locked r hb => ?_, ?_⟩
  · rw [hmutex, h.mutex b, hpc]
    by_cases hba : b = a
    · subst hba
      simp [hlocked _ ha, hlocked _ hp]
    · simp [hba]
  · rw [hpc] at hb
    by_cases hba : b = a
    · subst hba
      exact hloop (by simpa using hb)
    · exact h.loopOnly b (by simpa [hba] using hb)
  · rw [hpc] at hb
    have hba : b ≠ a := by
      rintro rfl
      simp only [update_self] at hb
      simp [hb, Pc.Updating] at hp
    unfold Current
    rw [hearliest]
    exact h.current b locked r (by simpa [hba] using hb)
  · rw [htimer, hearliest, hpc]
    refine h.armed.imp_left fun ⟨b, hb⟩ => ⟨b, ?_⟩
    have hba : b ≠ a := by
      rintro rfl
      exact ha hb
    simpa [hba] using hb

/-- A step of `a` that changes the entries under the mutex, before `a` updates the timer.
Nobody else is in the middle of an update. -/
lemma begin (h : Kept s) {locked : Bool} (ha : ¬ (s.pc a).Updating)
    (hm : s.mTimedEventsMutex = none) (hloop : locked = false → a = .loop)
    (hwindow : a = .loop ∨ (s.pc .loop).InWindow = false)
    (hpc : s'.pc = update s.pc a (.updateNow locked))
    (hmutex : s'.mTimedEventsMutex = if locked then some a else none) : Kept s' := by
  refine ⟨fun b => ?_, fun b hb => ?_, fun b l r hb => ?_, Or.inl ⟨a, ?_⟩⟩
  · rw [hmutex, hpc]
    by_cases hba : b = a
    · subst hba
      cases locked <;> simp [Pc.Locked]
    · have hb := h.not_locked hm b
      cases locked <;> simp [hba, hb, Ne.symm hba]
  · rw [hpc] at hb
    by_cases hba : b = a
    · subst hba
      exact hloop (by simpa using hb)
    · exact h.loopOnly b (by simpa [hba] using hb)
  · rw [hpc] at hb
    have hba : b ≠ a := by
      rintro rfl
      simp at hb
    have hb' : s.pc b = .updateSet l r := by simpa [hba] using hb
    cases l with
    | true => exact (h.not_locked hm b (by simp [hb', Pc.Locked])).elim
    | false =>
      -- an update without the mutex is one of the event loop
      obtain rfl : b = .loop := h.loopOnly b (by simp [hb'])
      rcases hwindow with hal | hwin
      · exact (hba hal.symm).elim
      · simp [hb', Pc.InWindow] at hwin
  · rw [hpc]
    simp [Pc.Updating]

/-- A step inside of an update, which reads something. -/
lemma read (h : Kept s) (hp : p.Updating) (hlocked : (s.pc a).Locked ↔ p.Locked)
    (hloop : p.LoopOnly → (s.pc a).LoopOnly)
    (hcurrent : ∀ l r, p = .updateSet l r → Current s r) : Kept (s.goto a p) := by
  refine ⟨fun b => ?_, fun b hb => ?_, fun b l r hb => ?_, Or.inl ⟨a, by simpa using hp⟩⟩
  · by_cases hba : b = a
    · subst hba
      simpa [hlocked, State.goto] using h.mutex b
    · simpa [hba, State.goto] using h.mutex b
  · by_cases hba : b = a
    · subst hba
      exact h.loopOnly b (hloop (by simpa using hb))
    · exact h.loopOnly b (by simpa [hba] using hb)
  · by_cases hba : b = a
    · subst hba
      exact hcurrent l r (by simpa using hb)
    · exact h.current b l r (by simpa [hba] using hb)

/-- `update_timeout` sets the timer, at the time that it has read. -/
lemma set (h : Kept s) {locked : Bool} {r : Option Rearm} (hc : s.pc a = .updateSet locked r)
    (hnow : ∀ x ∈ r, x.now = s.clock) : Kept { s.goto a .idle with
      timer := setTimer s.clock r
      mTimedEventsMutex := if locked then none else s.mTimedEventsMutex } := by
  refine ⟨fun b => ?_, fun b hb => ?_, fun b l r' hb => ?_, Or.inr fun e he => ?_⟩
  · have ha := h.mutex a
    have hb := h.mutex b
    by_cases hba : b = a
    · subst hba
      cases locked <;> simp_all [Pc.Locked]
    · cases locked with
      | true =>
        have hmutex : s.mTimedEventsMutex = some a := ha.mpr (by simp [hc, Pc.Locked])
        simpa [hba, hmutex, Ne.symm hba] using hb
      | false => simpa [hba] using hb
  · by_cases hba : b = a
    · subst hba
      simp at hb
    · exact h.loopOnly b (by simpa [hba] using hb)
  · have hba : b ≠ a := by
      rintro rfl
      simp at hb
    exact h.current b l r' (by simpa [hba] using hb)
  · have hcur := h.current a locked r hc
    unfold Current at hcur
    rw [show s.mTimedEvents.earliest = some e from he] at hcur
    obtain ⟨x, rfl, hx⟩ := Option.map_eq_some_iff.mp hcur
    rw [← hx, ← hnow x rfl]
    exact armedFor_setTimer x

end Kept

/-! ## The transitions -/

variable [DecidableEq κ]

/-- What one step of the threads can do. -/
inductive Transition (s : State ι κ) : Action ι κ → State ι κ → Prop
  | tick {d : ℕ} : Transition s (.tick d) { s with clock := s.clock + d }
  | add {a : Agent ι} {tp : ℤ} {k : κ} : s.pc a = .idle →
      Transition s (.add a tp k) (s.goto a (.addLock tp k))
  | remove {k : κ} : s.pc .loop = .idle → Transition s (.remove k) (s.goto .loop (.removeLock k))
  | processTimeout : s.pc .loop = .idle →
      Transition s .processTimeout (s.goto .loop (.timeoutLock s.clock))
  | addFirst {a : Agent ι} {tp : ℤ} {k : κ} : s.pc a = .addLock tp k →
      s.mTimedEventsMutex = none → s.mTimedEvents.isFirst tp = true →
      Transition s (.advance a)
        { s.goto a (.updateNow true) with
          mTimedEvents := s.mTimedEvents.emplace tp k
          mTimedEventsMutex := some a }
  | addLater {a : Agent ι} {tp : ℤ} {k : κ} : s.pc a = .addLock tp k →
      s.mTimedEvents.isFirst tp = false →
      Transition s (.advance a)
        { s.goto a .idle with mTimedEvents := s.mTimedEvents.emplace tp k }
  | removeFirst {a : Agent ι} {k : κ} : s.pc a = .removeLock k → s.mTimedEventsMutex = none →
      Transition s (.advance a)
        { s.goto a (.updateNow true) with
          mTimedEvents := s.mTimedEvents.erase k
          mTimedEventsMutex := some a }
  | removeLater {a : Agent ι} {k : κ} : s.pc a = .removeLock k →
      (∀ e, s.mTimedEvents.earliest = some e → e.2 ≠ k) →
      Transition s (.advance a)
        { s.goto a .idle with mTimedEvents := s.mTimedEvents.erase k }
  | dropDue {a : Agent ι} {now : ℤ} : s.pc a = .timeoutLock now → s.mTimedEventsMutex = none →
      Transition s (.advance a)
        { s.goto a (.updateNow false) with mTimedEvents := s.mTimedEvents.dropDue now }
  | now {a : Agent ι} {locked : Bool} : s.pc a = .updateNow locked →
      Transition s (.advance a) (s.goto a (.updateRead locked s.clock))
  | read {a : Agent ι} {locked : Bool} {now : ℤ} : s.pc a = .updateRead locked now →
      Transition s (.advance a) (s.goto a (.updateSet locked (s.readEarliest now)))
  | set {a : Agent ι} {locked : Bool} {r : Option Rearm} : s.pc a = .updateSet locked r →
      Transition s (.advance a)
        { s.goto a .idle with
          timer := setTimer s.clock r
          mTimedEventsMutex := if locked then none else s.mTimedEventsMutex }

/-- Every step of a thread inside the scheduler is one of the listed transitions. -/
lemma advance_transition {s s' : State ι κ} {a : Agent ι} (h : advance s a = some s') :
    Transition s (.advance a) s' := by
  unfold advance at h
  split at h <;> rename_i hc
  · cases h
  · obtain ⟨hm, rfl⟩ : s.mTimedEventsMutex = none ∧ addTimerToken s a _ _ = s' := by
      simpa using h
    unfold addTimerToken
    split_ifs with hfirst
    · exact .addFirst hc hm hfirst
    · exact .addLater hc (by simpa using hfirst)
  · obtain ⟨hm, rfl⟩ : s.mTimedEventsMutex = none ∧ removeTimerToken s a _ = s' := by
      simpa using h
    unfold removeTimerToken
    split_ifs with hfirst
    · exact .removeFirst hc hm
    · refine .removeLater hc fun e he hk => hfirst ?_
      simp [he, hk]
  · obtain ⟨hm, rfl⟩ : s.mTimedEventsMutex = none ∧ _ = s' := by simpa using h
    exact .dropDue hc hm
  · cases h
    exact .now hc
  · cases h
    exact .read hc
  · cases h
    exact .set hc

/-- Every step of the system is one of the listed transitions. -/
theorem step_transition {s s' : State ι κ} {a : Action ι κ} (h : step s a = some s') :
    Transition s a s' := by
  cases a with
  | tick d =>
    cases h
    exact .tick
  | add a tp k =>
    obtain ⟨hc, rfl⟩ : s.pc a = .idle ∧ s.goto a (.addLock tp k) = s' := by simpa [step] using h
    exact .add hc
  | remove k =>
    obtain ⟨⟨hc, -⟩, rfl⟩ : (s.pc .loop = .idle ∧ _) ∧ s.goto .loop (.removeLock k) = s' := by
      simpa [step] using h
    exact .remove hc
  | processTimeout =>
    obtain ⟨hc, rfl⟩ : s.pc .loop = .idle ∧ s.goto .loop (.timeoutLock s.clock) = s' := by
      simpa [step] using h
    exact .processTimeout hc
  | advance a => exact advance_transition h

namespace Kept

variable {s s' : State ι κ}

/-- Every transition keeps the agreement, unless an update is disturbed. -/
lemma transition {act : Action ι κ} (h : Kept s) (hguard : Undisturbed s act)
    (ht : Transition s act s') : Kept s' := by
  cases ht with
  | tick => exact ⟨h.1, h.2, h.3, h.4⟩
  | add hc => exact h.keep (by simp [hc, Pc.Updating]) id False.elim rfl rfl rfl rfl
  | remove hc => exact h.keep (by simp [hc, Pc.Updating]) id (fun _ => rfl) rfl rfl rfl rfl
  | processTimeout hc =>
    exact h.keep (by simp [hc, Pc.Updating]) id (fun _ => rfl) rfl rfl rfl rfl
  | @addFirst a tp k hc hm hfirst =>
    have hwin : (s.pc .loop).InWindow = false := hguard.1 tp (by simp [hc, Pc.inserting]) hfirst
    exact h.begin (by simp [hc, Pc.Updating]) hm (by simp) (Or.inr hwin) rfl rfl
  | @addLater a tp k hc hfirst =>
    refine h.keep (by simp [hc, Pc.Updating]) id False.elim rfl rfl rfl ?_
    change (s.mTimedEvents.emplace tp k).earliest = _
    rw [TimedQueue.earliest_emplace, hfirst]
    rfl
  | @removeFirst a k hc hm =>
    have hloop : a = .loop := h.loopOnly a (by simp [hc])
    exact h.begin (by simp [hc, Pc.Updating]) hm (by simp) (Or.inl hloop) rfl rfl
  | @removeLater a k hc hfirst =>
    exact h.keep (by simp [hc, Pc.Updating]) id False.elim rfl rfl rfl
      (TimedQueue.earliest_erase hfirst)
  | @dropDue a now hc hm =>
    have hloop : a = .loop := h.loopOnly a (by simp [hc])
    exact h.begin (by simp [hc, Pc.Updating]) hm (fun _ => hloop) (Or.inl hloop) rfl hm
  | now hc => exact h.read trivial (by simp [hc, Pc.Locked]) (by simp [hc]) (by simp)
  | @read a locked now hc =>
    refine h.read trivial (by simp [hc, Pc.Locked]) (by simp [hc]) fun l r hp => ?_
    obtain ⟨-, rfl⟩ := Pc.updateSet.inj hp
    simp [Current, State.readEarliest, Function.comp_def]
  | set hc => exact h.set hc (by simpa [hc, Pc.setting] using hguard.2)

end Kept

/-- The agreement holds in every run in which no update is disturbed. -/
lemma kept_of_reachable {c : ℤ} {s : State ι κ}
    (h : (machine ι κ c).ReachableUnder Undisturbed s) : Kept s := by
  refine h.invariant ⟨fun a => ?_, fun a ha => ?_, fun a l r ha => ?_, Or.inr fun e he => ?_⟩
    fun s a s' _ hs hG hstep => hs.transition hG (step_transition hstep)
  · simp [machine, start, Pc.Locked]
  · simp [machine, start] at ha
  · simp [machine, start] at ha
  · simp [machine, start, TimedQueue.empty, TimedQueue.earliest] at he

/-- Take a run in which no worker inserts a new earliest entry while `process_timeout_execute` is
between its read of the earliest entry and its setting of the timer, and in which no time passes
between the reading of the clock for an update and the setting of the timer.  In every state reached
in which nobody is updating the timer, a queue that is not empty has an armed timer, whose deadline
is no later than any of the time points; only for time points that were over when the timer
was set it is the next nanosecond, the earliest deadline that the timer can have. -/
theorem timer_armed {c : ℤ} {s : State ι κ}
    (h : (machine ι κ c).ReachableUnder Undisturbed s) (hupdate : ∀ a, ¬ (s.pc a).Updating)
    (hne : s.mTimedEvents.entries ≠ []) :
    ∃ t, s.timer = some t ∧ ∀ e ∈ s.mTimedEvents.entries,
      t.deadline ≤ e.1 ∨ (e.1 ≤ t.armedAt ∧ t.deadline = t.armedAt + 1) := by
  obtain ⟨e₀, he₀⟩ : ∃ e₀, s.mTimedEvents.earliest = some e₀ := by
    unfold TimedQueue.earliest
    exact Option.ne_none_iff_exists'.mp (by simpa using hne)
  rcases (kept_of_reachable h).armed with ⟨a, ha⟩ | harmed
  · exact (hupdate a ha).elim
  · obtain ⟨t, ht, hdeadline⟩ := harmed e₀ he₀
    refine ⟨t, ht, fun e he => ?_⟩
    have hle := TimedQueue.earliest_le he₀ he
    omega

/-- Two workers add entries, the later time point first; the second one re-arms the timer. -/
def rearmedTrace : List (Action (Fin 2) (Fin 2)) :=
  .add (.worker 0) 200 0 :: List.replicate 4 (.advance (.worker 0)) ++
    .tick 50 :: .processTimeout :: List.replicate 4 (.advance .loop) ++
    .add (.worker 1) 100 1 :: List.replicate 4 (.advance (.worker 1))

/-- After the run above the timer is armed for the earlier of the two. -/
theorem timer_armed_rearmed : ∃ s : State (Fin 2) (Fin 2),
    (machine (Fin 2) (Fin 2) 0).runUnder Undisturbed (start 0) rearmedTrace = some s ∧
    s.mTimedEvents.entries = [(100, 1), (200, 0)] ∧
    ∃ t, s.timer = some t ∧ ∀ e ∈ s.mTimedEvents.entries,
      t.deadline ≤ e.1 ∨ (e.1 ≤ t.armedAt ∧ t.deadline = t.armedAt + 1) := by
  obtain ⟨s, hrun, hentries, hloop, hzero, hone⟩ : ∃ s : State (Fin 2) (Fin 2),
      (machine (Fin 2) (Fin 2) 0).runUnder Undisturbed (start 0) rearmedTrace = some s ∧
      s.mTimedEvents.entries = [(100, 1), (200, 0)] ∧ s.pc .loop = .idle ∧
      s.pc (.worker 0) = .idle ∧ s.pc (.worker 1) = .idle := ⟨_, rfl, rfl, rfl, rfl, rfl⟩
  refine ⟨s, hrun, hentries, timer_armed (Machine.reachableUnder_of_run hrun) (fun a => ?_)
    (by simp [hentries])⟩
  match a with
  | .loop => simp [hloop, Pc.Updating]
  | .worker 0 => simp [hzero, Pc.Updating]
  | .worker 1 => simp [hone, Pc.Updating]

/-- The event loop finds no entry; before it disarms the timer a worker adds one. -/
def overtakenTrace : List (Action ℕ ℕ) :=
  .processTimeout :: List.replicate 3 (.advance .loop) ++
    .add (.worker 0) 100 0 :: List.replicate 4 (.advance (.worker 0)) ++ [.advance .loop]

/-- A worker adds an entry, and time passes before it sets the timer. -/
def delayedTrace : List (Action ℕ ℕ) :=
  .add (.worker 0) 100 0 :: List.replicate 3 (.advance (.worker 0)) ++
    [.tick 50, .advance (.worker 0)]

/-- After both runs the entry `100` waits and nobody is updating the timer; after the first one it
is disarmed, and after the second one it is going to fire at `150`. -/
theorem timer_lost :
    (∃ s : State ℕ ℕ, (machine ℕ ℕ 0).run (start 0) overtakenTrace = some s ∧
      (machine ℕ ℕ 0).Reachable s ∧ s.pc .loop = .idle ∧ (∀ w, s.pc (.worker w) = .idle) ∧
      s.mTimedEvents.entries = [(100, 0)] ∧ s.timer = none) ∧
    ∃ s : State ℕ ℕ, (machine ℕ ℕ 0).run (start 0) delayedTrace = some s ∧
      (machine ℕ ℕ 0).Reachable s ∧ s.pc .loop = .idle ∧ (∀ w, s.pc (.worker w) = .idle) ∧
      s.mTimedEvents.entries = [(100, 0)] ∧ s.timer = some { deadline := 150, armedAt := 50 } := by
  refine ⟨⟨_, rfl, Machine.reachable_of_run (M := machine ℕ ℕ 0) (l := overtakenTrace) rfl, rfl,
    fun w => ?_, rfl, rfl⟩, _, rfl,
    Machine.reachable_of_run (M := machine ℕ ℕ 0) (l := delayedTrace) rfl, rfl,
    fun w => ?_, rfl, rfl⟩
  · cases w <;> rfl
  · cases w <;> rfl

end Libcoro.Scheduler.Timer
