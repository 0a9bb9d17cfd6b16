import Libcoro.Foundations.Duration
import Libcoro.Scheduler.ExactlyOnce

/-!
# `yield_until` and `schedule_at`

`yield_until` reads the clock, converts the time that is left to milliseconds, and hands the sum of
the two to `add_timer_token`; `schedule_at` calls it.  The conversion drops what is less than a
millisecond, so that the entry in `m_timed_events` may be up to a millisecond earlier than the time
point that was asked for.

The machine is that of `Libcoro.Scheduler.PollCompletion`, with calls of `yield_until` whose
argument is remembered.  A coroutine that yields has no descriptor, so that only the loop in
`process_timeout_execute` can put its handle on `m_handles_to_resume`.
-/

namespace Libcoro.Scheduler

open Foundations Function

namespace PollCompletion

open Poll

variable {π φ : Type*} [DecidableEq π] {s t : State π φ} {p q : π}

/-! ## The clock -/

/-- The clock never goes back. -/
lemma clock_le_of_step {a : Action π φ} (h : step s a = some t) : s.clock ≤ t.clock := by
  cases a with
  | tick d =>
    cases h
    exact Int.le_add_of_nonneg_right (Int.natCast_nonneg d)
  | poll p fd timeout cancelTrigger | yieldUntil p tp | nextEvents ready =>
    simp only [step, Option.ite_none_right_eq_some, Option.some.injEq] at h
    obtain ⟨-, rfl⟩ := h
    exact le_rfl
  | advance p =>
    simp only [step, advance] at h
    split at h <;> cases h <;> exact le_rfl
  | loop k =>
    refine le_of_eq ?_
    have hprocess : (process s k).clock = s.clock := by
      unfold process
      split
      all_goals try rfl
      split_ifs <;> rfl
    simp only [step, loop] at h
    split at h
    all_goals try (split_ifs at h)
    all_goals cases h
    all_goals first | rfl | exact hprocess.symm

/-- The loop has read no time that is still to come. -/
structure ClockRead (s : State π φ) : Prop where
  lock : ∀ now, s.loop = .timeoutLock now → now ≤ s.clock
  timedOut : ∀ p now, s.timedOutAt p = some now → now ≤ s.clock

lemma ClockRead.transition (h : ClockRead s) (ht : Transition s t) (hclock : s.clock ≤ t.clock) :
    ClockRead t := by
  have hold : ∀ p now, s.timedOutAt p = some now → now ≤ t.clock := fun p now hp =>
    (h.timedOut p now hp).trans hclock
  have hlock : ∀ now, s.loop = .timeoutLock now → now ≤ t.clock := fun now hl =>
    (h.lock now hl).trans hclock
  cases ht with
  | tick | begin | addTimer | assignPos | quiet | suspend | awaitResume | otherEvent
  | discardEvent => exact ⟨hlock, hold⟩
  | timerEvent => exact ⟨fun now hl => (LoopPc.timeoutLock.inj hl).ge, hold⟩
  | @timeoutLock now hl =>
    refine ⟨nofun, fun p now' hp => ?_⟩
    change (if _ then _ else _) = _ at hp
    split_ifs at hp
    · exact Option.some.inj hp ▸ hlock now hl
    · exact hold p now' hp
  | nextEvents | resumeAll | endTimed | endUntimed | removeTimer | appendEvent | timeoutsDone
  | discardTimeout | endByTimeout | appendTimeout => exact ⟨nofun, hold⟩

/-! ## Yielding coroutines -/

/-- What was taken up for a coroutine without a descriptor was its timeout. -/
def OnlyTimeouts (s : State π φ) : Prop :=
  ∀ p st, (p, st) ∈ s.occurred → (s.info p).mFd = none → st = .timeout

/-- Overwriting a `poll_info` with the same descriptor. -/
lemma OnlyTimeouts.setInfo (h : OnlyTimeouts s) {pi : PollInfo φ}
    (hfd : pi.mFd = (s.info q).mFd) : OnlyTimeouts (s.setInfo q pi) := by
  intro p st hmem hnone
  refine h p st hmem ?_
  rcases eq_or_ne p q with rfl | hpq
  · simpa [hfd] using hnone
  · simpa [hpq] using hnone

omit [DecidableEq π] in
/-- An event or a timeout is taken up. -/
lemma OnlyTimeouts.takeUp {st : PollStatus} (h : OnlyTimeouts s)
    (hst : (s.info q).mFd = none → st = .timeout) : OnlyTimeouts (s.takeUp q st) := by
  intro p st' hmem hnone
  rcases List.mem_append.mp hmem with hmem | hmem
  · exact h p st' hmem hnone
  · obtain ⟨rfl, rfl⟩ := Prod.mk.inj (List.mem_singleton.mp hmem)
    exact hst hnone

lemma OnlyTimeouts.transition (h : OnlyTimeouts s) (hs : Sound s) (ht : Transition s t) :
    OnlyTimeouts t := by
  -- an event is taken up only for a poll with a descriptor
  have hevent : ∀ q st rest, s.mRecentEvents = .poll q st :: rest →
      (s.info q).mFd = none → st = .timeout := by
    intro q st rest he hnone
    have hr := hs.reported q st (he ▸ List.mem_cons_self)
    exact absurd hr.2.1 (by simp [hnone])
  cases ht with
  | tick | addTimer | quiet | awaitResume | nextEvents | resumeAll | timerEvent | otherEvent
  | appendEvent | timeoutLock | timeoutsDone => exact h
  | @begin q pi c hc =>
    have hopen := (hs.open_of_not_begun (p := q) (by simp [hc, Pc.Begun])).2.1.first
    intro p st hmem hnone
    rcases eq_or_ne p q with rfl | hpq
    · have hne := List.lookup_eq_none_iff.mp hopen (p, st) hmem
      simp at hne
    · exact h p st hmem (by simpa [hpq] using hnone)
  | assignPos | suspend | removeTimer | appendTimeout => exact h.setInfo rfl
  | discardEvent hl he => exact h.takeUp (hevent _ _ _ he)
  | endTimed hl he | endUntimed hl he => exact (h.takeUp (hevent _ _ _ he)).setInfo rfl
  | discardTimeout => exact h.takeUp fun _ => rfl
  | endByTimeout => exact (h.takeUp fun _ => rfl).setInfo rfl

/-- A coroutine at `c` without a descriptor whose entry, if it has made one, has the time point
`time`. -/
structure Yielding (pi : PollInfo φ) (c : Pc) (tp : Option ℤ) (time : ℤ) : Prop where
  noFd : pi.mFd = none
  begun : c ≠ .idle
  adding : ∀ tp', c = .addTimer tp' → tp' = time
  stored : ∀ tp', tp = some tp' → tp' = time

section Yielding

variable {info : π → PollInfo φ} {pcs : π → Pc} {pi : PollInfo φ} {c : Pc} {tp : Option ℤ}
  {time : ℤ}

/-- A coroutine goes on, but not to the beginning. -/
lemma Yielding.goto (h : Yielding pi (pcs p) tp time) (hidle : c ≠ .idle)
    (hadd : ∀ tp', c ≠ .addTimer tp') : Yielding pi (update pcs q c p) tp time := by
  rcases eq_or_ne p q with rfl | hpq
  · rw [update_self]
    exact ⟨h.noFd, hidle, fun tp' hc => absurd hc (hadd tp'), h.stored⟩
  · rw [update_of_ne hpq]
    exact h

/-- A `poll_info` is overwritten, but its descriptor stays. -/
lemma Yielding.setInfo (h : Yielding (info p) c tp time) (hfd : pi.mFd = (info q).mFd) :
    Yielding (update info q pi p) c tp time := by
  rcases eq_or_ne p q with rfl | hpq
  · rw [update_self]
    exact ⟨hfd.trans h.noFd, h.begun, h.adding, h.stored⟩
  · rw [update_of_ne hpq]
    exact h

/-- A yielding coroutine keeps its time point. -/
lemma Yielding.transition (h : Yielding (s.info p) (s.pc p) (s.timePoint p) time)
    (ht : Transition s t) : Yielding (t.info p) (t.pc p) (t.timePoint p) time := by
  cases ht with
  | tick | nextEvents | timerEvent | otherEvent | discardEvent | appendEvent | timeoutLock
  | timeoutsDone | discardTimeout => exact h
  | @begin q pi c hc =>
    have hpq : p ≠ q := by
      rintro rfl
      exact h.begun hc
    simpa [hpq] using h
  | @addTimer q tp hc =>
    have hgo : Yielding (s.info p) (update s.pc q
        (if (s.info q).mFd.isSome then .assignPos else .suspend) p) (s.timePoint p) time := by
      refine Yielding.goto h ?_ ?_ <;> split_ifs <;> simp
    refine ⟨hgo.noFd, hgo.begun, hgo.adding, fun tp' htp' => ?_⟩
    rcases eq_or_ne p q with rfl | hpq
    · obtain rfl : tp = tp' := by simpa using htp'
      exact h.adding tp hc
    · exact h.stored tp' (by simpa [hpq] using htp')
  | assignPos | suspend => exact Yielding.goto (Yielding.setInfo h rfl) (by simp) (by simp)
  | @quiet q c hquiet =>
    generalize s.pc q = c0 at hquiet
    cases hquiet <;> exact Yielding.goto h (by simp) (by simp)
  | awaitResume => exact Yielding.goto h (by simp) (by simp)
  | resumeAll =>
    by_cases hmem : some p ∈ s.mHandlesToResume
    · simpa [hmem] using (⟨h.noFd, by simp, by simp, h.stored⟩ : Yielding _ .resumed _ time)
    · simpa [hmem] using h
  | endTimed | endUntimed | removeTimer | endByTimeout | appendTimeout =>
    exact Yielding.setInfo h rfl

end Yielding

end PollCompletion

namespace YieldUntil

variable {π φ : Type*}

/-- The time point that `yield_until` hands to `add_timer_token`. -/
def timePoint (time now : ℤ) : ℤ :=
  let amount := Period.cast .nano .milli (wrap64 (time - now))
  wrap64 (now + Period.cast .milli .nano amount)

/-- The scheduler, and the time points that were asked for. -/
structure State (π φ : Type*) where
  base : PollCompletion.State π φ
  requested : π → Option ℤ

/-- A coroutine calls `yield_until` or `schedule_at`, or something else happens. -/
inductive Action (π φ : Type*) where
  | yieldUntil (p : π) (time : ℤ)
  | other (a : PollCompletion.Action π φ)
  deriving DecidableEq, Repr

variable [DecidableEq π]

/-- One step of the system. -/
def step (s : State π φ) : Action π φ → Option (State π φ)
  | .yieldUntil p time =>
    -- a time point that is over makes the coroutine call `schedule()`, without a timer
    if time ≤ s.base.clock then some s
    else
      (PollCompletion.step s.base (.yieldUntil p (timePoint time s.base.clock))).map fun b =>
        { base := b, requested := update s.requested p (some time) }
  | .other a => (PollCompletion.step s.base a).map fun b => { s with base := b }

/-- The scheduler as a machine, for every initial value of the clock. -/
def machine (π φ : Type*) [DecidableEq π] (c : ℤ) :
    Machine (State π φ) (Action π φ) where
  start := { base := PollCompletion.start c, requested := fun _ => none }
  step := step

/-- The time that is left to a requested time point is a whole number of milliseconds, and the time
point and this time have 64 bits. -/
def WholeMilliseconds (s : State π φ) : Action π φ → Prop
  | .yieldUntil _ time => s.base.clock < time →
    1000000 ∣ time - s.base.clock ∧ Fits64 time ∧ Fits64 (time - s.base.clock)
  | .other _ => True

instance (s : State π φ) (a : Action π φ) : Decidable (WholeMilliseconds s a) := by
  unfold WholeMilliseconds
  split <;> infer_instance

/-- Whole milliseconds survive the conversion. -/
lemma timePoint_eq {time now : ℤ} (hwhole : 1000000 ∣ time - now)
    (htime : Fits64 time) (hdiff : Fits64 (time - now)) : timePoint time now = time := by
  obtain ⟨k, hk⟩ := hwhole
  have hunit : Period.ratioNum .nano .milli = 1 := by decide
  have hdown : Period.cast .nano .milli (time - now) = k := by
    rw [Period.cast, Period.castIn, if_neg (by decide), if_pos hunit, hk]
    exact Int.mul_tdiv_cancel_left k (by decide)
  have hup : Period.cast .milli .nano k = time - now := by
    have hproduct : k * (Period.ratioNum .milli .nano : ℤ) = time - now := by
      rw [show Period.ratioNum .milli .nano = 1000000 by decide, hk]
      push_cast
      ring
    rw [Period.cast, Period.castIn, if_pos (by decide), hproduct, wrap64_of_fits hdiff]
  unfold timePoint
  simp only [wrap64_of_fits hdiff, hdown, hup, add_sub_cancel]
  exact wrap64_of_fits htime

variable {s t : State π φ} {c : ℤ} {p : π} {time : ℤ}

/-- Nothing happens to the scheduler that is not a step of its own. -/
lemma base_step {a : Action π φ} (h : step s a = some t) :
    t.base = s.base ∨ ∃ b, PollCompletion.step s.base b = some t.base := by
  cases a with
  | yieldUntil p time =>
    simp only [step] at h
    split_ifs at h with hover
    · exact Or.inl (congrArg State.base (Option.some.inj h)).symm
    · obtain ⟨b, hb, rfl⟩ := Option.map_eq_some_iff.mp h
      exact Or.inr ⟨_, hb⟩
  | other a =>
    obtain ⟨b, hb, rfl⟩ := Option.map_eq_some_iff.mp h
    exact Or.inr ⟨_, hb⟩

/-- The scheduler is one that its own machine reaches. -/
lemma base_reachable {G : State π φ → Action π φ → Prop}
    (h : (machine π φ c).ReachableUnder G s) : (PollCompletion.machine π φ c).Reachable s.base := by
  refine h.invariant (I := fun s => (PollCompletion.machine π φ c).Reachable s.base)
    Machine.Reachable.start ?_
  intro s a t _ hs _ hstep
  rcases base_step hstep with hsame | ⟨b, hb⟩
  · rwa [hsame]
  · exact hs.tail hb

/-- What holds of the scheduler in every run, and that requested time points are those of the
entries. -/
structure Punctual (s : State π φ) : Prop where
  clock : PollCompletion.ClockRead s.base
  timeouts : PollCompletion.OnlyTimeouts s.base
  yields : ∀ p time, s.requested p = some time →
    PollCompletion.Yielding (s.base.info p) (s.base.pc p) (s.base.timePoint p) time

/-- A call that begins to yield. -/
lemma yieldUntil_begins {b b' : PollCompletion.State π φ} {tp : ℤ}
    (h : PollCompletion.step b (.yieldUntil p tp) = some b') (htp : b.timePoint p = none) :
    PollCompletion.Yielding (b'.info p) (b'.pc p) (b'.timePoint p) tp := by
  simp only [PollCompletion.step, Option.ite_none_right_eq_some, Option.some.injEq] at h
  obtain ⟨-, rfl⟩ := h
  refine ⟨?_, ?_, ?_, ?_⟩
  · simp
  · simp
  · simp [eq_comm]
  · intro tp' htp'
    change b.timePoint p = some tp' at htp'
    rw [htp] at htp'
    cases htp'

lemma Punctual.step {a : Action π φ} (h : Punctual s) (hs : PollCompletion.Sound s.base)
    (hG : WholeMilliseconds s a) (hstep : YieldUntil.step s a = some t) : Punctual t := by
  -- what a step of the scheduler keeps
  have hbase : ∀ b u, PollCompletion.step s.base b = some u →
      PollCompletion.ClockRead u ∧ PollCompletion.OnlyTimeouts u ∧
      ∀ p time, s.requested p = some time →
        PollCompletion.Yielding (u.info p) (u.pc p) (u.timePoint p) time := by
    intro b u hb
    have ht := PollCompletion.step_transition hb
    exact ⟨h.clock.transition ht (PollCompletion.clock_le_of_step hb), h.timeouts.transition hs ht,
      fun p time hp => (h.yields p time hp).transition ht⟩
  cases a with
  | yieldUntil p time =>
    simp only [YieldUntil.step] at hstep
    split_ifs at hstep with hover
    · exact Option.some.inj hstep ▸ h
    · obtain ⟨u, hu, rfl⟩ := Option.map_eq_some_iff.mp hstep
      obtain ⟨hclock, htimeouts, hyields⟩ := hbase _ u hu
      refine ⟨hclock, htimeouts, fun q time' hq => ?_⟩
      rcases eq_or_ne q p with rfl | hqp
      · obtain rfl : time = time' := by simpa using hq
        have hlt : s.base.clock < time := not_le.mp hover
        obtain ⟨hwhole, htime, hdiff⟩ := hG hlt
        rw [timePoint_eq hwhole htime hdiff] at hu
        refine yieldUntil_begins hu ?_
        have hidle : s.base.pc q = .idle := by
          simp only [PollCompletion.step, Option.ite_none_right_eq_some] at hu
          exact hu.1
        exact (hs.open_of_not_begun (by simp [hidle, PollCompletion.Pc.Begun])).2.2
      · exact hyields q time' (by simpa [hqp] using hq)
  | other a =>
    obtain ⟨u, hu, rfl⟩ := Option.map_eq_some_iff.mp hstep
    obtain ⟨hclock, htimeouts, hyields⟩ := hbase _ u hu
    exact ⟨hclock, htimeouts, hyields⟩

/-- At the beginning nobody has yielded. -/
lemma punctual_start (c : ℤ) : Punctual (machine π φ c).start :=
  ⟨⟨nofun, nofun⟩, fun _ _ hmem => absurd hmem List.not_mem_nil, nofun⟩

/-- In every run in which the time left to a requested time point is a whole number of milliseconds,
for all interleavings, batches of events and values of the clock: if the handle of a coroutine that
has called `yield_until` or `schedule_at` with a time point to come is put on `m_handles_to_resume`,
then the time that `process_timeout_execute` had read, and with it the current time, is not before
the time point. -/
theorem yield_until_not_early (h : (machine π φ c).ReachableUnder WholeMilliseconds s)
    (hp : s.requested p = some time) (happ : p ∈ s.base.appended) :
    ∃ now, s.base.timedOutAt p = some now ∧ time ≤ now ∧ now ≤ s.base.clock := by
  have hpunctual : Punctual s := by
    refine h.invariant (punctual_start c) ?_
    intro s a t hs hI hG hstep
    exact hI.step (PollCompletion.sound_of_reachable (base_reachable hs)) hG hstep
  have hyield := hpunctual.yields p time hp
  have honce := PollCompletion.sound_of_reachable (base_reachable h)
  have hdone := (honce.place p).done_of_appended happ
  -- without a descriptor the status can only be that of a timeout
  have hstatus : (s.base.info p).mPollStatus = .timeout := by
    obtain ⟨before, after, hsplit, -⟩ := List.lookup_eq_some_iff.mp hdone.first
    refine hpunctual.timeouts p _ ?_ hyield.noFd
    rw [hsplit]
    exact List.mem_append_right _ List.mem_cons_self
  obtain ⟨tp, now, htp, hnow, hle⟩ := hdone.expired hstatus
  obtain rfl := hyield.stored tp htp
  exact ⟨now, hnow, hle, hpunctual.clock.timedOut p now hnow⟩

/-- A coroutine asks at the time `0` for the time point `time`; the timer fires at the time `fired`,
and `process_events_execute` takes up what it reports. -/
def timerRun (time : ℤ) (fired : ℕ) : List (Action (Fin 1) (Fin 1)) :=
  [.yieldUntil 0 time, .other (.advance 0), .other (.advance 0), .other (.tick fired),
    .other (.nextEvents [.timer]), .other (.loop 0), .other (.loop 0), .other (.loop 0),
    .other (.loop 0)]

/-- Two milliseconds are waited for, and the coroutine is resumed after two milliseconds. -/
theorem yield_until_not_early_two :
    ∃ s : State (Fin 1) (Fin 1), (machine (Fin 1) (Fin 1) 0).ReachableUnder WholeMilliseconds s ∧
      s.base.appended = [0] ∧
      ∃ now, s.base.timedOutAt 0 = some now ∧ 2000000 ≤ now ∧ now ≤ s.base.clock := by
  have hrun := Machine.reachableUnder_of_run (M := machine (Fin 1) (Fin 1) 0)
    (G := WholeMilliseconds) (l := timerRun 2000000 2000000) rfl
  exact ⟨_, hrun, rfl, yield_until_not_early hrun (p := 0) rfl (by decide)⟩

/-- One and a half milliseconds are waited for, and the coroutine is resumed after one. -/
theorem yield_until_early :
    ∃ s : State (Fin 1) (Fin 1), (machine (Fin 1) (Fin 1) 0).Reachable s ∧
      s.requested 0 = some 1500000 ∧ s.base.appended = [0] ∧ s.base.clock = 1000000 :=
  ⟨_, Machine.reachable_of_run (l := timerRun 1500000 1000000) rfl, rfl, rfl, rfl⟩

end YieldUntil

end Libcoro.Scheduler
