import Libcoro.TimedWait.Model

/-!
# The race for one wait

What can happen to the record of one wait, apart from the rest of the system.  `Move y y'` is a step
of the tasks of the wait, and `Visit c st st' y y'` a step of a notifier `c` inside `on_notify`.
`Coherent y` ties the flags of the wait to the control points of its tasks, and `Fits c st y` says
what a notifier knows in the stage `st`; both are kept by either kind of step.

The event mutex is what makes this work.  The timeout task and a notifier decide the race while they
hold it, so that neither can find its knowledge outdated.
-/

namespace Libcoro.TimedWait

open ConditionVariable

variable {ι μ δ : Type*}

/-- The timeout task has won and has not yet resumed the caller. -/
@[simp] def Timeout.Won : Timeout → Prop
  | .setStatus | .wonUnlock | .lock | .evaluate | .resume => True
  | _ => False

/-- The tasks of a wait are started one after the other, and an untimed wait has none. -/
def Started (y : Wait ι μ δ) : Prop :=
  match y.controller with
  | .idle | .ready | .push =>
    y.callback = .notStarted ∧ y.timeout = .notStarted ∧ y.winner = none ∧ y.resumptions = 0
  | .unlock => y.callback = .notStarted ∧ y.timeout = .notStarted
  | .startCallback => y.timed = true ∧ y.callback = .notStarted ∧ y.timeout = .notStarted
  | .startTimeout => y.timed = true ∧ y.timeout = .notStarted
  | .done => y.timed = false → y.callback = .notStarted ∧ y.timeout = .notStarted

/-- Nobody resumes the caller before the race is decided, and the winner does so once.  Until the
winner has written `m_status` the event is not set. -/
structure Race (y : Wait ι μ δ) : Prop where
  undecided : y.winner = none → y.mAwaiterCompleted = false ∧ y.mNotifyCallback = false ∧
    (y.timed = true → y.resumptions = 0) ∧ (y.controller ≠ .ready → y.mStatus = none)
  by_timeout : y.winner = some .timeout → y.mAwaiterCompleted = true ∧
    ((y.timeout.Won ∧ y.resumptions = 0) ∨ (y.timeout = .done ∧ y.resumptions = 1)) ∧
    ((y.timeout = .setStatus ∧ y.mNotifyCallback = false ∧ y.mStatus = none) ∨
      y.mStatus = some .timeout)
  by_notify : y.winner = some .notify → y.mAwaiterCompleted = true ∧ ¬ y.timeout.Won ∧
    ((y.callback ≠ .done ∧ y.resumptions = 0) ∨ (y.callback = .done ∧ y.resumptions = 1)) ∧
    ((y.mNotifyCallback = false ∧ y.mStatus = none) ∨ y.mStatus = some .noTimeout)

/-- What the timeout task knows. -/
def TimeoutKnows (y : Wait ι μ δ) : Prop :=
  match y.timeout with
  | .exchange => y.eventOwner = some .timeout
  | .setStatus | .wonUnlock => y.eventOwner = some .timeout ∧ y.winner = some .timeout
  | .lock | .evaluate | .resume => y.winner = some .timeout
  | .lostUnlock => y.eventOwner = some .timeout ∧ y.winner = some .notify
  | .notStarted | .sleeping | .eventLock | .done => True

/-- What the callback task knows. -/
def CallbackKnows (y : Wait ι μ δ) : Prop :=
  match y.callback with
  | .notStarted => True
  | .waitingEvent => y.mNotifyCallback = false
  | .ready | .done => y.mNotifyCallback = true
  | .resuming => y.mNotifyCallback = true ∧ y.winner = some .notify

/-- The flags of a wait agree with the control points of its tasks. -/
structure Coherent (y : Wait ι μ δ) : Prop where
  started : Started y
  untimed : y.timed = false → y.winner = none
  race : Race y
  timeout : TimeoutKnows y
  callback : CallbackKnows y
  returned : y.timed = true → 0 < y.resumptions →
    ∃ r, y.returned = some (some (if y.winner = some .timeout then .timeout else .noTimeout), r)

/-- What the notifier `c` knows about a wait in the stage `st` of `on_notify`. -/
def Fits (c : ι) (st : Stage) (y : Wait ι μ δ) : Prop :=
  match st with
  | .eventLock => y.timed = true ∧ y.winner ≠ some .notify
  | .eventTest | .eventUnlock =>
    y.timed = true ∧ y.winner ≠ some .notify ∧ y.eventOwner = some (.notifier c)
  | .deadUnlock => y.eventOwner = some (.notifier c) ∧ y.mStatus = some .timeout
  | .deadSet => y.mStatus = some .timeout
  | .lock | .evaluate | .notReady =>
    y.timed = true → y.eventOwner = some (.notifier c) ∧ y.winner = none
  | .complete => y.timed = true ∧ y.eventOwner = some (.notifier c) ∧ y.winner = none
  | .setStatus => y.eventOwner = some (.notifier c) ∧ y.winner = some .notify
  | .unlock => y.eventOwner = some (.notifier c) ∧ y.mStatus = some .noTimeout
  | .set => y.mStatus = some .noTimeout
  | .requeue => y.winner ≠ some .notify
  | .resume => y.timed = false

/-- A step of the tasks of a wait that concerns nothing but its own data. -/
inductive Silent : Wait ι μ δ → Wait ι μ δ → Prop
  | startCallback {y : Wait ι μ δ} : y.controller = .startCallback →
      Silent y { y with
        controller := .startTimeout
        callback := if y.mNotifyCallback then .ready else .waitingEvent }
  | startTimeout {y : Wait ι μ δ} : y.controller = .startTimeout →
      Silent y { y with controller := .done, timeout := .sleeping }
  | notified {y : Wait ι μ δ} : y.callback = .ready → y.mStatus = some .noTimeout →
      Silent y { y with callback := .resuming }
  | ignored {y : Wait ι μ δ} : y.callback = .ready → y.mStatus = some .timeout →
      Silent y { y with callback := .done }
  | fire {y : Wait ι μ δ} : y.timeout = .sleeping → Silent y { y with timeout := .eventLock }
  | eventLock {y : Wait ι μ δ} : y.timeout = .eventLock → y.eventOwner = none →
      Silent y { y with eventOwner := some .timeout, timeout := .exchange }
  | lose {y : Wait ι μ δ} : y.timeout = .exchange → y.mAwaiterCompleted = true →
      Silent y { y with timeout := .lostUnlock }
  | win {y : Wait ι μ δ} : y.timeout = .exchange → y.mAwaiterCompleted = false →
      Silent y { y with
        mAwaiterCompleted := true
        winner := some .timeout
        timeout := .setStatus }
  | setStatus {y : Wait ι μ δ} : y.timeout = .setStatus →
      Silent y { y with mStatus := some .timeout, timeout := .wonUnlock }
  | wonUnlock {y : Wait ι μ δ} : y.timeout = .wonUnlock →
      Silent y { y with eventOwner := none, timeout := .lock }
  | lostUnlock {y : Wait ι μ δ} : y.timeout = .lostUnlock →
      Silent y { y with eventOwner := none, timeout := .done }
  | stop {y : Wait ι μ δ} : Silent y { y with stopRequested := true }

/-- A step of the tasks of a wait. -/
inductive Move : Wait ι μ δ → Wait ι μ δ → Prop
  | silent {y y' : Wait ι μ δ} : Silent y y' → Move y y'
  | push {y : Wait ι μ δ} : y.controller = .push → Move y { y with controller := .unlock }
  | unlock {y : Wait ι μ δ} : y.controller = .unlock →
      Move y { y with controller := if y.timed then .startCallback else .done }
  | lock {y : Wait ι μ δ} : y.timeout = .lock → Move y { y with timeout := .evaluate }
  | evaluate {y : Wait ι μ δ} {r : Bool} : y.timeout = .evaluate →
      Move y { y with mPredicateResult := r, timeout := .resume }
  | resumeNotified {y : Wait ι μ δ} : y.callback = .resuming →
      Move y { y with callback := .done }.resume
  | resumeTimedOut {y : Wait ι μ δ} : y.timeout = .resume →
      Move y { y with timeout := .done }.resume

/-! ## The tasks of the wait -/

section Tasks

variable {y y' : Wait ι μ δ}

/-- A timeout task that runs belongs to a timed wait whose controller is done. -/
lemma Started.of_timeout (h : Started y) (ht : y.timeout ≠ .notStarted) :
    y.controller = .done ∧ y.timed = true := by
  unfold Started at h
  cases hc : y.controller <;> simp_all

/-- A callback task that runs belongs to a timed wait that is starting the timeout task or has done
so. -/
lemma Started.of_callback (h : Started y) (ht : y.callback ≠ .notStarted) :
    (y.controller = .startTimeout ∧ y.timeout = .notStarted ∨ y.controller = .done) ∧
      y.timed = true := by
  unfold Started at h
  cases hc : y.controller <;> simp_all

/-- Once the controller of a timed wait is done the other tasks are free to run. -/
lemma Started.of_done (hc : y.controller = .done) (ht : y.timed = true) : Started y := by
  simp [Started, hc, ht]

namespace Race

/-- The race as the timeout task has decided it. -/
lemma of_timeout (hw : y.winner = some .timeout) (hc : y.mAwaiterCompleted = true)
    (hr : (y.timeout.Won ∧ y.resumptions = 0) ∨ (y.timeout = .done ∧ y.resumptions = 1))
    (hs : (y.timeout = .setStatus ∧ y.mNotifyCallback = false ∧ y.mStatus = none) ∨
      y.mStatus = some .timeout) : Race y :=
  ⟨by simp [hw], fun _ => ⟨hc, hr, hs⟩, by simp [hw]⟩

/-- The race as a notifier has decided it. -/
lemma of_notify (hw : y.winner = some .notify) (hc : y.mAwaiterCompleted = true)
    (ht : ¬ y.timeout.Won)
    (hr : (y.callback ≠ .done ∧ y.resumptions = 0) ∨ (y.callback = .done ∧ y.resumptions = 1))
    (hs : (y.mNotifyCallback = false ∧ y.mStatus = none) ∨ y.mStatus = some .noTimeout) : Race y :=
  ⟨by simp [hw], by simp [hw], fun _ => ⟨hc, ht, hr, hs⟩⟩

/-- A timeout task that is still competing has not won. -/
lemma not_timeout (h : Race y) (hwon : ¬ y.timeout.Won) (hdone : y.timeout ≠ .done) :
    y.winner ≠ some .timeout := by
  intro hw
  obtain ⟨-, ⟨h1, -⟩ | ⟨h1, -⟩, -⟩ := h.by_timeout hw
  · exact hwon h1
  · exact hdone h1

/-- The timeout task goes from one point where it competes, or has given up, to another. -/
lemma setTimeout (h : Race y) (t : Timeout) (hwon : ¬ y.timeout.Won) (hdone : y.timeout ≠ .done)
    (ht : ¬ t.Won) : Race { y with timeout := t } where
  undecided := h.undecided
  by_timeout hw := (h.not_timeout hwon hdone hw).elim
  by_notify hw := by
    obtain ⟨hc, -, hr⟩ := h.by_notify hw
    exact ⟨hc, ht, hr⟩

/-- The controller goes on. -/
lemma setController (h : Race y) (k : Controller) (hc : y.controller ≠ .ready) :
    Race { y with controller := k } where
  undecided hw := by
    obtain ⟨h1, h2, h3, h4⟩ := h.undecided hw
    exact ⟨h1, h2, h3, fun _ => h4 hc⟩
  by_timeout := h.by_timeout
  by_notify := h.by_notify

/-- The callback task goes on without being done. -/
lemma setCallback (h : Race y) (k : Callback) (hc : y.callback ≠ .done) (hk : k ≠ .done) :
    Race { y with callback := k } where
  undecided := h.undecided
  by_timeout := h.by_timeout
  by_notify hw := by
    obtain ⟨h1, h2, ⟨-, hr⟩ | ⟨hdone, -⟩, hs⟩ := h.by_notify hw
    · exact ⟨h1, h2, Or.inl ⟨hk, hr⟩, hs⟩
    · exact (hc hdone).elim

/-- The winner of a race that the status names. -/
lemma winner_of_status (h : Race y) {st : CvStatus} (hr : y.controller ≠ .ready)
    (hs : y.mStatus = some st) :
    y.winner = some (match st with | .noTimeout => .notify | .timeout => .timeout) := by
  cases hw : y.winner with
  | none =>
    rw [(h.undecided hw).2.2.2 hr] at hs
    cases hs
  | some p =>
    cases p with
    | notify =>
      obtain ⟨-, -, -, ⟨-, hn⟩ | hn⟩ := h.by_notify hw <;> rw [hn] at hs <;> cases hs
      rfl
    | timeout =>
      obtain ⟨-, -, ⟨-, -, hn⟩ | hn⟩ := h.by_timeout hw <;> rw [hn] at hs <;> cases hs
      rfl

end Race

/-- The timeout task has won and not yet resumed the caller. -/
lemma Coherent.of_won (h : Coherent y) (ht : y.timeout.Won) :
    y.winner = some .timeout ∧ y.mAwaiterCompleted = true ∧ y.resumptions = 0 ∧
      (y.timeout ≠ .setStatus → y.mStatus = some .timeout) := by
  have hw : y.winner = some .timeout := by
    have hk := h.timeout
    unfold TimeoutKnows at hk
    cases hy : y.timeout <;> simp_all
  obtain ⟨hc, ⟨-, hr⟩ | ⟨hdone, -⟩, hs⟩ := h.race.by_timeout hw
  · refine ⟨hw, hc, hr, fun hne => ?_⟩
    rcases hs with ⟨hset, -⟩ | hs
    · exact (hne hset).elim
    · exact hs
  · rw [hdone] at ht
    exact ht.elim

/-- A wait that is not completed has no winner. -/
lemma Coherent.winner_eq_none (h : Coherent y) (hc : y.mAwaiterCompleted = false) :
    y.winner = none := by
  cases hw : y.winner with
  | none => rfl
  | some p =>
    cases p with
    | notify => simp [(h.race.by_notify hw).1] at hc
    | timeout => simp [(h.race.by_timeout hw).1] at hc

/-- The callback task is started. -/
lemma Coherent.start_callback (h : Coherent y) (hc : y.controller = .startCallback) :
    Coherent { y with
      controller := .startTimeout
      callback := if y.mNotifyCallback then .ready else .waitingEvent } := by
  have hst := h.started
  simp only [Started, hc] at hst
  refine ⟨⟨hst.1, hst.2.2⟩, h.untimed, ?_, h.timeout, ?_, h.returned⟩
  · refine (h.race.setController .startTimeout (by simp [hc])).setCallback _ (by simp [hst.2.1]) ?_
    split <;> simp
  · cases y.mNotifyCallback <;> simp [CallbackKnows]

/-- The callback task resumes the caller. -/
lemma Coherent.resume_notified (h : Coherent y) (hc : y.callback = .resuming) :
    Coherent { y with callback := .done }.resume := by
  have hk := h.callback
  simp only [CallbackKnows, hc] at hk
  obtain ⟨hcompleted, hwon, hr, hs⟩ := h.race.by_notify hk.2
  have hzero : y.resumptions = 0 := by
    rcases hr with ⟨-, hr⟩ | ⟨hdone, -⟩
    · exact hr
    · rw [hc] at hdone
      cases hdone
  have hstatus : y.mStatus = some .noTimeout := by
    rcases hs with ⟨he, -⟩ | hs
    · rw [hk.1] at he
      cases he
    · exact hs
  obtain ⟨hctl, htimed⟩ := h.started.of_callback (by simp [hc])
  refine ⟨?_, h.untimed, .of_notify hk.2 hcompleted hwon (Or.inr ⟨rfl, ?_⟩) hs, h.timeout, hk.1, ?_⟩
  · rcases hctl with ⟨hctl, ht⟩ | hctl
    · simp [Started, Wait.resume, hctl, ht, htimed]
    · exact .of_done hctl htimed
  · simp [Wait.resume, hzero]
  · intro _ _
    exact ⟨y.mPredicateResult, by simp [Wait.resume, hstatus, hk.2]⟩

/-- The timeout task resumes the caller. -/
lemma Coherent.resume_timedOut (h : Coherent y) (ht : y.timeout = .resume) :
    Coherent { y with timeout := .done }.resume := by
  obtain ⟨hw, hcompleted, hzero, hs⟩ := h.of_won (by simp [ht])
  have hstatus : y.mStatus = some .timeout := hs (by simp [ht])
  obtain ⟨hctl, htimed⟩ := h.started.of_timeout (by simp [ht])
  refine ⟨.of_done hctl htimed, h.untimed, .of_timeout hw hcompleted (Or.inr ⟨rfl, ?_⟩)
    (Or.inr hstatus), trivial, h.callback, ?_⟩
  · simp [Wait.resume, hzero]
  · intro _ _
    exact ⟨y.mPredicateResult, by simp [Wait.resume, hstatus, hw]⟩

/-- The timeout task wins the race. -/
lemma Coherent.win (h : Coherent y) (ht : y.timeout = .exchange)
    (hc : y.mAwaiterCompleted = false) :
    Coherent { y with
      mAwaiterCompleted := true
      winner := some .timeout
      timeout := .setStatus } := by
  obtain ⟨hctl, htimed⟩ := h.started.of_timeout (by simp [ht])
  have hk := h.timeout
  simp only [TimeoutKnows, ht] at hk
  have hw := h.winner_eq_none hc
  obtain ⟨-, he, hr, hs⟩ := h.race.undecided hw
  refine ⟨.of_done hctl htimed, ?_, ?_, ⟨hk, rfl⟩, ?_, ?_⟩
  · intro hf
    rw [htimed] at hf
    cases hf
  · exact .of_timeout rfl rfl (Or.inl ⟨trivial, hr htimed⟩)
      (Or.inl ⟨rfl, he, hs (by simp [hctl])⟩)
  · have hcb := h.callback
    unfold CallbackKnows at hcb ⊢
    cases hy : y.callback <;> simp_all
  · intro _ (hpos : 0 < y.resumptions)
    have hzero := hr htimed
    omega

/-- The timeout task has won and goes on to resume the caller. -/
lemma Coherent.go_on (h : Coherent y) (ht : y.timeout.Won) (hne : y.timeout ≠ .setStatus)
    {t : Timeout} (hnext : t = .lock ∨ t = .evaluate ∨ t = .resume) (e : Option (Party ι))
    (r : Bool) : Coherent { y with eventOwner := e, mPredicateResult := r, timeout := t } := by
  have hstarted : y.timeout ≠ .notStarted := by
    intro hn
    simp [hn] at ht
  obtain ⟨hctl, htimed⟩ := h.started.of_timeout hstarted
  obtain ⟨hw, hc, hr, hs⟩ := h.of_won ht
  have hwon : t.Won := by rcases hnext with rfl | rfl | rfl <;> trivial
  refine ⟨.of_done hctl htimed, h.untimed, .of_timeout hw hc (Or.inl ⟨hwon, hr⟩) (Or.inr (hs hne)),
    ?_, h.callback, h.returned⟩
  rcases hnext with rfl | rfl | rfl <;> exact hw

/-- The silent steps of its tasks keep the flags of a wait and their control points in agreement. -/
lemma Coherent.silent (h : Coherent y) (hm : Silent y y') : Coherent y' := by
  cases hm with
  | startCallback hc => exact h.start_callback hc
  | startTimeout hc =>
    have hst := h.started
    simp only [Started, hc] at hst
    have hrace := h.race.setTimeout .sleeping (by simp [hst.2]) (by simp [hst.2]) id
    exact ⟨.of_done rfl hst.1, h.untimed, hrace.setController .done (by simp [hc]), trivial,
      h.callback, h.returned⟩
  | notified hc hs =>
    have hk := h.callback
    simp only [CallbackKnows, hc] at hk
    obtain ⟨hctl, htimed⟩ := h.started.of_callback (by simp [hc])
    have hw := h.race.winner_of_status (by rcases hctl with ⟨h, -⟩ | h <;> simp [h]) hs
    refine ⟨?_, h.untimed, h.race.setCallback .resuming (by simp [hc]) (by simp), h.timeout,
      ⟨hk, hw⟩, h.returned⟩
    rcases hctl with ⟨hctl, ht⟩ | hctl
    · simp [Started, hctl, ht, htimed]
    · exact .of_done hctl htimed
  | ignored hc hs =>
    have hk := h.callback
    simp only [CallbackKnows, hc] at hk
    obtain ⟨hctl, htimed⟩ := h.started.of_callback (by simp [hc])
    have hw := h.race.winner_of_status (by rcases hctl with ⟨h, -⟩ | h <;> simp [h]) hs
    obtain ⟨hcompleted, hr, -⟩ := h.race.by_timeout hw
    refine ⟨?_, h.untimed, .of_timeout hw hcompleted hr (Or.inr hs), h.timeout, hk, h.returned⟩
    rcases hctl with ⟨hctl, ht⟩ | hctl
    · simp [Started, hctl, ht, htimed]
    · exact .of_done hctl htimed
  | fire ht =>
    obtain ⟨hctl, htimed⟩ := h.started.of_timeout (by simp [ht])
    exact ⟨.of_done hctl htimed, h.untimed,
      h.race.setTimeout .eventLock (by simp [ht]) (by simp [ht]) id, trivial,
      h.callback, h.returned⟩
  | eventLock ht he =>
    obtain ⟨hctl, htimed⟩ := h.started.of_timeout (by simp [ht])
    have hrace := h.race.setTimeout .exchange (by simp [ht]) (by simp [ht]) id
    exact ⟨.of_done hctl htimed, h.untimed, { hrace with },
      rfl, h.callback, h.returned⟩
  | lose ht hcompleted =>
    have hk := h.timeout
    simp only [TimeoutKnows, ht] at hk
    obtain ⟨hctl, htimed⟩ := h.started.of_timeout (by simp [ht])
    have hwon : ¬ y.timeout.Won := by simp [ht]
    have hw : y.winner = some .notify := by
      cases hw : y.winner with
      | none =>
        rw [(h.race.undecided hw).1] at hcompleted
        cases hcompleted
      | some p =>
        cases p with
        | notify => rfl
        | timeout => exact (h.race.not_timeout hwon (by simp [ht]) hw).elim
    exact ⟨.of_done hctl htimed, h.untimed, h.race.setTimeout .lostUnlock hwon (by simp [ht]) id,
      ⟨hk, hw⟩, h.callback, h.returned⟩
  | win ht hcompleted => exact h.win ht hcompleted
  | setStatus ht =>
    have hk := h.timeout
    simp only [TimeoutKnows, ht] at hk
    obtain ⟨hctl, htimed⟩ := h.started.of_timeout (by simp [ht])
    obtain ⟨hw, hc, hr, -⟩ := h.of_won (by simp [ht])
    exact ⟨.of_done hctl htimed, h.untimed, .of_timeout hw hc (Or.inl ⟨trivial, hr⟩) (Or.inr rfl),
      hk, h.callback, h.returned⟩
  | wonUnlock ht => exact h.go_on (by simp [ht]) (by simp [ht]) (.inl rfl) _ _
  | lostUnlock ht =>
    obtain ⟨hctl, htimed⟩ := h.started.of_timeout (by simp [ht])
    have hrace := h.race.setTimeout .done (by simp [ht]) (by simp [ht]) id
    exact ⟨.of_done hctl htimed, h.untimed, { hrace with },
      trivial, h.callback, h.returned⟩
  | stop =>
    exact { h with race := { h.race with } }

/-- The tasks of a wait keep its flags and their control points in agreement. -/
lemma Coherent.move (h : Coherent y) (hm : Move y y') : Coherent y' := by
  cases hm with
  | silent hm => exact h.silent hm
  | push hc =>
    have hst := h.started
    simp only [Started, hc] at hst
    exact ⟨⟨hst.1, hst.2.1⟩, h.untimed, h.race.setController _ (by simp [hc]), h.timeout,
      h.callback, h.returned⟩
  | unlock hc =>
    have hst := h.started
    simp only [Started, hc] at hst
    refine ⟨?_, h.untimed, h.race.setController _ (by simp [hc]), h.timeout, h.callback, h.returned⟩
    cases ht : y.timed <;> simp [Started, hst]
  | lock ht => exact h.go_on (by simp [ht]) (by simp [ht]) (.inr (.inl rfl)) _ _
  | evaluate ht => exact h.go_on (by simp [ht]) (by simp [ht]) (.inr (.inr rfl)) _ _
  | resumeNotified hc => exact h.resume_notified hc
  | resumeTimedOut ht => exact h.resume_timedOut ht

/-- What a notifier knows depends on the race alone. -/
lemma Fits.congr {c : ι} {st : Stage} (hf : Fits c st y) (ht : y'.timed = y.timed)
    (he : y'.eventOwner = y.eventOwner) (hw : y'.winner = y.winner) (hs : y'.mStatus = y.mStatus) :
    Fits c st y' := by
  unfold Fits at hf ⊢
  rw [ht, he, hw, hs]
  exact hf

/-- What a notifier knows does not become outdated by the silent steps of the tasks. -/
lemma Fits.silent {c : ι} {st : Stage} (hf : Fits c st y) (h : Coherent y) (hm : Silent y y') :
    Fits c st y' := by
  have hk := h.timeout
  unfold TimeoutKnows at hk
  cases hm with
  | eventLock ht he | win ht hc | wonUnlock ht | lostUnlock ht => cases st <;> simp_all [Fits]
  | setStatus ht =>
    rw [ht] at hk
    have hnot : y.mStatus ≠ some .noTimeout := by
      rcases (h.race.by_timeout hk.2).2.2 with ⟨-, -, hs⟩ | hs <;> simp [hs]
    cases st <;> simp_all [Fits]
  | _ => exact hf.congr rfl rfl rfl rfl

/-- What a notifier knows does not become outdated by the tasks of the wait. -/
lemma Fits.move {c : ι} {st : Stage} (hf : Fits c st y) (h : Coherent y) (hm : Move y y') :
    Fits c st y' := by
  cases hm with
  | silent hm => exact hf.silent h hm
  | _ => exact hf.congr rfl rfl rfl rfl

end Tasks

/-! ## A notifier in `on_notify` -/

/-- A step of the notifier `c` inside `on_notify`, from the stage `st` to the stage `st'`. -/
inductive Visit (c : ι) : Stage → Stage → Wait ι μ δ → Wait ι μ δ → Prop
  | eventLock {y : Wait ι μ δ} : y.eventOwner = none →
      Visit c .eventLock .eventTest y { y with eventOwner := some (.notifier c) }
  | dead {y : Wait ι μ δ} : y.mAwaiterCompleted = true → Visit c .eventTest .deadUnlock y y
  | alive {y : Wait ι μ δ} : y.mAwaiterCompleted = false → Visit c .eventTest .lock y y
  | deadUnlock {y : Wait ι μ δ} : Visit c .deadUnlock .deadSet y { y with eventOwner := none }
  | lock {y : Wait ι μ δ} : Visit c .lock .evaluate y y
  | readyTimed {y : Wait ι μ δ} {r : Bool} : y.timed = true →
      Visit c .evaluate .complete y { y with mPredicateResult := r }
  | readyUntimed {y : Wait ι μ δ} {r : Bool} : y.timed = false →
      Visit c .evaluate .resume y { y with mPredicateResult := r }
  | reject {y : Wait ι μ δ} {r : Bool} :
      Visit c .evaluate .notReady y { y with mPredicateResult := r }
  | complete {y : Wait ι μ δ} :
      Visit c .complete .setStatus y { y with mAwaiterCompleted := true, winner := some .notify }
  | setStatus {y : Wait ι μ δ} :
      Visit c .setStatus .unlock y { y with mStatus := some .noTimeout }
  | unlock {y : Wait ι μ δ} : Visit c .unlock .set y { y with eventOwner := none }
  | releaseTimed {y : Wait ι μ δ} : y.timed = true → Visit c .notReady .eventUnlock y y
  | releaseUntimed {y : Wait ι μ δ} : y.timed = false → Visit c .notReady .requeue y y
  | eventUnlock {y : Wait ι μ δ} : Visit c .eventUnlock .requeue y { y with eventOwner := none }

section Notifier

variable {y y' : Wait ι μ δ} {c : ι} {st st' : Stage}

/-- The awaiter has been pushed. -/
def Wait.Pushed (y : Wait ι μ δ) : Prop :=
  y.controller ≠ .idle ∧ y.controller ≠ .ready ∧ y.controller ≠ .push

/-- The event mutex changes hands between notifiers. -/
lemma Coherent.setEventOwner (h : Coherent y) (hne : y.eventOwner ≠ some .timeout)
    (e : Option (Party ι)) : Coherent { y with eventOwner := e } := by
  refine { h with race := { h.race with }, timeout := ?_ }
  have hk := h.timeout
  unfold TimeoutKnows at hk ⊢
  cases ht : y.timeout <;> simp_all

/-- An evaluation leaves its result. -/
lemma Coherent.setPredicateResult (h : Coherent y) (r : Bool) :
    Coherent { y with mPredicateResult := r } :=
  { h with race := { h.race with } }

/-- A notifier wins the race. -/
lemma Coherent.complete (h : Coherent y) (hp : y.Pushed) (hf : Fits c .complete y) :
    Coherent { y with mAwaiterCompleted := true, winner := some .notify } := by
  obtain ⟨htimed, he, hw⟩ := hf
  obtain ⟨-, hevent, hr, hs⟩ := h.race.undecided hw
  have hwon : ¬ y.timeout.Won := fun ht => by simp [(h.of_won ht).1] at hw
  have hdone : y.callback ≠ .done := by
    intro hc
    have hk := h.callback
    simp [CallbackKnows, hc, hevent] at hk
  refine ⟨?_, ?_, ?_, ?_, ?_, ?_⟩
  · have hst := h.started
    unfold Started at hst ⊢
    cases hc : y.controller <;> simp_all [Wait.Pushed]
  · intro hf
    rw [htimed] at hf
    cases hf
  · exact .of_notify rfl rfl hwon (Or.inl ⟨hdone, hr htimed⟩) (Or.inl ⟨hevent, hs hp.2.1⟩)
  · have hk := h.timeout
    unfold TimeoutKnows at hk ⊢
    cases ht : y.timeout <;> simp_all
  · have hk := h.callback
    unfold CallbackKnows at hk ⊢
    cases hc : y.callback <;> simp_all
  · intro _ (hpos : 0 < y.resumptions)
    have hzero := hr htimed
    omega

/-- The event is set, when the race is decided and the status written. -/
lemma Coherent.set (h : Coherent y) (hp : y.Pushed) {v : CvStatus} (hs : y.mStatus = some v) :
    Coherent y.set := by
  have hw := h.race.winner_of_status hp.2.1 hs
  refine ⟨?_, h.untimed, ⟨?_, ?_, ?_⟩, h.timeout, ?_, h.returned⟩
  · have hst := h.started
    unfold Started at hst ⊢
    unfold Wait.set
    cases hc : y.controller <;> simp_all
  · intro hn
    simp [Wait.set, hw] at hn
  · intro hw
    obtain ⟨h1, h2, ⟨-, -, h3⟩ | h3⟩ := h.race.by_timeout hw
    · rw [hs] at h3
      cases h3
    · exact ⟨h1, h2, Or.inr h3⟩
  · intro hw
    obtain ⟨h1, h2, h3, ⟨-, h4⟩ | h4⟩ := h.race.by_notify hw
    · rw [hs] at h4
      cases h4
    · refine ⟨h1, h2, ?_, Or.inr h4⟩
      cases hc : y.callback <;> simp_all [Wait.set]
  · have hk := h.callback
    unfold CallbackKnows at hk ⊢
    cases hc : y.callback <;> simp_all [Wait.set]

/-- An untimed awaiter resumes its caller. -/
lemma Coherent.resume_untimed (h : Coherent y) (hp : y.Pushed) (ht : y.timed = false) :
    Coherent y.resume := by
  have hw := h.untimed ht
  obtain ⟨h1, h2, -, h4⟩ := h.race.undecided hw
  refine ⟨?_, h.untimed, ⟨?_, ?_, ?_⟩, h.timeout, h.callback, ?_⟩
  · have hst := h.started
    unfold Started at hst ⊢
    cases hc : y.controller <;> simp_all [Wait.Pushed, Wait.resume]
  · intro _
    exact ⟨h1, h2, by simp [Wait.resume, ht], h4⟩
  · intro hn
    simp [Wait.resume, hw] at hn
  · intro hn
    simp [Wait.resume, hw] at hn
  · intro hf
    simp [Wait.resume, ht] at hf

/-- A notifier keeps the flags of a wait and the control points of its tasks in agreement. -/
lemma Coherent.visit (h : Coherent y) (hp : y.Pushed) (hf : Fits c st y)
    (hv : Visit c st st' y y') : Coherent y' := by
  cases hv with
  | eventLock he => exact h.setEventOwner (by simp [he]) _
  | dead | alive | lock | releaseTimed | releaseUntimed => exact h
  | deadUnlock | unlock => exact h.setEventOwner (by simp [hf.1]) _
  | readyTimed | readyUntimed | reject => exact h.setPredicateResult _
  | complete => exact h.complete hp hf
  | setStatus =>
    obtain ⟨hc, hwon, hr, -⟩ := h.race.by_notify hf.2
    exact { h with race := .of_notify hf.2 hc hwon hr (Or.inr rfl) }
  | eventUnlock => exact h.setEventOwner (by simp [hf.2.2]) _

/-- A notifier that finds a wait completed finds it timed out, and its status written. -/
lemma Coherent.status_of_dead (h : Coherent y) (hf : Fits c .eventTest y)
    (hc : y.mAwaiterCompleted = true) : y.mStatus = some .timeout := by
  obtain ⟨-, hnot, he⟩ := hf
  have hw : y.winner = some .timeout := by
    cases hw : y.winner with
    | none => simp [(h.race.undecided hw).1] at hc
    | some p => cases p <;> simp_all
  obtain ⟨-, -, ⟨hset, -⟩ | hs⟩ := h.race.by_timeout hw
  · have hk := h.timeout
    simp [TimeoutKnows, hset, he] at hk
  · exact hs

/-- What a notifier knows after its step. -/
lemma Fits.visit (hf : Fits c st y) (h : Coherent y) (hv : Visit c st st' y y') :
    Fits c st' y' := by
  cases hv with
  | eventLock _ => exact ⟨hf.1, hf.2, rfl⟩
  | dead hc => exact ⟨hf.2.2, h.status_of_dead hf hc⟩
  | alive hc => exact fun _ => ⟨hf.2.2, h.winner_eq_none hc⟩
  | deadUnlock | unlock => exact hf.2
  | lock | reject => exact hf
  | readyTimed ht => exact ⟨ht, hf ht⟩
  | readyUntimed ht => exact ht
  | complete => exact ⟨hf.2.1, rfl⟩
  | setStatus => exact ⟨hf.1, rfl⟩
  | releaseTimed ht => exact ⟨ht, by simp [(hf ht).2], (hf ht).1⟩
  | releaseUntimed ht =>
    have hw := h.untimed ht
    simp [Fits, hw]
  | eventUnlock => exact hf.2.1

end Notifier

end Libcoro.TimedWait
