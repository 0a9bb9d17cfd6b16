import Libcoro.TimedWait.Record

/-!
# The transitions of the system of timed waits

Every step of the system is a step of user code, of the tasks of one wait (`Silent`, or one that
also concerns the list or the mutex of the user), of a notifier inside `on_notify` (`Visit`), or of
a notifier between two awaiters.
-/

namespace Libcoro.TimedWait

open Foundations ConditionVariable Function

variable {ι ω μ δ : Type*}

/-- The steps that only move the control point, from the first argument to the second. -/
inductive Quiet (s : State ι ω μ δ) : Pc ω → Pc ω → Prop
  | begin : Quiet s .unused .running
  | notifyOne : Quiet s .running .notifyOne
  | notifyAll : Quiet s .running .notifyAll
  | notifyAllExecutor : Quiet s .running .notifyAllExecutor
  | popNone : s.mAwaiters = [] → Quiet s .notifyOne .running
  | notified : Quiet s (.notifying []) .running
  | next {w : ω} {ws : List ω} : Quiet s (.notifying (w :: ws)) (s.visit w (some ws))
  | spawned : Quiet s (.spawning []) .running

/-- How the two overloads of `notify_all` go on with the awaiters that they have detached. -/
inductive Detaches (ws : List ω) : Pc ω → Pc ω → Prop
  | notifyAll : Detaches ws .notifyAll (.notifying ws)
  | notifyAllExecutor : Detaches ws .notifyAllExecutor (.spawning ws)

/-- The two ways to leave `on_notify` by setting the event. -/
inductive Leaves (k : Option (List ω)) : Stage → Pc ω → Prop
  | dead : Leaves k .deadSet (.again k)
  | notified : Leaves k .set (.after k)

/-- A notifier holds the mutex of the user in this stage. -/
def Stage.Locked : Stage → Prop
  | .evaluate | .complete | .notReady | .resume => True
  | _ => False

/-- `m_predicate_result` is the value of the predicate on the data `d`, if there is a predicate. -/
def Wait.Agrees (y : Wait ι μ δ) (d : δ) : Prop :=
  ∀ p, predicate y.awaiter = some p → y.mPredicateResult = p d

/-- Evaluating a timed hook leaves the value of its predicate. -/
lemma agrees_evaluated {y : Wait ι μ δ} {d : δ} (ht : y.timed = true) :
    ({ y with mPredicateResult := y.evaluated d } : Wait ι μ δ).Agrees d := by
  intro p hp
  simp only at hp
  simp [Wait.evaluated, ht, hp]

variable [DecidableEq ι] [DecidableEq ω] [DecidableEq μ]

/-- What a step can do. -/
inductive Transition (s : State ι ω μ δ) : State ι ω μ δ → Prop
  | quiet {c : ι} {p : Pc ω} : Quiet s (s.pc c) p → Transition s (s.goto c p)
  | lock {c : ι} {m : μ} : s.pc c = .running → s.owner m = none →
      Transition s (s.setOwner m (some (.coroutine c)))
  | unlock {c : ι} {m : μ} : s.pc c = .running → s.owner m = some (.coroutine c) →
      Transition s (s.setOwner m none)
  | write {c : ι} {m : μ} {d : δ} : s.pc c = .running → s.owner m = some (.coroutine c) →
      Transition s { s with data := update s.data m d }
  | wait {c : ι} {w : ω} {m : μ} {timed : Bool} {a : Awaiter δ} {stop : Bool} :
      s.pc c = .running → s.owner m = some (.coroutine c) → (s.wait w).controller = .idle →
      Transition s (wait s c w m timed a stop)
  | silent {w : ω} {y : Wait ι μ δ} : Silent (s.wait w) y → Transition s (s.setWait w y)
  | push {w : ω} : (s.wait w).controller = .push →
      Transition s { s.setWait w { s.wait w with controller := .unlock } with
        mAwaiters := w :: s.mAwaiters }
  | suspend {w : ω} : (s.wait w).controller = .unlock →
      Transition s ((s.setWait w { s.wait w with
        controller := if (s.wait w).timed then .startCallback else .done }).setOwner
          (s.wait w).mutex none)
  | timeoutLock {w : ω} : (s.wait w).timeout = .lock → s.owner (s.wait w).mutex = none →
      Transition s ((s.setWait w { s.wait w with timeout := .evaluate }).setOwner
        (s.wait w).mutex (some (.wait w)))
  | timeoutEvaluate {w : ω} : (s.wait w).timeout = .evaluate →
      Transition s (s.setWait w { s.wait w with
        mPredicateResult := (s.wait w).timedOut (s.data (s.wait w).mutex)
        timeout := .resume })
  | resumeNotified {w : ω} : (s.wait w).callback = .resuming →
      Transition s (s.resume w { s.wait w with callback := .done })
  | resumeTimedOut {w : ω} : (s.wait w).timeout = .resume →
      Transition s (s.resume w { s.wait w with timeout := .done })
  | popOne {c : ι} {w : ω} {ws : List ω} : s.pc c = .notifyOne → s.mAwaiters = w :: ws →
      Transition s { s.goto c (s.visit w none) with mAwaiters := ws }
  | popAll {c : ι} {p : Pc ω} : Detaches s.mAwaiters (s.pc c) p →
      Transition s { s.goto c p with mAwaiters := [] }
  | spawn {c k : ι} {w : ω} {ws : List ω} : s.pc c = .spawning (w :: ws) → s.pc k = .unused →
      Transition s ((s.goto k (s.visit w (some []))).goto c (.spawning ws))
  | refuse {c : ι} {w : ω} {ws : List ω} : s.pc c = .spawning (w :: ws) →
      Transition s { s.goto c (.spawning ws) with lost := w :: s.lost }
  | visit {c : ι} {st st' : Stage} {w : ω} {k : Option (List ω)} {y : Wait ι μ δ} :
      s.pc c = .hook st w k → Visit c st st' (s.wait w) y → (st'.Locked → st.Locked) →
      y.winner = (s.wait w).winner →
      (st' = .complete → y.Agrees (s.data (s.wait w).mutex)) →
      Transition s ((s.setWait w y).goto c (.hook st' w k))
  | hookLock {c : ι} {w : ω} {k : Option (List ω)} : s.pc c = .hook .lock w k →
      s.owner (s.wait w).mutex = none →
      Transition s ((s.setOwner (s.wait w).mutex (some (.coroutine c))).goto c
        (.hook .evaluate w k))
  | complete {c : ι} {w : ω} {k : Option (List ω)} : s.pc c = .hook .complete w k →
      Transition s (((s.setWait w { s.wait w with
        mAwaiterCompleted := true
        winner := some .notify }).setOwner (s.wait w).mutex (some (.wait w))).goto c
          (.hook .setStatus w k))
  | hookUnlock {c : ι} {st : Stage} {w : ω} {k : Option (List ω)} : s.pc c = .hook .notReady w k →
      Visit c .notReady st (s.wait w) (s.wait w) → ¬ st.Locked →
      Transition s ((s.setOwner (s.wait w).mutex none).goto c (.hook st w k))
  | leave {c : ι} {st : Stage} {w : ω} {k : Option (List ω)} {p : Pc ω} :
      s.pc c = .hook st w k → Leaves k st p →
      Transition s ((s.setWait w (s.wait w).set).goto c p)
  | requeue {c : ι} {w : ω} {k : Option (List ω)} : s.pc c = .hook .requeue w k →
      Transition s { s.goto c (.after k) with mAwaiters := w :: s.mAwaiters }
  | resume {c : ι} {w : ω} {k : Option (List ω)} : s.pc c = .hook .resume w k →
      Transition s ((s.resume w (s.wait w)).goto c (.after k))

variable {s t : State ι ω μ δ} {c : ι} {w : ω}

omit [DecidableEq ι] [DecidableEq μ] in
/-- Replacing a wait by itself does nothing. -/
@[simp] lemma State.setWait_self (s : State ι ω μ δ) (w : ω) : s.setWait w (s.wait w) = s := by
  simp

/-- Every step of a notifier inside `on_notify` is one of the listed transitions. -/
lemma onNotify_transition {st : Stage} {k : Option (List ω)} (hc : s.pc c = .hook st w k)
    (h : onNotify s c st w k = some t) : Transition s t := by
  cases st with simp only [onNotify] at h
  | eventLock =>
    split_ifs at h with he
    cases h
    exact .visit hc (.eventLock he) id rfl (fun hst => by cases hst)
  | eventTest =>
    cases h
    split
    · next hcompleted =>
      have hvisit := Transition.visit hc (.dead hcompleted) id rfl (fun hst => by cases hst)
      rwa [s.setWait_self] at hvisit
    · next hcompleted =>
      have halive : (s.wait w).mAwaiterCompleted = false := by simpa using hcompleted
      have hvisit := Transition.visit hc (.alive halive) id rfl (fun hst => by cases hst)
      rwa [s.setWait_self] at hvisit
  | deadUnlock =>
    cases h
    exact .visit hc .deadUnlock id rfl (fun hst => by cases hst)
  | deadSet =>
    cases h
    exact .leave hc .dead
  | lock =>
    split_ifs at h with hfree
    cases h
    exact .hookLock hc hfree
  | evaluate =>
    cases h
    split
    · split
      · next ht => exact .visit hc (.readyTimed ht) id rfl (fun _ => agrees_evaluated ht)
      · next ht =>
        exact .visit hc (.readyUntimed (by simpa using ht)) id rfl (fun hst => by cases hst)
    · exact .visit hc .reject id rfl (fun hst => by cases hst)
  | complete =>
    cases h
    exact .complete hc
  | setStatus =>
    cases h
    exact .visit hc .setStatus id rfl (fun hst => by cases hst)
  | unlock =>
    cases h
    exact .visit hc .unlock id rfl (fun hst => by cases hst)
  | set =>
    cases h
    exact .leave hc .notified
  | notReady =>
    cases h
    split
    · next ht => exact .hookUnlock hc (.releaseTimed ht) id
    · next ht => exact .hookUnlock hc (.releaseUntimed (by simpa using ht)) id
  | eventUnlock =>
    cases h
    exact .visit hc .eventUnlock id rfl (fun hst => by cases hst)
  | requeue =>
    cases h
    exact .requeue hc
  | resume =>
    cases h
    exact .resume hc

/-- Every step of a coroutine inside a notify call is one of the listed transitions. -/
lemma advance_transition (h : advance s c = some t) : Transition s t := by
  unfold advance at h
  split at h <;> rename_i hc
  · split at h <;> rename_i hws
    · cases h
      exact .quiet (hc ▸ .popNone hws)
    · cases h
      exact .popOne hc hws
  · cases h
    exact .popAll (hc ▸ .notifyAll)
  · cases h
    exact .popAll (hc ▸ .notifyAllExecutor)
  · cases h
    exact .quiet (hc ▸ .notified)
  · cases h
    exact .quiet (hc ▸ .next)
  · cases h
    exact .quiet (hc ▸ .spawned)
  · exact onNotify_transition hc h
  all_goals simp at h

/-- Every step of a controller task is one of the listed transitions. -/
lemma controller_transition (h : controller s w = some t) : Transition s t := by
  unfold controller at h
  dsimp only at h
  split at h <;> rename_i hc
  · cases h
    exact .push hc
  · cases h
    exact .suspend hc
  · cases h
    exact .silent (.startCallback hc)
  · cases h
    exact .silent (.startTimeout hc)
  all_goals simp at h

/-- Every step of a callback task is one of the listed transitions. -/
lemma callback_transition (h : callback s w = some t) : Transition s t := by
  unfold callback at h
  dsimp only at h
  split at h <;> rename_i hc
  · split at h <;> rename_i hs
    · cases h
      exact .silent (.notified hc hs)
    · cases h
      exact .silent (.ignored hc hs)
    · simp at h
  · cases h
    exact .resumeNotified hc
  all_goals simp at h

/-- Every step of a timeout task is one of the listed transitions. -/
lemma timeout_transition (h : timeout s w = some t) : Transition s t := by
  unfold timeout at h
  dsimp only at h
  split at h <;> rename_i ht
  · split_ifs at h with he
    cases h
    exact .silent (.eventLock ht he)
  · split_ifs at h with hcompleted
    · cases h
      exact .silent (.lose ht hcompleted)
    · cases h
      exact .silent (.win ht (by simpa using hcompleted))
  · cases h
    exact .silent (.setStatus ht)
  · cases h
    exact .silent (.wonUnlock ht)
  · split_ifs at h with hfree
    cases h
    exact .timeoutLock ht hfree
  · cases h
    exact .timeoutEvaluate ht
  · cases h
    exact .resumeTimedOut ht
  · cases h
    exact .silent (.lostUnlock ht)
  all_goals simp at h

/-- Every step of the system is one of the listed transitions. -/
lemma step_transition {a : Action ι ω μ δ} (h : step s a = some t) : Transition s t := by
  cases a with
  | begin c =>
    obtain ⟨hc, rfl⟩ : s.pc c = .unused ∧ s.goto c .running = t := by simpa [step] using h
    exact .quiet (hc ▸ .begin)
  | lock c m =>
    obtain ⟨⟨hc, hm⟩, rfl⟩ : (s.pc c = .running ∧ s.owner m = none) ∧
        s.setOwner m (some (.coroutine c)) = t := by simpa [step] using h
    exact .lock hc hm
  | unlock c m =>
    obtain ⟨⟨hc, hm⟩, rfl⟩ : (s.pc c = .running ∧ s.owner m = some (.coroutine c)) ∧
        s.setOwner m none = t := by simpa [step] using h
    exact .unlock hc hm
  | write c m d =>
    obtain ⟨⟨hc, hm⟩, rfl⟩ : (s.pc c = .running ∧ s.owner m = some (.coroutine c)) ∧
        { s with data := update s.data m d } = t := by simpa [step] using h
    exact .write hc hm
  | wait c w m timed a stop =>
    obtain ⟨⟨hc, hm, hw⟩, rfl⟩ : (s.pc c = .running ∧ s.owner m = some (.coroutine c) ∧
        (s.wait w).controller = .idle) ∧ wait s c w m timed a stop = t := by
      simpa [step] using h
    exact .wait hc hm hw
  | notifyOne c =>
    obtain ⟨hc, rfl⟩ : s.pc c = .running ∧ s.goto c .notifyOne = t := by simpa [step] using h
    exact .quiet (hc ▸ .notifyOne)
  | notifyAll c =>
    obtain ⟨hc, rfl⟩ : s.pc c = .running ∧ s.goto c .notifyAll = t := by simpa [step] using h
    exact .quiet (hc ▸ .notifyAll)
  | notifyAllExecutor c =>
    obtain ⟨hc, rfl⟩ : s.pc c = .running ∧ s.goto c .notifyAllExecutor = t := by
      simpa [step] using h
    exact .quiet (hc ▸ .notifyAllExecutor)
  | requestStop w =>
    cases h
    exact .silent .stop
  | spawn c k =>
    simp only [step, spawn] at h
    split at h
    · next hc hk =>
      cases h
      exact .spawn hc hk
    · simp at h
  | refuse c =>
    simp only [step, refuse] at h
    split at h
    · next hc =>
      cases h
      exact .refuse hc
    · simp at h
  | advance c => exact advance_transition h
  | controller w => exact controller_transition h
  | callback w => exact callback_transition h
  | timerFires w =>
    obtain ⟨ht, rfl⟩ : (s.wait w).timeout = .sleeping ∧
        s.setWait w { s.wait w with timeout := .eventLock } = t := by simpa [step] using h
    exact .silent (.fire ht)
  | timeout w => exact timeout_transition h

end Libcoro.TimedWait
