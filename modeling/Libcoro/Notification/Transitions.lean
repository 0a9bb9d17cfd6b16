import Libcoro.Notification.Model

/-!
# The transitions of a condition variable with an executor

Most steps only move one coroutine (`Quiet`); the others are the critical steps of a wait and of a
notification, the moves of user code, and the two answers of an executor.
-/

namespace Libcoro.Notification

open Foundations ConditionVariable Function

variable {ι μ δ : Type*}

/-- The steps that only move the control point, from the first argument to the second. -/
inductive Quiet (s : State ι μ δ) : Pc ι → Pc ι → Prop
  | begin : Quiet s .unused .running
  | notifyOne : Quiet s .running .notifyOne
  | notifyAll : Quiet s .running .notifyAll
  | notifyAllExecutor : Quiet s .running .notifyAllExecutor
  | notifyOneExecutor : Quiet s .unused .notifyOne
  | popNone : s.mAwaiters = [] → Quiet s .notifyOne .running
  | notified : Quiet s (.notifying []) .running
  | next {w : ι} {ws : List ι} : Quiet s (.notifying (w :: ws)) (.locking w ws)
  | spawned : Quiet s (.spawning []) .running

/-- How the two overloads of `notify_all` go on with the awaiters that they have detached. -/
inductive Detaches (ws : List ι) : Pc ι → Pc ι → Prop
  | notifyAll : Detaches ws .notifyAll (.notifying ws)
  | notifyAllExecutor : Detaches ws .notifyAllExecutor (.spawning ws)

variable [DecidableEq ι] [DecidableEq μ]

/-- What a step of the coroutine `c` can do. -/
inductive Transition (s : State ι μ δ) (c : ι) : State ι μ δ → Prop
  | quiet {p : Pc ι} : Quiet s (s.pc c) p → Transition s c (s.goto c p)
  | lock {m : μ} : s.pc c = .running → s.owner m = none →
      Transition s c (s.setOwner m (some c))
  | unlock {m : μ} : s.pc c = .running → s.owner m = some c →
      Transition s c (s.setOwner m none)
  | write {m : μ} {d : δ} : s.pc c = .running → s.owner m = some c →
      Transition s c { s with data := update s.data m d }
  | wait {m : μ} {a : Awaiter δ} {stop : Bool} : s.pc c = .running → s.owner m = some c →
      Transition s c (wait s c m a stop)
  | requestStop :
      Transition s c { s with stopRequested := update s.stopRequested c true }
  | push : s.pc c = .waitPush →
      Transition s c { s.goto c .waitUnlock with mAwaiters := c :: s.mAwaiters }
  | suspend : s.pc c = .waitUnlock →
      Transition s c ((s.setOwner (s.mutex c) none).goto c .waiting)
  | popOne {w : ι} {ws : List ι} : s.pc c = .notifyOne → s.mAwaiters = w :: ws →
      Transition s c { (s.detach c [w]).goto c (.locking w []) with mAwaiters := ws }
  | popAll {p : Pc ι} : Detaches s.mAwaiters (s.pc c) p →
      Transition s c { (s.detach c s.mAwaiters).goto c p with mAwaiters := [] }
  | take {w : ι} {ws : List ι} : s.pc c = .locking w ws → s.owner (s.mutex w) = none →
      Transition s c ((s.setOwner (s.mutex w) (some c)).goto c (.evaluating w ws))
  | resume {w : ι} {ws : List ι} : s.pc c = .evaluating w ws → s.ready w = true →
      Transition s c
        (((((s.evaluated w).handle c w).setOwner (s.mutex w) (some w)).goto w .running).goto c
          (.notifying ws))
  | reject {w : ι} {ws : List ι} : s.pc c = .evaluating w ws → s.ready w = false →
      Transition s c (((s.evaluated w).handle c w).goto c (.notReady w ws))
  | release {w : ι} {ws : List ι} : s.pc c = .notReady w ws →
      Transition s c ((s.setOwner (s.mutex w) none).goto c (.requeue w ws))
  | requeue {w : ι} {ws : List ι} : s.pc c = .requeue w ws →
      Transition s c { s.goto c (.notifying ws) with mAwaiters := w :: s.mAwaiters }
  | spawn {k w : ι} {ws : List ι} : s.pc c = .spawning (w :: ws) → s.pc k = .unused →
      Transition s c
        ((((s.detach k [w]).goto k (.locking w [])).handle c w).goto c (.spawning ws))

/-- The refusal of a task, by which `c` loses the awaiter `w`. -/
def Refusal (s : State ι μ δ) (c : ι) (t : State ι μ δ) : Prop :=
  ∃ w ws, s.pc c = .spawning (w :: ws) ∧
    t = { s.goto c (.spawning ws) with lost := w :: s.lost }

variable {s t : State ι μ δ} {c w : ι} {p : Pc ι}

/-- Every step of a coroutine inside a call of the library is one of the listed transitions. -/
lemma advance_transition (h : advance s c = some t) : Transition s c t := by
  unfold advance at h
  split at h <;> rename_i hc
  · cases h
    exact .push hc
  · cases h
    exact .suspend hc
  · split at h <;> rename_i hws
    · cases h
      exact .quiet (hc ▸ .popNone hws)
    · cases h
      exact .popOne hc hws
  · cases h
    exact .popAll (hc ▸ .notifyAll)
  · cases h
    exact .popAll (hc ▸ .notifyAllExecutor)
  · cases h
    exact .quiet (hc ▸ .notified)
  · cases h
    exact .quiet (hc ▸ .next)
  · cases h
    exact .quiet (hc ▸ .spawned)
  · split_ifs at h with hfree
    cases h
    exact .take hc hfree
  · cases h
    unfold onNotify
    split_ifs with hready
    · exact .resume hc hready
    · exact .reject hc (by simpa using hready)
  · cases h
    exact .release hc
  · cases h
    exact .requeue hc
  all_goals simp at h

/-- The coroutine that a step moves. -/
def Action.actor : Action ι μ δ → ι
  | .begin c => c
  | .lock c _ => c
  | .unlock c _ => c
  | .write c _ _ => c
  | .wait c _ _ _ => c
  | .notifyOne c => c
  | .notifyAll c => c
  | .notifyAllExecutor c => c
  | .notifyOneExecutor _ k => k
  | .requestStop c => c
  | .spawn c _ => c
  | .refuse c => c
  | .advance c => c

/-- Every step of the system is one of the listed transitions or a refusal. -/
lemma step_cases {a : Action ι μ δ} (h : step s a = some t) :
    Transition s a.actor t ∨ ∃ c, a = .refuse c ∧ Refusal s c t := by
  cases a with
  | begin c =>
    obtain ⟨hc, rfl⟩ : s.pc c = .unused ∧ s.goto c .running = t := by simpa [step] using h
    exact Or.inl (.quiet (hc ▸ .begin))
  | lock c m =>
    obtain ⟨⟨hc, hm⟩, rfl⟩ : (s.pc c = .running ∧ s.owner m = none) ∧
      s.setOwner m (some c) = t := by simpa [step] using h
    exact Or.inl (.lock hc hm)
  | unlock c m =>
    obtain ⟨⟨hc, hm⟩, rfl⟩ : (s.pc c = .running ∧ s.owner m = some c) ∧
      s.setOwner m none = t := by simpa [step] using h
    exact Or.inl (.unlock hc hm)
  | write c m d =>
    obtain ⟨⟨hc, hm⟩, rfl⟩ : (s.pc c = .running ∧ s.owner m = some c) ∧
      { s with data := update s.data m d } = t := by simpa [step] using h
    exact Or.inl (.write hc hm)
  | wait c m a stop =>
    obtain ⟨⟨hc, hm⟩, rfl⟩ : (s.pc c = .running ∧ s.owner m = some c) ∧
      wait s c m a stop = t := by simpa [step] using h
    exact Or.inl (.wait hc hm)
  | notifyOne c =>
    obtain ⟨hc, rfl⟩ : s.pc c = .running ∧ s.goto c .notifyOne = t := by simpa [step] using h
    exact Or.inl (.quiet (hc ▸ .notifyOne))
  | notifyAll c =>
    obtain ⟨hc, rfl⟩ : s.pc c = .running ∧ s.goto c .notifyAll = t := by simpa [step] using h
    exact Or.inl (.quiet (hc ▸ .notifyAll))
  | notifyAllExecutor c =>
    obtain ⟨hc, rfl⟩ : s.pc c = .running ∧ s.goto c .notifyAllExecutor = t := by
      simpa [step] using h
    exact Or.inl (.quiet (hc ▸ .notifyAllExecutor))
  | notifyOneExecutor c k =>
    obtain ⟨⟨-, hk⟩, rfl⟩ : (s.pc c = .running ∧ s.pc k = .unused) ∧
      s.goto k .notifyOne = t := by simpa [step] using h
    exact Or.inl (.quiet (hk ▸ .notifyOneExecutor))
  | requestStop c =>
    cases h
    exact Or.inl (.requestStop)
  | spawn c k =>
    simp only [step, Notification.spawn] at h
    split at h
    · cases h
      exact Or.inl (.spawn ‹_› ‹_›)
    · simp at h
  | refuse c =>
    simp only [step, Notification.refuse] at h
    split at h
    · cases h
      exact Or.inr ⟨c, rfl, _, _, ‹_›, rfl⟩
    · simp at h
  | advance c => exact Or.inl (advance_transition h)

end Libcoro.Notification
