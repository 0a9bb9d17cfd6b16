import Libcoro.Semaphore.Model

/-!
# The transitions of a semaphore

Most steps only move their caller (`Quiet`), and some of those take or give back the mutex; the
others change the counter, the waiters or the flag.
-/

namespace Libcoro.Semaphore

open Foundations

variable {κ : Type*}

/-- The moves of a call that change nothing but its control point. -/
inductive Quiet (max : ℤ) (s : State κ) : Pc κ → Pc κ → Prop
  | call {f : Call} : Quiet max s .idle f.entry
  | loadFail {k : Caller} : s.mCounter ≤ 0 → Quiet max s (.tryLoad k) k.failure
  | load {k : Caller} : 0 < s.mCounter → Quiet max s (.tryLoad k) (.tryExchange k s.mCounter)
  | reloadFail {k : Caller} {x : ℤ} : s.mCounter ≤ 0 → Quiet max s (.tryExchange k x) k.failure
  | reload {k : Caller} {x : ℤ} : 0 < s.mCounter →
      Quiet max s (.tryExchange k x) (.tryExchange k s.mCounter)
  | isShutdown {again : Bool} : s.mShutdown = true →
      Quiet max s (.acquireShutdown again) .acquireUnlock
  | notShutdown {again : Bool} : s.mShutdown = false →
      Quiet max s (.acquireShutdown again) (.tryLoad (.awaitReady again))
  | resume : Quiet max s .acquireResume
      (.acquireReturned (if s.mShutdown then .shutdown else .acquired))
  | belowMax : s.mCounter ≠ max → Quiet max s .releaseValue .releasePop
  | popNone : s.mAcquireWaiters = [] → Quiet max s .releasePop .releaseAdd
  | shutdownAgain : s.mShutdown = true → Quiet max s .shutdownLoad .shutdownReturned
  | shutdownFirst : s.mShutdown = false → Quiet max s .shutdownLoad .shutdownLock
  | shutdownLate : s.mShutdown = true → Quiet max s .shutdownExchange (.shutdownUnlock [])
  | shutdownDone : Quiet max s (.shutdownResume []) .shutdownReturned

/-- The moves of a call that has taken the mutex. -/
inductive Locks : Pc κ → Pc κ → Prop
  | acquire : Locks .acquireLock (.acquireShutdown false)
  | release : Locks .releaseLock .releaseValue
  | shutdown : Locks .shutdownLock .shutdownExchange

/-- The moves of a call that gives the mutex back. -/
inductive Unlocks : Pc κ → Pc κ → Prop
  | suspend : Unlocks .acquireSuspend .suspended
  | acquire : Unlocks .acquireUnlock .acquireResume
  | release : Unlocks (.releaseUnlock none) .releaseReturned
  | handOff {w : κ} : Unlocks (.releaseUnlock (some w)) (.releaseResume w)
  | shutdown {ws : List κ} : Unlocks (.shutdownUnlock ws) (.shutdownResume ws)

variable [DecidableEq κ]

/-- What a step of the call `c` can do. -/
inductive Transition (max : ℤ) (s : State κ) (c : κ) : State κ → Prop
  | quiet {p : Pc κ} : Quiet max s (s.pc c) p → Transition max s c (s.goto c p)
  | lock {p : Pc κ} : Locks (s.pc c) p → s.mMutex = none →
      Transition max s c { s.goto c p with mMutex := some c }
  | unlock {p : Pc κ} : Unlocks (s.pc c) p → Transition max s c (s.unlock c p)
  | take {k : Caller} : s.pc c = .tryExchange k s.mCounter →
      Transition max s c
        { s.goto c k.success with mCounter := s.mCounter - 1, grants := c :: s.grants }
  | push : s.pc c = .acquirePush →
      Transition max s c
        { s.goto c .acquireSuspend with mAcquireWaiters := c :: s.mAcquireWaiters }
  | drop : s.pc c = .releaseValue → s.mCounter = max →
      Transition max s c { s.goto c (.releaseUnlock none) with drops := c :: s.drops }
  | handOff {w : κ} {ws : List κ} : s.pc c = .releasePop → s.mAcquireWaiters = w :: ws →
      Transition max s c
        { s.goto c (.releaseUnlock (some w)) with
          mAcquireWaiters := ws
          grants := w :: s.grants
          releases := c :: s.releases }
  | add : s.pc c = .releaseAdd →
      Transition max s c
        { s.goto c (.releaseUnlock none) with
          mCounter := s.mCounter + 1
          releases := c :: s.releases }
  | resumeOne {w : κ} : s.pc c = .releaseResume w →
      Transition max s c ((s.goto w .acquireResume).goto c .releaseReturned)
  | stop : s.pc c = .shutdownExchange → s.mShutdown = false →
      Transition max s c { s.goto c .shutdownPopAll with mShutdown := true }
  | popAll : s.pc c = .shutdownPopAll →
      Transition max s c
        { s.goto c (.shutdownUnlock s.mAcquireWaiters) with mAcquireWaiters := [] }
  | resumeNext {w : κ} {ws : List κ} : s.pc c = .shutdownResume (w :: ws) →
      Transition max s c ((s.goto w .acquireResume).goto c (.shutdownResume ws))

variable {max : ℤ} {s t : State κ} {c : κ}

/-- Taking the mutex is one of the listed transitions. -/
lemma lock_transition {p : Pc κ} (hp : Locks (s.pc c) p) (h : s.lock c p = some t) :
    Transition max s c t := by
  unfold State.lock at h
  split_ifs at h with hfree
  cases h
  exact .lock hp hfree

/-- The test of the loop in `try_acquire` only moves its caller. -/
lemma tryTest_transition {k : Caller}
    (hload : s.pc c = .tryLoad k ∨ ∃ x, s.pc c = .tryExchange k x) :
    Transition max s c (tryTest s c k s.mCounter) := by
  unfold tryTest
  rcases hload with hc | ⟨x, hc⟩
  · split_ifs with hle
    · exact .quiet (hc ▸ .loadFail hle)
    · exact .quiet (hc ▸ .load (by omega))
  · split_ifs with hle
    · exact .quiet (hc ▸ .reloadFail hle)
    · exact .quiet (hc ▸ .reload (by omega))

/-- Every step of a call in progress is one of the listed transitions. -/
lemma advance_transition (h : advance max s c = some t) : Transition max s c t := by
  unfold advance at h
  split at h <;> rename_i hc
  · cases h
    exact tryTest_transition (Or.inl hc)
  · rename_i k x
    cases h
    unfold tryExchange
    split_ifs with hx
    · subst hx
      exact .take hc
    · exact tryTest_transition (Or.inr ⟨x, hc⟩)
  · exact lock_transition (hc ▸ .acquire) h
  · split_ifs at h with hs
    · cases h
      exact .quiet (hc ▸ .isShutdown hs)
    · cases h
      exact .quiet (hc ▸ .notShutdown (by simpa using hs))
  · cases h
    exact .push hc
  · cases h
    exact .unlock (hc ▸ .suspend)
  · cases h
    exact .unlock (hc ▸ .acquire)
  · cases h
    exact .quiet (hc ▸ .resume)
  · exact lock_transition (hc ▸ .release) h
  · split_ifs at h with hmax
    · cases h
      exact .drop hc hmax
    · cases h
      exact .quiet (hc ▸ .belowMax hmax)
  · split at h <;> rename_i hws
    · cases h
      exact .quiet (hc ▸ .popNone hws)
    · cases h
      exact .handOff hc hws
  · cases h
    exact .add hc
  · cases h
    exact .unlock (hc ▸ .release)
  · cases h
    exact .unlock (hc ▸ .handOff)
  · cases h
    exact .resumeOne hc
  · split_ifs at h with hs
    · cases h
      exact .quiet (hc ▸ .shutdownAgain hs)
    · cases h
      exact .quiet (hc ▸ .shutdownFirst (by simpa using hs))
  · exact lock_transition (hc ▸ .shutdown) h
  · split_ifs at h with hs
    · cases h
      exact .quiet (hc ▸ .shutdownLate hs)
    · cases h
      exact .stop hc (by simpa using hs)
  · cases h
    exact .popAll hc
  · cases h
    exact .unlock (hc ▸ .shutdown)
  · cases h
    exact .quiet (hc ▸ .shutdownDone)
  · cases h
    exact .resumeNext hc
  all_goals simp at h

/-- Whose step a label is. -/
def Action.actor : Action κ → κ
  | .call c _ => c
  | .advance c => c
  | .spurious c => c

/-- Every step of the system is one of the listed transitions. -/
lemma step_transition {a : Action κ} (h : step max s a = some t) :
    Transition max s a.actor t := by
  cases a with
  | call c f =>
    obtain ⟨hc, rfl⟩ : s.pc c = .idle ∧ s.goto c f.entry = t := by simpa [step] using h
    exact .quiet (hc ▸ .call)
  | advance c => exact advance_transition h
  | spurious c =>
    simp only [step] at h
    split at h <;> rename_i hc
    · cases h
      exact tryTest_transition (Or.inr ⟨_, hc⟩)
    · simp at h

end Libcoro.Semaphore
