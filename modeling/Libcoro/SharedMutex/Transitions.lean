import Libcoro.SharedMutex.Model

/-!
# The transitions of a shared mutex

What a try of the lock can do, and what every step of the system can do.
-/

namespace Libcoro.SharedMutex

open Foundations

variable {κ : Type*} {s t : State κ}

/-- A successful try finds the mutex unlocked, or takes a shared lock that nobody wants
exclusively. -/
lemma tryMode_true {e : Bool} (h : tryMode s e = (true, t)) :
    (s.mState = .unlocked ∧ e = true ∧ t = { s with mState := .lockedExclusive }) ∨
      (s.mState = .unlocked ∧ e = false ∧
        t = { s with mState := .lockedShared, mSharedUsers := s.mSharedUsers + 1 }) ∨
      (s.mState = .lockedShared ∧ e = false ∧ s.mExclusiveWaiters = 0 ∧
        t = { s with mSharedUsers := s.mSharedUsers + 1 }) := by
  cases e with
  | true =>
    simp only [tryMode, tryLockLocked, if_true] at h
    split_ifs at h with hun
    · exact Or.inl ⟨hun, rfl, by simpa using h.symm⟩
    · simp at h
  | false =>
    simp only [tryMode, tryLockSharedLocked, Bool.false_eq_true, if_false] at h
    split_ifs at h with hun hshared
    · exact Or.inr (Or.inl ⟨hun, rfl, by simpa using h.symm⟩)
    · exact Or.inr (Or.inr ⟨hshared.1, rfl, hshared.2, by simpa using h.symm⟩)
    · simp at h

/-- A try that fails changes nothing. -/
lemma tryMode_false {e : Bool} (h : tryMode s e = (false, t)) :
    t = s ∧ s.mState ≠ .unlocked ∧
      (e = false → s.mState = .lockedShared → s.mExclusiveWaiters ≠ 0) := by
  cases e with
  | true =>
    simp only [tryMode, tryLockLocked, if_true] at h
    split_ifs at h with hun
    · simp at h
    · exact ⟨by simpa using h.symm, hun, by simp⟩
  | false =>
    simp only [tryMode, tryLockSharedLocked, Bool.false_eq_true, if_false] at h
    split_ifs at h with hun hshared
    · simp at h
    · simp at h
    · exact ⟨by simpa using h.symm, hun, fun _ hst hzero => hshared ⟨hst, hzero⟩⟩

variable [DecidableEq κ]

/-- What one step of the system can do. -/
inductive Transition (s : State κ) : Action κ → State κ → Prop
  | call {c : κ} {f : Call} : s.pc c = .idle → Transition s (.call c f) (s.goto c f.entry)
  | beginUnlock {c : κ} {e : Bool} : s.pc c = .holding e →
      Transition s (.unlock c) (s.goto c (.unlocking e))
  | busy {c : κ} {e : Bool} : s.pc c = .trying e → Transition s (.busy c) (s.goto c .refused)
  | execute {w : κ} : w ∈ s.executor →
      Transition s (.execute w) { s.resume w with executor := s.executor.erase w }
  | lockDirect {c : κ} {e : Bool} {n : ℕ} {t : State κ} : s.pc c = .locking e →
      tryMode (s.construct c e) e = (true, t) → Transition s (.advance c n) (t.letIn c e)
  | lockSuspend {c : κ} {e : Bool} {n : ℕ} : s.pc c = .locking e →
      tryMode (s.construct c e) e = (false, s.construct c e) →
      Transition s (.advance c n) (awaitSuspend (s.construct c e) c)
  | tryDirect {c : κ} {e : Bool} {n : ℕ} {t : State κ} : s.pc c = .trying e →
      tryMode s e = (true, t) → Transition s (.advance c n) (t.letIn c e)
  | tryRefused {c : κ} {e : Bool} {n : ℕ} : s.pc c = .trying e → tryMode s e = (false, s) →
      Transition s (.advance c n) (s.goto c .refused)
  | unlockOther {c : κ} {n : ℕ} : s.pc c = .unlocking false → s.mSharedUsers ≠ 1 →
      Transition s (.advance c n)
        { s.goto c .released with mSharedUsers := s.mSharedUsers - 1 }
  | unlockLast {c : κ} {n : ℕ} {s' : State κ} : s.pc c = .unlocking false →
      s.mSharedUsers = 1 →
      release { s.goto c .released with mSharedUsers := s.mSharedUsers - 1 } c n = some s' →
      Transition s (.advance c n) s'
  | unlock {c : κ} {n : ℕ} {s' : State κ} : s.pc c = .unlocking true →
      release (s.goto c .released) c n = some s' → Transition s (.advance c n) s'
  | resume {c w : κ} {n : ℕ} : s.pc c = .resuming w →
      Transition s (.advance c n) ((s.resume w).goto c .released)

/-- Every step of an acquisition is one of the listed transitions. -/
lemma advance_transition {c : κ} {n : ℕ} (h : advance s c n = some t) :
    Transition s (.advance c n) t := by
  unfold advance at h
  split at h <;> rename_i hc
  · cases h
    unfold lockOperation
    split <;> rename_i r heq
    · exact .lockDirect hc heq
    · obtain ⟨rfl, -⟩ := tryMode_false heq
      exact .lockSuspend hc heq
  · cases h
    unfold tryOperation
    split <;> rename_i r heq
    · exact .tryDirect hc heq
    · obtain ⟨rfl, -⟩ := tryMode_false heq
      exact .tryRefused hc heq
  · exact .unlock hc h
  · simp only [unlockShared] at h
    split_ifs at h with hone
    · exact .unlockLast hc hone h
    · cases h
      exact .unlockOther hc hone
  · cases h
    exact .resume hc
  all_goals simp at h

/-- Every step of the system is one of the listed transitions. -/
lemma step_transition {a : Action κ} (h : step s a = some t) : Transition s a t := by
  cases a with
  | call c f =>
    obtain ⟨hc, rfl⟩ : s.pc c = .idle ∧ s.goto c f.entry = t := by simpa [step] using h
    exact .call hc
  | unlock c =>
    simp only [step] at h
    split at h <;> rename_i hc
    · cases h
      exact .beginUnlock hc
    · simp at h
  | busy c =>
    simp only [step] at h
    split at h <;> rename_i hc
    · cases h
      exact .busy hc
    · simp at h
  | execute w =>
    obtain ⟨hw, rfl⟩ : w ∈ s.executor ∧ _ = t := by simpa [step] using h
    exact .execute hw
  | advance c n => exact advance_transition h

end Libcoro.SharedMutex
