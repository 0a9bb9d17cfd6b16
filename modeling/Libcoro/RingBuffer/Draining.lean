import Libcoro.Foundations.Channel
import Libcoro.RingBuffer.Conservation
import Libcoro.RingBuffer.Shutdown

/-!
# Draining a ring buffer

`shutdown_drain` closes the buffer for producers and waits until it sees the buffer empty, without
the lock; the stop comes in a later critical section.  In between nothing can be stored: `produce`
refuses, and `try_resume_producers` finds no waiter, since the waiters were detached in the
critical section that set `draining` and nobody can join the list afterwards.
-/

namespace Libcoro.RingBuffer

open Foundations

variable {n : ℕ} {κ α : Type*}

/-- Nobody calls `shutdown` itself. -/
def OnlyDrains (_ : State n κ α) : Action κ α → Prop
  | .call _ .shutdown => False
  | _ => True

instance (s : State n κ α) (a : Action κ α) : Decidable (OnlyDrains s a) :=
  match a with
  | .call _ .shutdown => isFalse not_false
  | .call _ (.produce _) | .call _ .consume | .call _ .notifyProducers
  | .call _ .notifyConsumers | .call _ .shutdownDrain | .advance _ => isTrue trivial

/-- The state of a buffer in a run without `shutdown`. -/
structure Draining (s : State n κ α) : Prop where
  closing : ClosingStage.Drained Pc.stage (s.ring.used = 0) s.mRunningState s.pc
  waiters : s.mRunningState ≠ .running → s.mProduceWaiters = []

variable [DecidableEq κ] [NeZero n] {s s' : State n κ α} {c : κ}

namespace Draining

/-- An empty buffer that is not running stays empty. -/
lemma stays_empty (h : Draining s) (ht : Transition s c s') (hclosed : s.mRunningState ≠ .running)
    (hempty : s.ring.used = 0) : s'.ring.used = 0 := by
  cases ht with
  | storeDirect _ hrun => exact (hclosed hrun).elim
  | storeWaiter _ _ hw => simp [h.waiters hclosed] at hw
  | takeDirect _ _ hused | takeWaiter _ hused => exact absurd hempty hused.ne'
  | _ => exact hempty

/-- Every step of a call keeps a closed buffer closed. -/
lemma transition (h : Draining s) (ht : Transition s c s') : Draining s' := by
  refine ⟨ht.closing.drained not_false h.closing (h.stays_empty ht), ?_⟩
  have hown := h.closing.calls c
  cases ht with
  | blockProducer _ hrun =>
    intro hclosed
    exact (hclosed hrun).elim
  | storeWaiter _ _ hw =>
    intro hclosed
    simp [h.waiters hclosed] at hw
  | notifyProducers | detach | drain => exact fun _ => rfl
  | stop hc _ =>
    rw [hc] at hown
    exact fun _ => h.waiters hown.1
  | _ => exact h.waiters

end Draining

/-- In every run without `shutdown` the buffer is drained before it stops. -/
lemma draining_of_reachable (h : (machine n κ α).ReachableUnder OnlyDrains s) : Draining s := by
  refine h.invariant ?_ ?_
  · exact ⟨⟨fun _ => trivial, nofun⟩, fun _ => rfl⟩
  · intro s a t _ hs hguard hstep
    rcases step_cases hstep with ⟨c, f, rfl, hc, rfl⟩ | ⟨c, rfl, ht⟩
    · refine ⟨(closing_of_call s f hc).drained ?_ hs.closing fun _ => id, hs.waiters⟩
      rintro rfl
      exact hguard
    · exact hs.transition ht

/-- A buffer that is not running does not run again, and nothing is stored in it. -/
lemma Draining.shut (h : Draining s) (hclosed : s.mRunningState ≠ .running) {a : Action κ α}
    (hstep : step s a = some s') : s'.mRunningState ≠ .running ∧ s'.stored = s.stored := by
  rcases step_cases hstep with ⟨c, f, rfl, hc, rfl⟩ | ⟨c, rfl, ht⟩
  · exact ⟨hclosed, rfl⟩
  · cases ht with
    | storeDirect _ hrun _ | drain _ hrun => exact (hclosed hrun).elim
    | storeWaiter _ _ hw => simp [h.waiters hclosed] at hw
    | stop => exact ⟨nofun, rfl⟩
    | _ => exact ⟨hclosed, rfl⟩

/-- The ring buffer as a channel. -/
def channel (n : ℕ) [NeZero n] (κ α : Type*) : Channel (State n κ α) κ α where
  isOpen s := s.mRunningState = .running
  isClosed s := s.mRunningState = .stopped
  contents s := s.ring.contents
  stored s := s.stored
  removed s := s.removed
  holds s c e := (s.pc c).gain (s.consumeOp c).mE = some e

/-- A ring buffer that is only ever drained loses nothing. -/
lemma channel_lossless : (channel n κ α).Lossless (machine n κ α) OnlyDrains := by
  refine .of_step ?_ ?_ ?_ ?_
  · intro s a t hs hclosed hstep
    exact (draining_of_reachable hs).shut hclosed hstep
  · intro s hs
    obtain ⟨l, hl, hlog⟩ := (conserved_of_reachable hs.reachable).queued
    exact hlog.trans (congrArg _ hl.contents_eq.symm)
  · intro s hs hstop
    obtain ⟨l, hl, -⟩ := (conserved_of_reachable hs.reachable).queued
    have hlen : l.length = 0 :=
      hl.used_eq.symm.trans ((draining_of_reachable hs).closing.stopped hstop)
    exact hl.contents_eq.trans (List.length_eq_zero_iff.mp hlen)
  · intro s hs
    have hcons := conserved_of_reachable hs.reachable
    exact ⟨hcons.removed_nodup, hcons.mem_removed_iff⟩

end Libcoro.RingBuffer
