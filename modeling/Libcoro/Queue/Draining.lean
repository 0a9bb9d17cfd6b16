import Libcoro.Foundations.Channel
import Libcoro.Queue.Fifo
import Libcoro.Queue.Shutdown

/-!
# Draining a queue

A queue that is only ever drained stops empty: `push` is the only way in, it stores and hands over
elements of a running queue only, and `shutdown_drain` stops the queue after it has seen it empty.
-/

namespace Libcoro.Queue

open Foundations

variable {κ α : Type*}

/-- Nobody calls `shutdown` itself. -/
def OnlyDrains (_ : State κ α) : Action κ α → Prop
  | .call _ .shutdown => False
  | _ => True

instance (s : State κ α) (a : Action κ α) : Decidable (OnlyDrains s a) :=
  match a with
  | .call _ .shutdown => isFalse not_false
  | .call _ (.push _) | .call _ (.pushRvalue _) | .call _ (.emplace _) | .call _ .pop
  | .call _ .tryPop | .call _ .shutdownDrain | .advance _ | .tryLockFails _ => isTrue trivial

variable [DecidableEq κ] {s t : State κ α} {c : κ}

/-- Nobody begins a `shutdown` of its own in such a run. -/
lemma OnlyDrains.not_enters {a : Action κ α} (hguard : OnlyDrains s a)
    (hstep : step s a = some t) : ¬ (s.pc a.actor = .idle ∧ t.pc a.actor = .shutdownLoad) := by
  rintro ⟨hidle, hload⟩
  cases a with
  | call c f =>
    change s.pc c = _ at hidle
    obtain rfl : _ = t := by simpa [step, hidle] using hstep
    cases f <;> simp_all [OnlyDrains, Action.actor]
  | advance c | tryLockFails c =>
    change s.pc c = _ at hidle
    simp [step, advance, hidle] at hstep

/-- An empty queue that is not running stays empty. -/
lemma Transition.stays_empty (ht : Transition s c t) (hclosed : s.mRunningState ≠ .running)
    (hempty : s.mElements = []) : t.mElements = [] := by
  cases ht with
  | enqueue _ hrun => exact (hclosed hrun).elim
  | popElement _ _ hes | tryPopElement _ _ hes => simp [hempty] at hes
  | _ => exact hempty

/-- In every run without `shutdown` the queue is drained before it stops. -/
lemma drained_of_reachable (h : (machine κ α).ReachableUnder OnlyDrains s) :
    ClosingStage.Drained Pc.stage (s.mElements = []) s.mRunningState s.pc := by
  refine h.invariant
    (I := fun s => ClosingStage.Drained Pc.stage (s.mElements = []) s.mRunningState s.pc) ?_ ?_
  · exact ⟨fun _ => trivial, nofun⟩
  · intro s a t _ hs hguard hstep
    have ht := step_transition hstep
    exact ht.closing.drained (hguard.not_enters hstep) hs ht.stays_empty

/-- A queue that is not running does not run again, and nothing is accepted by it. -/
lemma Transition.shut (ht : Transition s c t) (hclosed : s.mRunningState ≠ .running) :
    t.mRunningState ≠ .running ∧ t.accepted = s.accepted := by
  cases ht with
  | enqueue _ hrun _ | handOff _ hrun _ | drain _ hrun => exact (hclosed hrun).elim
  | stop => exact ⟨nofun, rfl⟩
  | _ => exact ⟨hclosed, rfl⟩

/-- The queue as a channel. -/
def channel (κ α : Type*) : Channel (State κ α) κ α where
  isOpen s := s.mRunningState = .running
  isClosed s := s.mRunningState = .stopped
  contents s := s.mElements
  stored s := s.accepted
  removed s := s.delivered
  holds s := s.Holds

/-- A queue that is only ever drained loses nothing. -/
lemma channel_lossless : (channel κ α).Lossless (machine κ α) OnlyDrains := by
  refine .of_step ?_ ?_ ?_ ?_
  · intro s a t _ hclosed hstep
    exact (step_transition hstep).shut hclosed
  · intro s hs
    exact order_of_reachable hs.reachable
  · intro s hs hstop
    exact (drained_of_reachable hs).stopped hstop
  · intro s hs
    have hdelivered := delivered_of_reachable hs.reachable
    exact ⟨hdelivered.nodup, hdelivered.mem_iff_holds (sound_of_reachable hs.reachable)⟩

end Libcoro.Queue
