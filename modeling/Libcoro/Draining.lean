import Libcoro.Queue.Draining
import Libcoro.RingBuffer.Draining

/-!
# Draining loses nothing

The two containers with a `shutdown_drain`, as channels: when that is the only way in which they
are shut down, every element that was ever stored has gone to a consumer when they stop.
-/

namespace Libcoro

/-- In the runs in which `shutdown_drain` is the only shutdown call, a queue and a ring buffer of
any size store nothing after they have left `running`; when they are stopped they are empty, and
the elements stored so far are, one by one and in order, those removed so far, each of which has
gone to one consumer. -/
theorem draining_loses_nothing (κ α : Type*) [DecidableEq κ] :
    (Queue.channel κ α).Lossless (Queue.machine κ α) Queue.OnlyDrains ∧
    ∀ (n : ℕ) [NeZero n],
      (RingBuffer.channel n κ α).Lossless (RingBuffer.machine n κ α) RingBuffer.OnlyDrains :=
  ⟨Queue.channel_lossless, fun _ _ => RingBuffer.channel_lossless⟩

/-- A queue is drained while it holds an element; the drain loop waits for the `pop`, and a `push`
that comes late is refused. -/
def drainedQueue : List (Queue.Action ℕ ℕ) :=
  [.call 0 (.push 10), .advance 0, .call 1 .shutdownDrain, .advance 1, .advance 1,
    .call 2 (.push 11), .advance 2, .call 3 .pop, .advance 3, .advance 1, .advance 1, .advance 1,
    .advance 1, .advance 1, .advance 3]

/-- A ring buffer of one slot is drained while it is full and a producer waits, which is sent away;
the drain loop waits for the consumer. -/
def drainedBuffer : List (RingBuffer.Action ℕ ℕ) :=
  [.call 0 (.produce 10), .advance 0, .advance 0, .call 1 (.produce 11), .advance 1,
    .call 2 .shutdownDrain, .advance 2, .advance 2, .advance 2, .advance 2, .call 3 .consume,
    .advance 3, .advance 2, .advance 2, .advance 2, .advance 2, .advance 2, .advance 2]

/-- The two runs end in stopped containers whose only element has been delivered. -/
theorem draining_loses_nothing_stopped :
    (∃ s : Queue.State ℕ ℕ,
      (Queue.machine ℕ ℕ).runUnder Queue.OnlyDrains Queue.start drainedQueue = some s ∧
      s.mRunningState = .stopped ∧ s.accepted = [(0, 10)] ∧
      s.pc 3 = .popReturned (.value 10) ∧ s.mElements = []) ∧
    ∃ s : RingBuffer.State 1 ℕ ℕ,
      (RingBuffer.machine 1 ℕ ℕ).runUnder RingBuffer.OnlyDrains RingBuffer.start drainedBuffer =
        some s ∧
      s.mRunningState = .stopped ∧ s.stored = [(0, 10)] ∧ s.removed = [(3, 10)] ∧
      s.ring.contents = [] := by
  have hqueue : ∃ s : Queue.State ℕ ℕ,
      (Queue.machine ℕ ℕ).runUnder Queue.OnlyDrains Queue.start drainedQueue = some s ∧
      s.mRunningState = .stopped ∧ s.accepted = [(0, 10)] ∧ s.pc 3 = .popReturned (.value 10) :=
    ⟨_, rfl, rfl, rfl, rfl⟩
  have hbuffer : ∃ s : RingBuffer.State 1 ℕ ℕ,
      (RingBuffer.machine 1 ℕ ℕ).runUnder RingBuffer.OnlyDrains RingBuffer.start drainedBuffer =
        some s ∧
      s.mRunningState = .stopped ∧ s.stored = [(0, 10)] ∧ s.removed = [(3, 10)] :=
    ⟨_, rfl, rfl, rfl, rfl⟩
  obtain ⟨q, hq, hqstop, hacc, hpop⟩ := hqueue
  obtain ⟨b, hb, hbstop, hstored, hremoved⟩ := hbuffer
  obtain ⟨hlq, hlb⟩ := draining_loses_nothing ℕ ℕ
  exact ⟨⟨q, hq, hqstop, hacc, hpop,
      hlq.empty (Foundations.Machine.reachableUnder_of_run hq) hqstop⟩,
    b, hb, hbstop, hstored, hremoved,
    (hlb 1).empty (Foundations.Machine.reachableUnder_of_run hb) hbstop⟩

end Libcoro
