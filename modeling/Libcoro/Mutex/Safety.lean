import Libcoro.Mutex.Refinement

/-!
# Safety of `coro::mutex`

What every user of the mutex relies on, read off the lock that it implements.
-/

namespace Libcoro.Mutex

open Foundations

variable {ι : Type*} [DecidableEq ι]

/-- Every reachable mutex implements some state of the abstract lock. -/
lemma exists_represents {s : State ι} (h : (machine ι).Reachable s) : ∃ L, Represents s L := by
  obtain ⟨L, -, hL⟩ := machine_simulates.exists_reachable h
  exact ⟨L, hL⟩

/-- In every state that the users of a mutex reach, however their atomic accesses interleave:
at most one coroutine owns the mutex; `m_state` is the unlocked value exactly when nobody does
and otherwise heads an acyclic list that holds the suspended operations, each once; every
hand-over went to the waiter queued last, each queued operation is handed the mutex once and
resumed once by whoever handed it over; and neither the "already unlocked" error nor a null
waiter is ever met. -/
theorem mutex_safety {s : State ι} (h : (machine ι).Reachable s) :
    (∀ c d, (s.pc c).Owns → (s.pc d).Owns → c = d) ∧
    (s.mState = .unlocked ↔ ∀ c, ¬ (s.pc c).Owns) ∧
    (∀ p, s.mState = .ptr p → ∃ l : List ι, Linked s.mNext p l ∧ l.Nodup ∧
      (∀ c, c ∈ l ↔ s.pc c = .suspended) ∧ l = waitingOf s.log) ∧
    Lifo s.log ∧
    (∀ w, s.log.count (.queued w) =
      s.log.countP (Event.transfersTo w) + if s.pc w = .suspended then 1 else 0) ∧
    (∀ c w, s.log.count (.transferred c w) =
      s.log.count (.resumed c w) + if s.pc c = .resumeWaiter w then 1 else 0) ∧
    (∀ c, s.pc c ≠ .alreadyUnlocked ∧ s.pc c ≠ .strayWaiter) := by
  obtain ⟨L, hL⟩ := exists_represents h
  refine ⟨fun c d => hL.owner_eq, ?_, ?_, hL.lifo, hL.ledger.queued, hL.ledger.transferred, ?_⟩
  · constructor
    · intro hword c hc
      exact hL.word_ne_unlocked hc hword
    · intro hnone
      have hword := hL.word
      cases L with
      | free => exact hword
      | held o ws => exact (hnone o ((hL.owns_iff o).mpr rfl)).elim
  · intro p hp
    have hword := hL.word
    cases L with
    | free => simp [WordSpells, hp] at hword
    | held o ws =>
      obtain ⟨q, hq, hl⟩ := hword
      obtain rfl : p = q := by simpa [hp] using hq
      exact ⟨ws, hl, hl.nodup, fun c => (hL.suspended_iff c).symm, hL.waiting_log⟩
  · intro c
    have hsound := hL.sound c
    constructor
    · intro hc
      rwa [hc] at hsound
    · intro hc
      rwa [hc] at hsound

/-- Coroutine `0` holds the mutex, `1` and `2` queue up behind it (one compare-exchange of `1`
failing spuriously), and `0` hands it to `2`, the last one queued. -/
def contendedTrace : List (Action ℕ) :=
  [.lock 0, .lock 1, .advance 1 false, .advance 1 false, .advance 1 true, .advance 1 false,
    .advance 1 false, .lock 2, .advance 2 false, .advance 2 false, .advance 2 false, .unlock 0,
    .advance 0 false, .advance 0 false, .advance 0 false, .advance 0 false, .advance 0 false]

/-- The contended run reaches a state in which `2` holds the mutex and `1` still waits. -/
theorem mutex_safety_contended : ∃ s : State ℕ,
    (machine ℕ).run start contendedTrace = some s ∧ s.pc 2 = .holding ∧ s.pc 1 = .suspended ∧
    s.log = [.resumed 0 2, .transferred 0 2, .queued 2, .queued 1] ∧
    (∀ c d, (s.pc c).Owns → (s.pc d).Owns → c = d) :=
  ⟨_, rfl, rfl, rfl, rfl, (mutex_safety (Machine.reachable_of_run (l := contendedTrace) rfl)).1⟩

end Libcoro.Mutex
