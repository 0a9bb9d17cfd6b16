import Libcoro.AwaiterList.Refinement

/-!
# When the list of awaiters is sound

A pop that has read `m_next` of the first awaiter exchanges `m_awaiters` for what it has read.
Meanwhile other notifiers may have popped that awaiter and the next one, resumed the next one and
pushed the first one back.  The exchange succeeds all the same and makes an awaiter the head of the
list whose coroutine has returned from its wait; the next notification resumes that coroutine a
second time (`head_revived`).

In a run in which every successful exchange of a pop finds `m_next` as it was read, the awaiters on
the list are those of suspended coroutines, nobody is in two places and every wait is resumed once
(`list_sound`).
-/

namespace Libcoro.AwaiterList

open Foundations ConditionVariable

variable {ι μ δ : Type*}

namespace Pc

/-- The coroutine has pushed its awaiter and has not been resumed. -/
def Suspended : Pc ι → Prop
  | .waitUnlock | .waiting => True
  | _ => False

/-- The coroutine is inside `await_suspend` or suspended. -/
def inWait : Pc ι → Bool
  | .pushLoad .wait | .pushLink .wait _ | .pushExchange .wait _ | .waitUnlock | .waiting => true
  | _ => false

/-- The awaiter that a notifier has popped and not yet resumed, passed on or pushed back. -/
def current : Pc ι → Option ι
  | .pushLoad (.requeue w _) | .pushLink (.requeue w _) _ | .pushExchange (.requeue w _) _ => some w
  | .spawnTask w _ | .locking w _ | .evaluating w _ | .notReady w _ => some w
  | _ => none

/-- The head of the chain that a notifier has detached and not yet walked. -/
def chain : Pc ι → Option ι
  | .pushLoad (.requeue _ rest) | .pushLink (.requeue _ rest) _
  | .pushExchange (.requeue _ rest) _ => rest
  | .notifying p | .spawning p => p
  | .spawnTask _ rest | .locking _ rest | .evaluating _ rest | .notReady _ rest => rest
  | _ => none

end Pc

/-- Who has the awaiter of `w`: `none` stands for the list `m_awaiters`, and `some c` for the
coroutine `c` as a notifier. -/
def State.Holds (s : State ι μ δ) (w : ι) : Option ι → Prop
  | none => Reaches s.mNext s.mAwaiters w
  | some c => (s.pc c).current = some w ∨ Reaches s.mNext (s.pc c).chain w

variable {s : State ι μ δ} {t : Notification.State ι μ δ} {c w : ι}

section Abstraction

variable {next : ι → Option ι} {p : Pc ι} {q : Notification.Pc ι}

/-- What a notifier has in hand is its current awaiter followed by its chain. -/
lemma Abstracts.inHand_eq (h : Abstracts next c p q) :
    ∃ ws, Linked next p.chain ws ∧ q.inHand = p.current.toList ++ ws := by
  cases h with
  | pushLoad hk | pushLink hk | pushExchange hk =>
    cases hk with
    | wait => exact ⟨[], rfl, rfl⟩
    | requeue hl => exact ⟨_, hl, rfl⟩
  | notifying hl | spawning hl | spawnTask hl | locking hl | evaluating hl | notReady hl =>
    exact ⟨_, hl, rfl⟩
  | @popAllLoad k | @popAllExchange k => cases k <;> exact ⟨[], rfl, rfl⟩
  | _ => exact ⟨[], rfl, rfl⟩

/-- A waiter that is suspended on the list of awaiters is so in memory. -/
lemma Abstracts.suspended (h : Abstracts next c p q) (hq : q.Suspended) : p.Suspended := by
  cases h with
  | waitUnlock | waiting => trivial
  | pushLoad hk | pushLink hk | pushExchange hk => cases hk <;> exact hq.elim
  | @popAllLoad k | @popAllExchange k => cases k <;> exact hq.elim
  | _ => exact hq.elim

/-- Who waits for a resumption is inside a wait. -/
lemma Abstracts.pending_eq (h : Abstracts next c p q) :
    pending q = if p.inWait then 1 else 0 := by
  cases h with
  | pushLoad hk | pushLink hk | pushExchange hk => cases hk <;> rfl
  | @popAllLoad k | @popAllExchange k => cases k <;> rfl
  | _ => rfl

end Abstraction

/-- Who has an awaiter in memory has it on the list of awaiters, where what was lost counts as
listed. -/
lemma Refines.mem_of_holds (h : Refines s t) : ∀ {p : Option ι}, s.Holds w p →
    w ∈ parkingPlaces Notification.Pc.inHand (t.mAwaiters ++ t.lost) t.pc p
  | none, hp => List.mem_append_left _ (h.list.reaches_iff.mp hp)
  | some c, hp => by
    obtain ⟨ws, hl, hhand⟩ := (h.pc c).inHand_eq
    change w ∈ (t.pc c).inHand
    rw [hhand, List.mem_append, Option.mem_toList]
    exact hp.imp id hl.reaches_iff.mp

variable [DecidableEq ι] [DecidableEq μ] [Inhabited μ] {d : μ → δ}

/-- In every state that a run without stale exchanges reaches:

* whoever has an awaiter in the list `m_awaiters` or in the hands of a notifier is suspended in its
  wait;
* nobody is in two such places, and no notifier has an awaiter both as the current one and on its
  chain;
* every wait that has begun has been resumed once, except that the wait in which a coroutine still
  is has not been resumed. -/
theorem list_sound (h : (machine ι d).ReachableUnder PopsFresh s) :
    (∀ w p, s.Holds w p → (s.pc w).Suspended) ∧
    (∀ w p p', s.Holds w p → s.Holds w p' → p = p') ∧
    (∀ c w, (s.pc c).current = some w → ¬ Reaches s.mNext (s.pc c).chain w) ∧
    ∀ w, s.resumptions w + (if (s.pc w).inWait then 1 else 0) = s.waits w := by
  obtain ⟨t, ht, href⟩ := refines_of_reachable h
  have hparked := (Notification.sound_of_reachable ht).parked
  refine ⟨?_, ?_, ?_, ?_⟩
  · intro w p hp
    exact (href.pc w).suspended ((Placed.mem_iff hparked w).mpr ⟨p, href.mem_of_holds hp⟩)
  · intro w p p' hp hp'
    exact Placed.unique hparked p p' w (href.mem_of_holds hp) (href.mem_of_holds hp')
  · intro c w hcur hreach
    obtain ⟨ws, hl, hhand⟩ := (href.pc c).inHand_eq
    have hnodup : (t.pc c).inHand.Nodup := Placed.nodup hparked (some c)
    rw [hhand, hcur] at hnodup
    exact (List.nodup_cons.mp hnodup).1 (hl.reaches_iff.mp hreach)
  · intro w
    rw [← (href.pc w).pending_eq]
    exact href.count w

/-- Two coroutines wait, the second one with a predicate that does not hold, and a notifier has read
the first two nodes of the list. -/
def twoWaiters : List (Action ℕ Unit Bool) :=
  [.move (.begin 1), .move (.lock 1 ()), .move (.wait 1 () .plain false), .move (.advance 1),
    .move (.advance 1), .move (.advance 1), .move (.advance 1), .move (.begin 0),
    .move (.lock 0 ()), .move (.wait 0 () (.withPredicate id) false), .move (.advance 0),
    .move (.advance 0), .move (.advance 0), .move (.advance 0), .move (.begin 2),
    .move (.notifyOne 2), .move (.advance 2), .move (.advance 2)]

/-- A second notifier pops the first awaiter and a third one the second awaiter.  The second
notifier finds the predicate false and pushes its awaiter back; the third one resumes its waiter. -/
def pushedBack : List (Action ℕ Unit Bool) :=
  [.move (.begin 3), .move (.notifyOne 3), .move (.advance 3), .move (.advance 3),
    .move (.advance 3), .move (.begin 4), .move (.notifyOne 4), .move (.advance 4),
    .move (.advance 4), .move (.advance 4), .move (.advance 3), .move (.advance 3),
    .move (.advance 3), .move (.advance 3), .move (.advance 3), .move (.advance 3),
    .move (.advance 4), .move (.advance 4)]

/-- As long as the exchange of the first notifier fails, the list holds the awaiter that was pushed
back, and the other waiter has been resumed once. -/
theorem list_sound_pushedBack : ∃ s : State ℕ Unit Bool,
    (machine ℕ fun _ => false).runUnder PopsFresh (start fun _ => false)
      (twoWaiters ++ pushedBack ++ [.spurious 2]) = some s ∧
    s.Holds 0 none ∧ (s.pc 0).Suspended ∧ (∀ c, ¬ s.Holds 0 (some c)) ∧
    s.resumptions 1 = 1 ∧ s.waits 1 = 1 := by
  have hreach := Machine.reachableUnder_of_run (M := machine ℕ fun _ : Unit => false)
    (G := PopsFresh) (l := twoWaiters ++ pushedBack ++ [.spurious 2]) rfl
  obtain ⟨hsusp, hunique, -, -⟩ := list_sound hreach
  refine ⟨_, rfl, .here, hsusp 0 none .here, ?_, rfl, rfl⟩
  intro c hc
  have hplace := hunique 0 none (some c) .here hc
  cases hplace

/-- The exchange of the first notifier succeeds.  The coroutine that was resumed leaves the mutex,
and somebody calls `notify_one`. -/
def revived : List (Action ℕ Unit Bool) :=
  [.move (.unlock 1 ()), .move (.begin 5), .move (.notifyOne 5), .move (.advance 5),
    .move (.advance 5), .move (.advance 5), .move (.advance 5), .move (.advance 5)]

/-- After the exchange the list begins with the awaiter of a coroutine that has returned from its
wait; it has waited once and is resumed twice. -/
theorem head_revived : ∃ s s' : State ℕ Unit Bool,
    (machine ℕ fun _ => false).run (start fun _ => false)
      (twoWaiters ++ pushedBack ++ [.move (.advance 2)]) = some s ∧
    s.mAwaiters = some 1 ∧ s.pc 1 = .running ∧
    (machine ℕ fun _ => false).run s revived = some s' ∧ s'.waits 1 = 1 ∧ s'.resumptions 1 = 2 := by
  exact ⟨_, _, rfl, rfl, rfl, rfl, rfl, rfl⟩

end Libcoro.AwaiterList
