import Libcoro.Event.Model

/-!
# `coro::latch`

A latch is a counter and an event that begins set if the count is not positive.  `count_down`
subtracts its amount and, judging by the value that its `fetch_sub` returns, sets the event; this
may happen in several calls, or again long after the event has been set.  The arithmetic of the
counter is that of an atomic `int64_t`, which wraps around.
-/

namespace Libcoro.Latch

open Foundations Function

/-- The value of an `int64_t`. -/
def int64 (x : ℤ) : ℤ :=
  x.bmod (2 ^ 64)

/-- A latch and the coroutines that use it. -/
structure State (ι : Type*) where
  mCount : ℤ
  mEvent : Event.State ι
  -- The calls of `count_down` before their `fetch_sub`, with the amount and with who is to resume
  -- the awaiters: the calling thread, or an executor in the overload that takes one.
  entered : ι → Option (ℤ × Event.Resumer)
  -- History, read by no step: the sum of the amounts subtracted so far.
  subtracted : ℤ

/-- A coroutine calls `count_down`, awaits the latch, takes its next step, or has its weak
compare-exchange in `await_suspend` fail for no reason. -/
inductive Action (ι : Type*) where
  | countDown (c : ι) (n : ℤ) (r : Event.Resumer)
  | await (c : ι)
  | advance (c : ι)
  | spurious (c : ι)
  deriving DecidableEq, Repr

variable {ι : Type*}

variable [DecidableEq ι]

/-- `is_ready`. -/
def State.isReady (s : State ι) : Bool :=
  s.mEvent.mState = .this

/-- The `fetch_sub` of `count_down`; the call goes on with `m_event.set()` or returns. -/
def fetchSub (s : State ι) (c : ι) (n : ℤ) (r : Event.Resumer) : State ι where
  mCount := int64 (s.mCount - n)
  mEvent := if s.mCount ≤ n then s.mEvent.goto c (Event.Call.set r .lifo).entry else s.mEvent
  entered := update s.entered c none
  subtracted := s.subtracted + n

/-- A step of the event. -/
def State.withEvent (s : State ι) (a : Event.Action ι) : Option (State ι) :=
  (Event.step s.mEvent a).map fun e => { s with mEvent := e }

/-- One step of the system. -/
def step (s : State ι) : Action ι → Option (State ι)
  | .countDown c n r =>
    if s.mEvent.pc c = .running ∧ s.entered c = none then
      some { s with entered := update s.entered c (some (n, r)) }
    else none
  | .await c => if s.entered c = none then s.withEvent (.call c .await) else none
  | .advance c =>
    match s.entered c with
    | some (n, r) => some (fetchSub s c n r)
    | none => s.withEvent (.advance c)
  | .spurious c => s.withEvent (.spurious c)

/-- A latch with the given count and its users as a machine. -/
def machine (ι : Type*) [DecidableEq ι] (count : ℤ) : Machine (State ι) (Action ι) where
  start :=
    { mCount := count
      mEvent := Event.start (decide (count ≤ 0))
      entered := fun _ => none
      subtracted := 0 }
  step := step

/-- The amounts are not negative. -/
def Nonneg (_ : State ι) : Action ι → Prop
  | .countDown _ n _ => 0 ≤ n
  | _ => True

instance (s : State ι) (a : Action ι) : Decidable (Nonneg s a) := by
  unfold Nonneg
  split <;> infer_instance

variable {s t : State ι} {a : Action ι}

/-- A step of the system is the beginning of a `count_down`, its `fetch_sub`, the beginning of an
`await`, or a step of a coroutine inside the event. -/
lemma step_cases (h : step s a = some t) :
    (∃ c n r, a = .countDown c n r ∧ s.mEvent.pc c = .running ∧ s.entered c = none ∧
      t = { s with entered := update s.entered c (some (n, r)) }) ∨
    (∃ c n r, s.entered c = some (n, r) ∧ t = fetchSub s c n r) ∨
    (∃ c, s.entered c = none ∧ s.mEvent.pc c = .running ∧
      t = { s with mEvent := s.mEvent.goto c .awaitReady }) ∨
    ∃ c e, s.mEvent.pc c ≠ .running ∧ Event.Transition s.mEvent c e ∧
      t = { s with mEvent := e } := by
  cases a with
  | countDown c n r =>
    simp only [step] at h
    split_ifs at h with hc
    exact Or.inl ⟨c, n, r, rfl, hc.1, hc.2, (Option.some.inj h).symm⟩
  | await c =>
    simp only [step] at h
    split_ifs at h with hc
    obtain ⟨e, he, rfl⟩ := Option.map_eq_some_iff.mp h
    obtain ⟨hrun, rfl⟩ : s.mEvent.pc c = .running ∧ s.mEvent.goto c .awaitReady = e := by
      simpa [Event.step, Event.Call.entry] using he
    exact Or.inr (Or.inr (Or.inl ⟨c, hc, hrun, rfl⟩))
  | advance c =>
    simp only [step] at h
    split at h
    · exact Or.inr (Or.inl ⟨c, _, _, ‹_›, (Option.some.inj h).symm⟩)
    · obtain ⟨e, he, rfl⟩ := Option.map_eq_some_iff.mp h
      refine Or.inr (Or.inr (Or.inr ⟨c, e, ?_, Event.step_transition he, rfl⟩))
      intro hrun
      simp [Event.step, Event.advance, hrun] at he
  | spurious c =>
    obtain ⟨e, he, rfl⟩ := Option.map_eq_some_iff.mp h
    refine Or.inr (Or.inr (Or.inr ⟨c, e, ?_, Event.step_transition he, rfl⟩))
    intro hrun
    simp [Event.step, hrun] at he

end Libcoro.Latch
