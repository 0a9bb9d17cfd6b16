import Libcoro.Foundations.Machine
import Libcoro.Foundations.LinkedStack

/-!
# `coro::event`

The word `m_state` is null, the address of the event (`Word.this`) or the head of a list of awaiters
that are linked by their `m_next`.  Every load, exchange and compare-exchange of `m_state` and every
read and write of an `m_next` is a step of its own; a weak compare-exchange may fail without a
reason.

The awaiter of a coroutine is named by the coroutine.  It is a part of the frame of the coroutine,
so that a coroutine that awaits the event again inserts an awaiter with the same address, possibly
while a `set` still walks the list on which the awaiter was before.
-/

namespace Libcoro.Event

open Foundations Function

/-- What `m_state` can be. -/
inductive Word (ι : Type*) where
  | null
  | this
  | awaiter (w : ι)
  deriving DecidableEq, Repr

inductive ResumeOrderPolicy where
  | lifo
  | fifo
  deriving DecidableEq, Repr

/-- Who resumes the awaiters: the thread that calls `set`, or the executor that is given to it. -/
inductive Resumer where
  | thread
  | executor
  deriving DecidableEq, Repr

/-- The operations on an event. -/
inductive Call where
  | await
  | set (r : Resumer) (policy : ResumeOrderPolicy)
  | reset
  deriving DecidableEq, Repr

/-- Where a coroutine stands.  In `await_suspend` it loads `m_state`, writes its `m_next` and
exchanges; a failed exchange has loaded `m_state` again.  In `set` it exchanges, reverses the
detached list if asked to, and then reads the `m_next` of each awaiter before it resumes it. -/
inductive Pc (ι : Type*) where
  | running
  | awaitReady
  | suspendLoad
  | suspendLink (old : Word ι)
  | suspendExchange (old : Word ι)
  | suspended
  | queued
  | setExchange (r : Resumer) (policy : ResumeOrderPolicy)
  | reverseTest (r : Resumer) (curr : Option ι)
  | reverseNext (r : Resumer) (curr prev : Option ι)
  | reverseLink (r : Resumer) (curr : ι) (prev next : Option ι)
  | walk (r : Resumer) (waiters : Option ι)
  | resume (r : Resumer) (waiter : ι) (next : Option ι)
  | resetExchange
  deriving DecidableEq, Repr

/-- The history of a call of `set`: the awaiters that it has detached, in the order of their
insertion, those that it has resumed, in this order, and how many calls of `set` exchanged
`m_state` before it did. -/
structure SetCall (ι : Type*) where
  policy : ResumeOrderPolicy
  detached : List ι
  resumed : List ι
  exchangedAt : ℕ

/-- An event and the coroutines that use it. -/
structure State (ι : Type*) where
  mState : Word ι
  mNext : ι → Option ι
  pc : ι → Pc ι
  -- History, read by no step: the awaiters inserted since `set` last exchanged `m_state`, in the
  -- order of their insertion; how often `set` has done so; for each coroutine, how often it had
  -- been done when its awaiter was last inserted, how often the awaiter has been inserted and
  -- resumed, and its latest `set`; and whether the last of all calls of `set` and `reset` was a
  -- `set`.
  listed : List ι
  exchanges : ℕ
  insertedAt : ι → ℕ
  insertions : ι → ℕ
  resumptions : ι → ℕ
  sets : ι → SetCall ι
  lastSet : Bool

/-- A coroutine calls an operation, takes its next step, or has its weak compare-exchange fail
although `m_state` is as expected. -/
inductive Action (ι : Type*) where
  | call (c : ι) (f : Call)
  | advance (c : ι)
  | spurious (c : ι)
  deriving DecidableEq, Repr

variable {ι : Type*}

/-- The cast of `m_state` to `awaiter*`. -/
def Word.pointer : Word ι → Option ι
  | .awaiter w => some w
  | _ => none

/-- The order in which a `set` resumes the awaiters `l`, given in the order of their insertion. -/
@[simp] def ResumeOrderPolicy.order (l : List ι) : ResumeOrderPolicy → List ι
  | .lifo => l.reverse
  | .fifo => l

/-- The first step of a call. -/
def Call.entry : Call → Pc ι
  | .await => .awaitReady
  | .set r policy => .setExchange r policy
  | .reset => .resetExchange

/-- Where the coroutine of an awaiter is once it has been resumed. -/
def Resumer.resumed : Resumer → Pc ι
  | .thread => .running
  | .executor => .queued

/-- What a `set` does first with the list that it has detached. -/
def ResumeOrderPolicy.first (r : Resumer) (head : Option ι) : ResumeOrderPolicy → Pc ι
  | .lifo => .walk r head
  | .fifo => .reverseTest r head

variable [DecidableEq ι]

/-- Moves the control point of `c`. -/
@[simp] def State.goto (s : State ι) (c : ι) (p : Pc ι) : State ι :=
  { s with pc := update s.pc c p }

/-- The test of the loop in `await_suspend`. -/
def suspendTest (s : State ι) (c : ι) : State ι :=
  if s.mState = .this then s.goto c .running else s.goto c (.suspendLink s.mState)

/-- `c` has put its awaiter on the list. -/
def insert (s : State ι) (c : ι) : State ι :=
  { s.goto c .suspended with
    mState := .awaiter c
    listed := s.listed ++ [c]
    insertedAt := update s.insertedAt c s.exchanges
    insertions := update s.insertions c (s.insertions c + 1) }

/-- `set` exchanges `m_state`. -/
def setExchange (s : State ι) (c : ι) (r : Resumer) (policy : ResumeOrderPolicy) : State ι :=
  { s.goto c (if s.mState = .this then .running else policy.first r s.mState.pointer) with
    mState := .this
    listed := []
    exchanges := s.exchanges + 1
    sets := update s.sets c ⟨policy, s.listed, [], s.exchanges⟩
    lastSet := true }

/-- `c` resumes the awaiter `w` in its `set` and goes on with `next`. -/
def resume (s : State ι) (c : ι) (r : Resumer) (w : ι) (next : Option ι) : State ι :=
  { (s.goto w r.resumed).goto c (.walk r next) with
    resumptions := update s.resumptions w (s.resumptions w + 1)
    sets := update s.sets c
      { s.sets c with resumed := (s.sets c).resumed ++ [w] } }

/-- The compare-exchange of `reset`. -/
def reset (s : State ι) (c : ι) : State ι :=
  { s.goto c .running with
    mState := if s.mState = .this then .null else s.mState
    lastSet := false }

/-- The next step of the coroutine `c`. -/
def advance (s : State ι) (c : ι) : Option (State ι) :=
  match s.pc c with
  | .awaitReady =>
    if s.mState = .this then some (s.goto c .running) else some (s.goto c .suspendLoad)
  | .suspendLoad => some (suspendTest s c)
  | .suspendLink old =>
    some { s.goto c (.suspendExchange old) with
      mNext := update s.mNext c old.pointer }
  | .suspendExchange old =>
    if s.mState = old then some (insert s c) else some (suspendTest s c)
  | .queued => some (s.goto c .running)
  | .setExchange r policy => some (setExchange s c r policy)
  | .reverseTest r none => some (s.goto c (.walk r none))
  | .reverseTest r (some x) =>
    if s.mNext x = none then some (s.goto c (.walk r (some x)))
    else some (s.goto c (.reverseNext r (some x) none))
  | .reverseNext r none prev => some (s.goto c (.walk r prev))
  | .reverseNext r (some x) prev => some (s.goto c (.reverseLink r x prev (s.mNext x)))
  | .reverseLink r x prev next =>
    some { s.goto c (.reverseNext r next (some x)) with mNext := update s.mNext x prev }
  | .walk _ none => some (s.goto c .running)
  | .walk r (some w) => some (s.goto c (.resume r w (s.mNext w)))
  | .resume r w next => some (resume s c r w next)
  | .resetExchange => some (reset s c)
  | .running | .suspended => none

/-- One step of the system. -/
def step (s : State ι) : Action ι → Option (State ι)
  | .call c f => if s.pc c = .running then some (s.goto c f.entry) else none
  | .advance c => advance s c
  | .spurious c =>
    match s.pc c with
    | .suspendExchange _ => some (suspendTest s c)
    | _ => none

/-- A new event that nobody has used. -/
def start (initiallySet : Bool) : State ι where
  mState := if initiallySet then .this else .null
  mNext _ := none
  pc _ := .running
  listed := []
  exchanges := 0
  insertedAt _ := 0
  insertions _ := 0
  resumptions _ := 0
  sets _ := ⟨.lifo, [], [], 0⟩
  lastSet := initiallySet

/-- An event and its users as a machine. -/
def machine (ι : Type*) [DecidableEq ι] (initiallySet : Bool) : Machine (State ι) (Action ι) where
  start := start initiallySet
  step := step

/-! ## The transitions -/

/-- The moves of a coroutine that change nothing but its control point. -/
inductive Quiet (s : State ι) : Pc ι → Pc ι → Prop
  | call {f : Call} : Quiet s .running f.entry
  | ready : s.mState = .this → Quiet s .awaitReady .running
  | notReady : s.mState ≠ .this → Quiet s .awaitReady .suspendLoad
  | loadSet : s.mState = .this → Quiet s .suspendLoad .running
  | load : s.mState ≠ .this → Quiet s .suspendLoad (.suspendLink s.mState)
  | reloadSet {old : Word ι} : s.mState = .this → Quiet s (.suspendExchange old) .running
  | reload {old : Word ι} : s.mState ≠ .this →
      Quiet s (.suspendExchange old) (.suspendLink s.mState)
  | execute : Quiet s .queued .running
  | reverseShort {r : Resumer} {curr : Option ι} : (∀ x, curr = some x → s.mNext x = none) →
      Quiet s (.reverseTest r curr) (.walk r curr)
  | reverseLong {r : Resumer} {x : ι} :
      Quiet s (.reverseTest r (some x)) (.reverseNext r (some x) none)
  | reverseNext {r : Resumer} {x : ι} {prev : Option ι} :
      Quiet s (.reverseNext r (some x) prev) (.reverseLink r x prev (s.mNext x))
  | reverseDone {r : Resumer} {prev : Option ι} : Quiet s (.reverseNext r none prev) (.walk r prev)
  | walkNext {r : Resumer} {w : ι} : Quiet s (.walk r (some w)) (.resume r w (s.mNext w))
  | walkDone {r : Resumer} : Quiet s (.walk r none) .running

/-- What a step of the coroutine `c` can do. -/
inductive Transition (s : State ι) (c : ι) : State ι → Prop
  | quiet {p : Pc ι} : Quiet s (s.pc c) p → Transition s c (s.goto c p)
  | link {old : Word ι} : s.pc c = .suspendLink old →
      Transition s c { s.goto c (.suspendExchange old) with
        mNext := update s.mNext c old.pointer }
  | insert : s.pc c = .suspendExchange s.mState → Transition s c (insert s c)
  | set {r : Resumer} {policy : ResumeOrderPolicy} : s.pc c = .setExchange r policy →
      Transition s c (setExchange s c r policy)
  | relink {r : Resumer} {x : ι} {prev next : Option ι} : s.pc c = .reverseLink r x prev next →
      Transition s c { s.goto c (.reverseNext r next (some x)) with
        mNext := update s.mNext x prev }
  | resume {r : Resumer} {w : ι} {next : Option ι} : s.pc c = .resume r w next →
      Transition s c (resume s c r w next)
  | reset : s.pc c = .resetExchange → Transition s c (reset s c)

variable {s t : State ι} {c : ι}

/-- The test of the loop in `await_suspend` only moves its caller. -/
lemma suspendTest_transition (hc : s.pc c = .suspendLoad ∨ ∃ old, s.pc c = .suspendExchange old) :
    Transition s c (suspendTest s c) := by
  unfold suspendTest
  rcases hc with hc | ⟨old, hc⟩
  · split_ifs with hset
    · exact .quiet (hc ▸ .loadSet hset)
    · exact .quiet (hc ▸ .load hset)
  · split_ifs with hset
    · exact .quiet (hc ▸ .reloadSet hset)
    · exact .quiet (hc ▸ .reload hset)

/-- Every step of a coroutine is one of the listed transitions. -/
lemma advance_transition (h : advance s c = some t) : Transition s c t := by
  unfold advance at h
  split at h <;> rename_i hc
  · split_ifs at h with hset
    · cases h
      exact .quiet (hc ▸ .ready hset)
    · cases h
      exact .quiet (hc ▸ .notReady hset)
  · cases h
    exact suspendTest_transition (Or.inl hc)
  · cases h
    exact .link hc
  · split_ifs at h with hold
    · cases h
      exact .insert (hold ▸ hc)
    · cases h
      exact suspendTest_transition (Or.inr ⟨_, hc⟩)
  · cases h
    exact .quiet (hc ▸ .execute)
  · cases h
    exact .set hc
  · cases h
    exact .quiet (hc ▸ .reverseShort nofun)
  · split_ifs at h with hnext
    · cases h
      refine .quiet (hc ▸ .reverseShort ?_)
      rintro y ⟨⟩
      exact hnext
    · cases h
      exact .quiet (hc ▸ .reverseLong)
  · cases h
    exact .quiet (hc ▸ .reverseDone)
  · cases h
    exact .quiet (hc ▸ .reverseNext)
  · cases h
    exact .relink hc
  · cases h
    exact .quiet (hc ▸ .walkDone)
  · cases h
    exact .quiet (hc ▸ .walkNext)
  · cases h
    exact .resume hc
  · cases h
    exact .reset hc
  all_goals simp at h

/-- Whose step a label is. -/
def Action.actor : Action ι → ι
  | .call c _ => c
  | .advance c => c
  | .spurious c => c

/-- Every step of the system is one of the listed transitions. -/
lemma step_transition {a : Action ι} (h : step s a = some t) : Transition s a.actor t := by
  cases a with
  | call c f =>
    obtain ⟨hc, rfl⟩ : s.pc c = .running ∧ s.goto c f.entry = t := by simpa [step] using h
    exact .quiet (hc ▸ .call)
  | advance c => exact advance_transition h
  | spurious c =>
    simp only [step] at h
    split at h <;> rename_i hc
    · cases h
      exact suspendTest_transition (Or.inr ⟨_, hc⟩)
    · simp at h

end Libcoro.Event
