import Libcoro.Foundations.Machine
import Libcoro.Foundations.Roster

/-!
# `coro::task_group`

A task is named by the call of `start` that adds it to the group.  `start` resets the event, adds
one to `m_size` and hands the task to the executor; if the executor refuses it, `start` counts down
itself.  A task that has ended counts down in its `final_suspend`.  `count_down` subtracts one from
`m_size` and, if it was the last one, sets the event.  The destructor polls `m_size`.

The event is modelled by whether it is set: `reset` is one compare-exchange of its word, and after
the exchange of its word `set` does not touch the event any more.  `start` is called by the users
of the group, which do so only until they destroy it, and by running tasks; a task that has called
it goes on when it has returned.
-/

namespace Libcoro.TaskGroup

open Foundations

/-- Where a task is.  `r` tells which of its two callers runs `count_down`: `start`, after the
executor has refused the task (`true`), or the task itself. -/
inductive Pc (τ : Type*) where
  | idle
  | reset
  | increment
  | resume
  | running
  | starting (k : τ)
  | countDown (r : Bool)
  | setEvent (r : Bool)
  | finished
  | refused
  deriving DecidableEq, Repr

/-- Where the destructor is: its loop has been left when it has `exited`. -/
inductive Destructor where
  | notCalled
  | polling
  | exited
  deriving DecidableEq, Repr

/-- A task group, its tasks and its destructor. -/
structure State (τ : Type*) where
  mSize : ℤ
  mOnEmptyEvent : Bool
  pc : τ → Pc τ
  -- The tasks for which a user has called `start`.
  userStarts : Finset τ
  destructor : Destructor
  -- History, read by no step: who is counted in `m_size`, who has yet to set the event, and whose
  -- `start` is between its reset and its increment.
  counted : Finset τ
  setting : Finset τ
  resetting : Finset τ

/-- `start` is called by a user or by the running task `p`, a call of `start` or `count_down` takes
its next step, the executor refuses a task, a task ends, the destructor is called, or it looks at
`m_size`. -/
inductive Action (τ : Type*) where
  | start (k : τ) (p : Option τ)
  | advance (k : τ)
  | refuse (k : τ)
  | finish (k : τ)
  | destroy
  | poll
  deriving DecidableEq, Repr

/-- The `start` of the task has been called and has not returned. -/
def Pc.inStart {τ : Type*} : Pc τ → Bool
  | .reset => true
  | .increment => true
  | .resume => true
  | .countDown r => r
  | .setEvent r => r
  | _ => false

/-- What follows a `count_down`: `start` returns, or the task deletes itself. -/
def Pc.countedDown {τ : Type*} (r : Bool) : Pc τ :=
  if r then .refused else .finished

variable {τ : Type*} [DecidableEq τ]

/-- Moves the control point of `k`. -/
@[simp] def State.goto (s : State τ) (k : τ) (p : Pc τ) : State τ :=
  { s with pc := Function.update s.pc k p }

/-- `start` is called. -/
def start (s : State τ) (k : τ) : Option τ → Option (State τ)
  | none =>
    if s.pc k = .idle ∧ s.destructor = .notCalled then
      some { s.goto k .reset with userStarts := insert k s.userStarts }
    else none
  | some p =>
    if s.pc k = .idle ∧ s.pc p = .running then some ((s.goto k .reset).goto p (.starting k))
    else none

/-- The next step of `start` or `count_down`. -/
def advance (s : State τ) (k : τ) : Option (State τ) :=
  match s.pc k with
  | .reset =>
    some { s.goto k .increment with
      mOnEmptyEvent := false
      resetting := insert k s.resetting }
  | .increment =>
    some { s.goto k .resume with
      mSize := s.mSize + 1
      counted := insert k s.counted
      resetting := s.resetting.erase k }
  | .resume => some (s.goto k .running)
  | .starting j => if (s.pc j).inStart then none else some (s.goto k .running)
  | .countDown r =>
    if s.mSize = 1 then
      some { s.goto k (.setEvent r) with
        mSize := s.mSize - 1
        counted := s.counted.erase k
        setting := insert k s.setting }
    else
      some { s.goto k (.countedDown r) with
        mSize := s.mSize - 1
        counted := s.counted.erase k }
  | .setEvent r =>
    some { s.goto k (.countedDown r) with
      mOnEmptyEvent := true
      setting := s.setting.erase k }
  | .idle | .running | .finished | .refused => none

/-- One step of the system. -/
def step (s : State τ) : Action τ → Option (State τ)
  | .start k p => start s k p
  | .advance k => advance s k
  | .refuse k => if s.pc k = .resume then some (s.goto k (.countDown true)) else none
  | .finish k => if s.pc k = .running then some (s.goto k (.countDown false)) else none
  | .destroy =>
    if s.destructor = .notCalled ∧ ∀ k ∈ s.userStarts, (s.pc k).inStart = false then
      some { s with destructor := .polling }
    else none
  | .poll =>
    if s.destructor = .polling then
      some { s with destructor := if s.mSize = 0 then .exited else .polling }
    else none

/-- A new task group. -/
def init : State τ where
  mSize := 0
  mOnEmptyEvent := true
  pc _ := .idle
  userStarts := ∅
  destructor := .notCalled
  counted := ∅
  setting := ∅
  resetting := ∅

/-- A task group, its users and its tasks as a machine. -/
def machine (τ : Type*) [DecidableEq τ] : Machine (State τ) (Action τ) where
  start := init
  step := step

/-! ## The transitions -/

/-- The moves of a task that change nothing but its control point. -/
inductive Quiet : Pc τ → Pc τ → Prop
  | accept : Quiet .resume .running
  | refuse : Quiet .resume (.countDown true)
  | finish : Quiet .running (.countDown false)
  | returned {j : τ} : Quiet (.starting j) .running

/-- What a step can do. -/
inductive Transition (s : State τ) : Action τ → State τ → Prop
  | quiet {a : Action τ} {k : τ} {p : Pc τ} : Quiet (s.pc k) p →
      (∀ j, s.pc k = .starting j → (s.pc j).inStart = false) → Transition s a (s.goto k p)
  | userStart {k : τ} : s.pc k = .idle → s.destructor = .notCalled →
      Transition s (.start k none) { s.goto k .reset with userStarts := insert k s.userStarts }
  | taskStart {k p : τ} : s.pc k = .idle → s.pc p = .running →
      Transition s (.start k (some p)) ((s.goto k .reset).goto p (.starting k))
  | reset {k : τ} : s.pc k = .reset →
      Transition s (.advance k) { s.goto k .increment with
        mOnEmptyEvent := false
        resetting := insert k s.resetting }
  | increment {k : τ} : s.pc k = .increment →
      Transition s (.advance k) { s.goto k .resume with
        mSize := s.mSize + 1
        counted := insert k s.counted
        resetting := s.resetting.erase k }
  | last {k : τ} {r : Bool} : s.pc k = .countDown r → s.mSize = 1 →
      Transition s (.advance k) { s.goto k (.setEvent r) with
        mSize := s.mSize - 1
        counted := s.counted.erase k
        setting := insert k s.setting }
  | countDown {k : τ} {r : Bool} : s.pc k = .countDown r → s.mSize ≠ 1 →
      Transition s (.advance k) { s.goto k (.countedDown r) with
        mSize := s.mSize - 1
        counted := s.counted.erase k }
  | set {k : τ} {r : Bool} : s.pc k = .setEvent r →
      Transition s (.advance k) { s.goto k (.countedDown r) with
        mOnEmptyEvent := true
        setting := s.setting.erase k }
  | destroy : (∀ k ∈ s.userStarts, (s.pc k).inStart = false) →
      Transition s .destroy { s with destructor := .polling }
  | exit : s.destructor = .polling → s.mSize = 0 →
      Transition s .poll { s with destructor := .exited }
  | again : s.destructor = .polling → Transition s .poll { s with destructor := .polling }

variable {s t : State τ}

/-- Every step of `start` or `count_down` is one of the listed transitions. -/
lemma advance_transition {k : τ} (h : advance s k = some t) : Transition s (.advance k) t := by
  unfold advance at h
  split at h <;> rename_i hk
  · cases h
    exact .reset hk
  · cases h
    exact .increment hk
  · cases h
    exact .quiet (hk ▸ .accept) (by simp [hk])
  · rename_i j
    split_ifs at h with hj
    cases h
    refine .quiet (hk ▸ .returned (j := j)) ?_
    intro i hi
    obtain rfl : j = i := by simpa [hk] using hi
    simpa using hj
  · split_ifs at h with hlast
    · cases h
      exact .last hk hlast
    · cases h
      exact .countDown hk hlast
  · cases h
    exact .set hk
  all_goals simp at h

/-- Every step of the system is one of the listed transitions. -/
lemma step_transition {a : Action τ} (h : step s a = some t) : Transition s a t := by
  cases a with
  | start k p =>
    cases p with
    | none =>
      obtain ⟨⟨hk, hd⟩, rfl⟩ := by simpa [step, start] using h
      exact .userStart hk hd
    | some p =>
      obtain ⟨⟨hk, hp⟩, rfl⟩ := by simpa [step, start] using h
      exact .taskStart hk hp
  | advance k => exact advance_transition h
  | refuse k =>
    obtain ⟨hk, rfl⟩ := by simpa [step] using h
    exact .quiet (hk ▸ .refuse) (by simp [hk])
  | finish k =>
    obtain ⟨hk, rfl⟩ := by simpa [step] using h
    exact .quiet (hk ▸ .finish) (by simp [hk])
  | destroy =>
    obtain ⟨⟨-, husers⟩, rfl⟩ := by simpa [step] using h
    exact .destroy husers
  | poll =>
    obtain ⟨hd, rfl⟩ := by simpa [step] using h
    split_ifs with hsize
    · exact .exit hd hsize
    · exact .again hd

end Libcoro.TaskGroup
