import Libcoro.Foundations.Machine
import Libcoro.Foundations.Tally

/-!
# The thread pool

`coro::thread_pool` as a machine.  Every call that hands a coroutine to the pool is a submission
with a name of its own, also if several of them submit the same coroutine one after the other, and
the control point of a submission follows it from the call to the end of its execution.  Calls may
be made at any time and by anybody, in particular by the coroutines that a worker executes.

A load, an increment or a decrement of an atomic is one step, and so is each critical section of
`m_wait_mutex`.  A worker that finds nothing to do waits by not being able to move.

The fields `charge`, `spawned`, `finished`, `enqueued` and `resumed` are not part of the source:
they record for whom `m_size` was incremented, which submissions are those of `spawn_detached` and
have run to their end, and the order in which handles were enqueued and resumed.
-/

namespace Libcoro.ThreadPool

open Foundations Function

/-- A coroutine handle as `resume` sees it. -/
inductive Handle
  | null
  | done
  | ready
  deriving DecidableEq, Repr

/-- Where a submission is. -/
inductive Pc (κ ω : Type*)
  | idle
  -- `schedule()`: after the increment, before the decrement that undoes it, and returned
  | scheduleCheck
  | scheduleUndo
  | scheduled
  -- `spawn_detached`, about to call `resume`
  | spawnResume
  -- `resume(handle)`: after the increment, and before the decrement that undoes it
  | resumeCheck
  | resumeUndo
  -- in `schedule_impl`
  | enqueue
  -- an element of the range of the call `r` of `resume(range)`
  | pending (r : κ)
  | pendingNull (r : κ)
  -- accepted: in `m_queue`, taken out by a worker, being executed, and over
  | queued
  | taken (w : ω)
  | executing (w : ω)
  | done
  | rejected
  deriving DecidableEq, Repr

/-- A call of `resume(range)`, before its critical section and before the decrement for the null
handles. -/
inductive RangePc (κ : Type*)
  | idle
  | lock (handles : List (κ × Bool))
  | undo (handles : List (κ × Bool))
  | returned (total : ℕ)
  deriving DecidableEq, Repr

/-- Where a worker is in `executor`; `drain` tells the second loop from the first. -/
inductive WorkerPc (κ : Type*)
  | loopTest
  | waitSection
  | run (k : κ) (drain : Bool)
  | sub (k : κ) (drain : Bool)
  | drainTest
  | drainSection
  | left
  deriving DecidableEq, Repr

/-- The pool with its submissions `κ` and its workers `ω`. -/
structure State (κ ω : Type*) where
  mSize : ℕ
  mShutdownRequested : Bool
  mQueue : List κ
  worker : ω → WorkerPc κ
  pc : κ → Pc κ ω
  range : κ → RangePc κ
  charge : κ → ℕ
  spawned : κ → Bool
  finished : κ → Bool
  enqueued : List κ
  resumed : List κ

/-- The steps.  A call of `resume(range)` is named by `r`; its elements come with the information
whether they are handles other than null. -/
inductive Action (κ ω : Type*)
  | schedule (k : κ)
  | await (k : κ)
  | spawnDetached (k : κ)
  | resume (k : κ) (h : Handle)
  | advance (k : κ)
  | resumeRange (r : κ) (handles : List (κ × Bool))
  | advanceRange (r : κ)
  | worker (w : ω)
  | finalSuspend (k : κ)
  | shutdown
  deriving DecidableEq, Repr

variable {κ ω : Type*}

/-- The names of the handles other than null in a range. -/
def handlesOf (handles : List (κ × Bool)) : List κ :=
  (handles.filter (·.2)).map Prod.fst

/-- The names of the null handles in a range. -/
def nullsOf (handles : List (κ × Bool)) : List κ :=
  (handles.filter (!·.2)).map Prod.fst

/-- The pool after `make_unique`. -/
def start : State κ ω where
  mSize := 0
  mShutdownRequested := false
  mQueue := []
  worker := fun _ => .loopTest
  pc := fun _ => .idle
  range := fun _ => .idle
  charge := fun _ => 0
  spawned := fun _ => false
  finished := fun _ => false
  enqueued := []
  resumed := []

/-- A handle that is being executed or has been. -/
def Pc.Begun : Pc κ ω → Bool
  | .executing _ => true
  | .done => true
  | _ => false

variable [DecidableEq κ]

/-- `m_size.fetch_add`, once for every submission on the list. -/
@[simp] def State.fetchAdd (s : State κ ω) (ks : List κ) : State κ ω :=
  { s with mSize := s.mSize + ks.length, charge := credit ks s.charge }

/-- `m_size.fetch_sub`, once for every submission on the list. -/
@[simp] def State.fetchSub (s : State κ ω) (ks : List κ) : State κ ω :=
  { s with mSize := s.mSize - ks.length, charge := debit ks s.charge }

/-- The submission `k` goes on to `c`. -/
@[simp] def State.goto (s : State κ ω) (k : κ) (c : Pc κ ω) : State κ ω :=
  { s with pc := update s.pc k c }

/-- All submissions on the list go on to `c`. -/
@[simp] def State.gotoAll (s : State κ ω) (ks : List κ) (c : Pc κ ω) : State κ ω :=
  { s with pc := fun k => if k ∈ ks then c else s.pc k }

/-- The handles on the list are put into `m_queue`. -/
@[simp] def State.emplace (s : State κ ω) (ks : List κ) : State κ ω :=
  { s.gotoAll ks .queued with
    mQueue := s.mQueue ++ ks
    enqueued := s.enqueued ++ ks }

/-- The next step of a submission that has been called. -/
def advance (s : State κ ω) (k : κ) : Option (State κ ω) :=
  match s.pc k with
  | .scheduleCheck =>
    some (s.goto k (if s.mShutdownRequested then .scheduleUndo else .scheduled))
  | .scheduleUndo => some ((s.fetchSub [k]).goto k .rejected)
  | .spawnResume => some ((s.fetchAdd [k]).goto k .resumeCheck)
  | .resumeCheck => some (s.goto k (if s.mShutdownRequested then .resumeUndo else .enqueue))
  | .resumeUndo => some ((s.fetchSub [k]).goto k .rejected)
  | .enqueue => some (s.emplace [k])
  | _ => none

/-- The next step of a call of `resume(range)`. -/
def advanceRange (s : State κ ω) (r : κ) : Option (State κ ω) :=
  match s.range r with
  | .lock handles =>
    some { s.emplace (handlesOf handles) with
      range := update s.range r (.undo handles) }
  | .undo handles =>
    some { (s.fetchSub (nullsOf handles)).gotoAll (nullsOf handles) .rejected with
      range := update s.range r (.returned (handlesOf handles).length) }
  | _ => none

variable [DecidableEq ω]

/-- The worker `w` goes on to `c`. -/
@[simp] def State.workerGoto (s : State κ ω) (w : ω) (c : WorkerPc κ) : State κ ω :=
  { s with worker := update s.worker w c }

/-- The worker `w` takes the front of `m_queue`, or goes on to `otherwise` if there is none. -/
def State.pop (s : State κ ω) (w : ω) (drain : Bool) (otherwise : Option (WorkerPc κ)) :
    Option (State κ ω) :=
  match s.mQueue with
  | [] => otherwise.map (s.workerGoto w)
  | k :: rest => some { (s.goto k (.taken w)).workerGoto w (.run k drain) with mQueue := rest }

/-- The next step of a worker. -/
def advanceWorker (s : State κ ω) (w : ω) : Option (State κ ω) :=
  match s.worker w with
  | .loopTest =>
    some (s.workerGoto w (if s.mShutdownRequested then .drainTest else .waitSection))
  | .waitSection =>
    -- with an empty queue the wait ends only because of the shutdown
    s.pop w false (if s.mShutdownRequested then some .loopTest else none)
  | .run k drain =>
    some { (s.goto k (.executing w)).workerGoto w (.sub k drain) with
      resumed := s.resumed ++ [k] }
  | .sub k drain =>
    some (((s.fetchSub [k]).goto k .done).workerGoto w (if drain then .drainTest else .loopTest))
  | .drainTest => some (s.workerGoto w (if 0 < s.mSize then .drainSection else .left))
  | .drainSection => s.pop w true (some .left)
  | .left => none

/-- One step of the pool. -/
def step (s : State κ ω) : Action κ ω → Option (State κ ω)
  | .schedule k =>
    if s.pc k = .idle then some ((s.fetchAdd [k]).goto k .scheduleCheck) else none
  | .await k => if s.pc k = .scheduled then some (s.goto k .enqueue) else none
  | .spawnDetached k =>
    if s.pc k = .idle then
      some { (s.fetchAdd [k]).goto k .spawnResume with
        spawned := update s.spawned k true }
    else none
  | .resume k h =>
    if s.pc k = .idle then
      if h = .ready then some ((s.fetchAdd [k]).goto k .resumeCheck)
      else some (s.goto k .rejected)
    else none
  | .advance k => advance s k
  | .resumeRange r handles =>
    if s.range r = .idle ∧ (handles.map Prod.fst).Nodup ∧
        ∀ k ∈ handles.map Prod.fst, s.pc k = .idle then
      some { ((s.fetchAdd (handles.map Prod.fst)).gotoAll (handlesOf handles)
          (.pending r)).gotoAll (nullsOf handles) (.pendingNull r) with
        range := update s.range r (.lock handles) }
    else none
  | .advanceRange r => advanceRange s r
  | .worker w => advanceWorker s w
  | .finalSuspend k =>
    -- the callback of `spawn_detached`, once the coroutine has run to its end
    if s.spawned k = true ∧ s.finished k = false ∧ (s.pc k).Begun then
      some { s.fetchSub [k] with finished := update s.finished k true }
    else none
  | .shutdown => some { s with mShutdownRequested := true }

/-- What one step can do. -/
inductive Transition (s : State κ ω) : Action κ ω → State κ ω → Prop
  | schedule {k : κ} : s.pc k = .idle →
      Transition s (.schedule k) ((s.fetchAdd [k]).goto k .scheduleCheck)
  | scheduleAccept {k : κ} : s.pc k = .scheduleCheck → s.mShutdownRequested = false →
      Transition s (.advance k) (s.goto k .scheduled)
  | scheduleReject {k : κ} : s.pc k = .scheduleCheck → s.mShutdownRequested = true →
      Transition s (.advance k) (s.goto k .scheduleUndo)
  | scheduleUndo {k : κ} : s.pc k = .scheduleUndo →
      Transition s (.advance k) ((s.fetchSub [k]).goto k .rejected)
  | await {k : κ} : s.pc k = .scheduled → Transition s (.await k) (s.goto k .enqueue)
  | spawnDetached {k : κ} : s.pc k = .idle →
      Transition s (.spawnDetached k)
        { (s.fetchAdd [k]).goto k .spawnResume with
          spawned := update s.spawned k true }
  | spawnResume {k : κ} : s.pc k = .spawnResume →
      Transition s (.advance k) ((s.fetchAdd [k]).goto k .resumeCheck)
  | resume {k : κ} : s.pc k = .idle →
      Transition s (.resume k .ready) ((s.fetchAdd [k]).goto k .resumeCheck)
  | resumeInvalid {k : κ} {h : Handle} : s.pc k = .idle → h ≠ .ready →
      Transition s (.resume k h) (s.goto k .rejected)
  | resumeAccept {k : κ} : s.pc k = .resumeCheck → s.mShutdownRequested = false →
      Transition s (.advance k) (s.goto k .enqueue)
  | resumeReject {k : κ} : s.pc k = .resumeCheck → s.mShutdownRequested = true →
      Transition s (.advance k) (s.goto k .resumeUndo)
  | resumeUndo {k : κ} : s.pc k = .resumeUndo →
      Transition s (.advance k) ((s.fetchSub [k]).goto k .rejected)
  | enqueue {k : κ} : s.pc k = .enqueue → Transition s (.advance k) (s.emplace [k])
  | resumeRange {r : κ} {handles : List (κ × Bool)} : s.range r = .idle →
      (handles.map Prod.fst).Nodup → (∀ k ∈ handles.map Prod.fst, s.pc k = .idle) →
      Transition s (.resumeRange r handles)
        { ((s.fetchAdd (handles.map Prod.fst)).gotoAll (handlesOf handles)
            (.pending r)).gotoAll (nullsOf handles) (.pendingNull r) with
          range := update s.range r (.lock handles) }
  | emplaceRange {r : κ} {handles : List (κ × Bool)} : s.range r = .lock handles →
      Transition s (.advanceRange r)
        { s.emplace (handlesOf handles) with
          range := update s.range r (.undo handles) }
  | undoRange {r : κ} {handles : List (κ × Bool)} : s.range r = .undo handles →
      Transition s (.advanceRange r)
        { (s.fetchSub (nullsOf handles)).gotoAll (nullsOf handles) .rejected with
          range := update s.range r (.returned (handlesOf handles).length) }
  | beginDrain {w : ω} : s.worker w = .loopTest → s.mShutdownRequested = true →
      Transition s (.worker w) (s.workerGoto w .drainTest)
  | beginWait {w : ω} : s.worker w = .loopTest → s.mShutdownRequested = false →
      Transition s (.worker w) (s.workerGoto w .waitSection)
  | endWait {w : ω} : s.worker w = .waitSection → s.mQueue = [] → s.mShutdownRequested = true →
      Transition s (.worker w) (s.workerGoto w .loopTest)
  | take {w : ω} {k : κ} {rest : List κ} {drain : Bool} :
      s.worker w = (if drain then .drainSection else .waitSection) → s.mQueue = k :: rest →
      Transition s (.worker w)
        { (s.goto k (.taken w)).workerGoto w (.run k drain) with mQueue := rest }
  | run {w : ω} {k : κ} {drain : Bool} : s.worker w = .run k drain →
      Transition s (.worker w)
        { (s.goto k (.executing w)).workerGoto w (.sub k drain) with
          resumed := s.resumed ++ [k] }
  | sub {w : ω} {k : κ} {drain : Bool} : s.worker w = .sub k drain →
      Transition s (.worker w)
        (((s.fetchSub [k]).goto k .done).workerGoto w (if drain then .drainTest else .loopTest))
  | drain {w : ω} : s.worker w = .drainTest → 0 < s.mSize →
      Transition s (.worker w) (s.workerGoto w .drainSection)
  | leaveZero {w : ω} : s.worker w = .drainTest → s.mSize = 0 →
      Transition s (.worker w) (s.workerGoto w .left)
  | leaveEmpty {w : ω} : s.worker w = .drainSection → s.mQueue = [] →
      Transition s (.worker w) (s.workerGoto w .left)
  | finalSuspend {k : κ} : s.spawned k = true → s.finished k = false → (s.pc k).Begun = true →
      Transition s (.finalSuspend k)
        { s.fetchSub [k] with finished := update s.finished k true }
  | shutdown : Transition s .shutdown { s with mShutdownRequested := true }

variable {s s' : State κ ω}

lemma advance_transition {k : κ} (h : advance s k = some s') :
    Transition s (.advance k) s' := by
  unfold advance at h
  split at h <;> rename_i hc
  · split_ifs at h with hf
    · cases h
      exact .scheduleReject hc hf
    · cases h
      exact .scheduleAccept hc (by simpa using hf)
  · cases h
    exact .scheduleUndo hc
  · cases h
    exact .spawnResume hc
  · split_ifs at h with hf
    · cases h
      exact .resumeReject hc hf
    · cases h
      exact .resumeAccept hc (by simpa using hf)
  · cases h
    exact .resumeUndo hc
  · cases h
    exact .enqueue hc
  · cases h

lemma advanceRange_transition {r : κ} (h : advanceRange s r = some s') :
    Transition s (.advanceRange r) s' := by
  unfold advanceRange at h
  split at h <;> rename_i hc
  · cases h
    exact .emplaceRange hc
  · cases h
    exact .undoRange hc
  · cases h

lemma advanceWorker_transition {w : ω} (h : advanceWorker s w = some s') :
    Transition s (.worker w) s' := by
  cases hc : s.worker w with
  | loopTest =>
    simp only [advanceWorker, hc] at h
    split_ifs at h with hf
    · cases h
      exact .beginDrain hc hf
    · cases h
      exact .beginWait hc (by simpa using hf)
  | waitSection =>
    cases hq : s.mQueue with
    | nil =>
      cases hf : s.mShutdownRequested with
      | false => simp [advanceWorker, hc, State.pop, hq, hf] at h
      | true =>
        simp only [advanceWorker, hc, State.pop, hq, hf, if_true] at h
        cases h
        exact .endWait hc hq hf
    | cons k rest =>
      simp only [advanceWorker, hc, State.pop, hq] at h
      cases h
      exact .take (by simpa using hc) hq
  | run k drain =>
    simp only [advanceWorker, hc] at h
    cases h
    exact .run hc
  | sub k drain =>
    simp only [advanceWorker, hc] at h
    cases h
    exact .sub hc
  | drainTest =>
    simp only [advanceWorker, hc] at h
    split_ifs at h with hsize
    · cases h
      exact .drain hc hsize
    · cases h
      exact .leaveZero hc (by omega)
  | drainSection =>
    cases hq : s.mQueue with
    | nil =>
      simp only [advanceWorker, hc, State.pop, hq] at h
      cases h
      exact .leaveEmpty hc hq
    | cons k rest =>
      simp only [advanceWorker, hc, State.pop, hq] at h
      cases h
      exact .take (by simpa using hc) hq
  | left => simp [advanceWorker, hc] at h

/-- Every step is one of the transitions. -/
lemma step_transition {a : Action κ ω} (h : step s a = some s') :
    Transition s a s' := by
  cases a with
  | schedule k =>
    obtain ⟨hc, ⟨⟩⟩ := Option.ite_none_right_eq_some.mp h
    exact .schedule hc
  | await k =>
    obtain ⟨hc, ⟨⟩⟩ := Option.ite_none_right_eq_some.mp h
    exact .await hc
  | spawnDetached k =>
    obtain ⟨hc, ⟨⟩⟩ := Option.ite_none_right_eq_some.mp h
    exact .spawnDetached hc
  | resume k handle =>
    obtain ⟨hc, h⟩ := Option.ite_none_right_eq_some.mp h
    split_ifs at h with hh
    · cases h
      exact hh ▸ .resume hc
    · cases h
      exact .resumeInvalid hc hh
  | advance k => exact advance_transition h
  | resumeRange r handles =>
    obtain ⟨⟨hr, hnodup, hidle⟩, ⟨⟩⟩ := Option.ite_none_right_eq_some.mp h
    exact .resumeRange hr hnodup hidle
  | advanceRange r => exact advanceRange_transition h
  | worker w => exact advanceWorker_transition h
  | finalSuspend k =>
    obtain ⟨⟨hspawned, hfinished, hbegun⟩, ⟨⟩⟩ := Option.ite_none_right_eq_some.mp h
    exact .finalSuspend hspawned hfinished hbegun
  | shutdown =>
    cases h
    exact .shutdown

/-- The thread pool with its callers. -/
def machine (κ ω : Type*) [DecidableEq κ] [DecidableEq ω] :
    Machine (State κ ω) (Action κ ω) where
  start := start
  step := step

end Libcoro.ThreadPool
