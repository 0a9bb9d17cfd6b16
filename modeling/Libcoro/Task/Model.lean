import Libcoro.Foundations.Machine

/-!
# `coro::task`

A coroutine is a frame on the heap, named by the number of its allocation.  The body of a
coroutine is given by a `Program`: at each point of its code it returns, throws, calls another
coroutine function, awaits or destroys a task that one of its variables holds, or suspends in an
operation outside of the library.  Tasks are lazy: a call only allocates the frame, which suspends
in `initial_suspend`.

The system is one task, the frame `0`, that code outside resumes, with all the coroutines below it.
`co_await` of a task and the end of a coroutine pass control on by symmetric transfer:
`awaitable_base::await_suspend` stores the awaiting coroutine in the promise of the task and returns
the handle of the task, and `final_awaitable::await_suspend` returns the stored handle.

A step that the language leaves undefined is not enabled: resuming a coroutine that is not
suspended, has ended or has been destroyed, or reading the result of a task that is gone.
-/

namespace Libcoro.Task

open Foundations Function

/-- What the body of a coroutine does next.  Its tasks are in the variables `0`, `1`, … in the order
of the calls that created them. -/
inductive Op (σ α ε : Type*) where
  | coReturn (v : α)
  | throw (e : ε)
  -- calls the coroutine function `body`; the next variable holds the task
  | create (body next : σ)
  | coAwait (t : ℕ) (next : Except ε α → σ)
  -- `t.destroy()`, or the end of the variable's scope
  | destroy (t : ℕ) (next : σ)
  -- suspends until an operation outside completes
  | suspend (next : Except ε α → σ)

/-- The coroutine functions. -/
structure Program (σ α ε : Type*) where
  code : σ → Op σ α ε
  -- What `result()` gives as long as nothing is stored: `promise<T>` throws a `runtime_error`,
  -- `promise<void>` returns.
  unset : Except ε α

/-- Where a coroutine is. -/
inductive Point (σ α ε : Type*) where
  | initial (p : σ)
  | running (p : σ)
  -- in `co_await` of the variable `t`
  | awaiting (t : ℕ) (next : Except ε α → σ)
  | suspended (next : Except ε α → σ)
  | final

/-- A coroutine frame, with its promise and the tasks in the variables of its body; `none` is a task
without a coroutine. -/
structure Frame (σ α ε : Type*) where
  point : Point σ α ε
  mContinuation : Option ℕ
  mStorage : Option (Except ε α)
  locals : List (Option ℕ)

/-- The frames on the heap. -/
abbrev Heap (σ α ε : Type*) := ℕ → Option (Frame σ α ε)

/-- The heap, the number of the next allocation, the coroutine that runs, and the handle that an
operation outside has got and will resume. -/
structure State (σ α ε : Type*) where
  frame : Heap σ α ε
  next : ℕ
  running : Option ℕ
  parked : Option ℕ

/-- The steps: code outside resumes the task, the running coroutine goes on, an operation outside
completes with the result `r`. -/
inductive Action (α ε : Type*) where
  | resume
  | run
  | complete (r : Except ε α)

variable {σ α ε : Type*}

/-- `done()`. -/
def Point.isFinal : Point σ α ε → Bool
  | .final => true
  | _ => false

/-- The frame after a call of a coroutine function. -/
def Frame.new (body : σ) : Frame σ α ε where
  point := .initial body
  mContinuation := none
  mStorage := none
  locals := []

/-- The frames that are destroyed with a frame: those of the tasks in its variables. -/
def Frame.owned (f : Frame σ α ε) : List ℕ :=
  f.locals.reduceOption

/-- `promise::result()`. -/
def Program.result (P : Program σ α ε) (f : Frame σ α ε) : Except ε α :=
  f.mStorage.getD P.unset

/-- `coroutine_handle::destroy()`: the frame goes, and with it the tasks in its variables, the last
one first.  They are nested at most as deep as there have been allocations. -/
def Heap.destroy : ℕ → Heap σ α ε → ℕ → Heap σ α ε
  | 0, F, _ => F
  | n + 1, F, h =>
    match F h with
    | none => F
    | some f => f.owned.foldr (fun c G => Heap.destroy n G c) (update F h none)

/-- The frame of the task in the variable `t` of the frame `f`, with its handle. -/
def State.taskAt (s : State σ α ε) (f : Frame σ α ε) (t : ℕ) : Option (ℕ × Frame σ α ε) :=
  (f.locals[t]?).join.bind fun h => (s.frame h).map fun g => (h, g)

/-- Overwrites a frame. -/
def State.setFrame (s : State σ α ε) (h : ℕ) (f : Frame σ α ε) : State σ α ε :=
  { s with frame := update s.frame h (some f) }

/-- Destroys tasks, the last one first. -/
def State.destroyAll (s : State σ α ε) (hs : List ℕ) : State σ α ε :=
  { s with frame := hs.foldr (fun h F => F.destroy (s.next + 1) h) s.frame }

/-- A coroutine is resumed at the point where it is suspended.  In the `co_await` of a task this is
`await_resume`, which asks the promise of the task for its result. -/
def State.resumeHandle (P : Program σ α ε) (s : State σ α ε) (h : ℕ) : Option (State σ α ε) :=
  (s.frame h).bind fun f =>
    match f.point with
    | .initial p => some { s.setFrame h { f with point := .running p } with running := some h }
    | .awaiting t next =>
      (s.taskAt f t).map fun (_, g) =>
        { s.setFrame h { f with point := .running (next (P.result g)) } with running := some h }
    | _ => none

/-- `final_awaitable::await_suspend`. -/
def State.finalSuspend (P : Program σ α ε) (s : State σ α ε) : Option ℕ → Option (State σ α ε)
  | some c => s.resumeHandle P c
  | none => some { s with running := none }

/-- The body of the coroutine `h` ends: the promise stores the value or the exception, the variables
are destroyed, and the coroutine suspends for the last time. -/
def State.finish (P : Program σ α ε) (s : State σ α ε) (h : ℕ) (f : Frame σ α ε)
    (r : Except ε α) : Option (State σ α ε) :=
  ((s.setFrame h { f with point := .final, mStorage := some r, locals := [] }).destroyAll
    f.owned).finalSuspend P f.mContinuation

/-- The body of the running coroutine `h` goes on at the point `p`. -/
def State.exec (P : Program σ α ε) (s : State σ α ε) (h : ℕ) (f : Frame σ α ε) (p : σ) :
    Option (State σ α ε) :=
  match P.code p with
  | .coReturn v => s.finish P h f (.ok v)
  | .throw e => s.finish P h f (.error e)
  | .create body next =>
    let f' : Frame σ α ε := { f with point := .running next, locals := f.locals ++ [some s.next] }
    some { (s.setFrame h f').setFrame s.next (Frame.new body) with next := s.next + 1 }
  | .coAwait t next =>
    (s.taskAt f t).bind fun (c, g) =>
      -- `await_ready`
      if g.point.isFinal then some (s.setFrame h { f with point := .running (next (P.result g)) })
      else
        ((s.setFrame c { g with mContinuation := some h }).setFrame h
          { f with point := .awaiting t next }).resumeHandle P c
  | .destroy t next =>
    some ((s.setFrame h { f with point := .running next, locals := f.locals.set t none }).destroyAll
      (f.locals[t]?).join.toList)
  | .suspend next =>
    some { s.setFrame h { f with point := .suspended next } with running := none, parked := some h }

/-- One step of the system.  `task::resume` is called while nothing of the task is under way. -/
def step (P : Program σ α ε) (s : State σ α ε) : Action α ε → Option (State σ α ε)
  | .resume =>
    if s.running.isNone && s.parked.isNone then
      (s.frame 0).bind fun f => if f.point.isFinal then some s else s.resumeHandle P 0
    else none
  | .run =>
    s.running.bind fun h => (s.frame h).bind fun f =>
      match f.point with
      | .running p => s.exec P h f p
      | _ => none
  | .complete r =>
    s.parked.bind fun h => (s.frame h).bind fun f =>
      match f.point with
      | .suspended next =>
        some { s.setFrame h { f with point := .running (next r) } with
          running := some h, parked := none }
      | _ => none

/-- The coroutines of the program `P`, from the call of the coroutine function `body` on. -/
def machine (P : Program σ α ε) (body : σ) : Machine (State σ α ε) (Action α ε) where
  start := ⟨update (fun _ => none) 0 (some (Frame.new body)), 1, none, none⟩
  step := step P

/-- What `result()` of the task gives once it has ended. -/
def State.outcome (P : Program σ α ε) (s : State σ α ε) : Option (Except ε α) :=
  (s.frame 0).bind fun f => if f.point.isFinal then some (P.result f) else none

end Libcoro.Task
