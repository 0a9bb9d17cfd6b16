import Libcoro.Foundations.Linearizability
import Libcoro.Foundations.LinkedStack
import Libcoro.Foundations.Placement

/-!
# The functions of `awaiter_list.hpp` on a list of their own

Any number of threads call `awaiter_list_push`, `awaiter_list_pop` and `awaiter_list_pop_all`, whose
loads, compare-exchanges, writes and reads of an `m_next` are steps of their own; a weak
compare-exchange may fail without a reason.  Two things are up to the callers: a node is pushed only
if it is free, that is, neither on a list nor in use by somebody else, and nobody enters a pop or a
`pop_all` while somebody is inside of one.

What `pop_all` returns is kept under a name, as by a variable of the caller, while others go on with
the list.  It may be reversed by `awaiter_list_reverse`, and its nodes may be taken off one after
the other, by which they become free.
-/

namespace Libcoro.AwaiterStack

open Foundations Function

/-- The functions that threads call on the list. -/
inductive Operation (ν : Type*) where
  | push (node : ν)
  | pop
  | popAll
  deriving DecidableEq, Repr

/-- What they return.  For `pop_all` it is the list that the returned pointer heads. -/
inductive Result (ν : Type*) where
  | done
  | node (waiter : Option ν)
  | nodes (l : List ν)
  deriving DecidableEq, Repr

/-- A stack, on which the operations are executed one after the other. -/
def stack (ν : Type*) : Object (Operation ν) (Result ν) (List ν) where
  start := []
  apply
    | l, .push x => (x :: l, .done)
    | [], .pop => ([], .node none)
    | x :: l, .pop => (l, .node (some x))
    | l, .popAll => ([], .nodes l)

/-- Where a thread is.  A failed exchange has loaded the list again.  At `pushed`, `popped` and
`poppedAll` the thread is about to return. -/
inductive Pc (ν : Type*) where
  | idle
  | pushLoad (toEnqueue : ν)
  | pushLink (toEnqueue : ν) (current : Option ν)
  | pushExchange (toEnqueue : ν) (current : Option ν)
  | pushed
  | popLoad
  | popNext (waiter : ν)
  | popExchange (waiter : ν) (next : Option ν)
  | popped (waiter : Option ν)
  | popAllLoad
  | popAllExchange (head : ν)
  | poppedAll (head : Option ν)
  deriving DecidableEq, Repr

/-- What a variable holds that has got the result of `pop_all`: a list, or the local variables of
`awaiter_list_reverse`, which is about to read `m_next` of `curr` or to write it. -/
inductive Held (ν : Type*) where
  | nothing
  | list (head : Option ν)
  | reading (curr : ν) (prev : Option ν)
  | writing (curr : ν) (prev next : Option ν)
  deriving DecidableEq, Repr

/-- The list, its nodes, the threads and the variables. -/
structure State (τ κ ν : Type*) where
  list : Option ν
  mNext : ν → Option ν
  pc : τ → Pc ν
  held : κ → Held ν
  -- What the callers keep to: which nodes may be pushed, and who is inside a pop or a `pop_all`.
  free : ν → Bool
  remover : Option τ
  -- History, read by no step: the calls and returns, the list that a variable holds, and how many
  -- steps a reversal has taken in its loop.
  finished : τ → ℕ
  history : List (Event (τ × ℕ) (Operation ν) (Result ν))
  contents : κ → List ν
  turns : κ → ℕ

/-- A thread calls a function, takes its next step or fails in its compare-exchange; a thread
returns from `pop_all` with a pointer that heads the list `l` and stores it in `k`; a reversal of
what `k` holds begins or takes its next step; or the first node is taken off it. -/
inductive Action (τ κ ν : Type*) where
  | call (t : τ) (op : Operation ν)
  | advance (t : τ)
  | spurious (t : τ)
  | returnAll (t : τ) (k : κ) (l : List ν)
  | reverse (k : κ)
  | turn (k : κ)
  | take (k : κ)

variable {τ κ ν : Type*} [DecidableEq τ] [DecidableEq κ] [DecidableEq ν]

/-- Moves the control point of `t`. -/
def State.goto (s : State τ κ ν) (t : τ) (p : Pc ν) : State τ κ ν :=
  { s with pc := update s.pc t p }

/-- The thread `t` returns `r`. -/
def State.return (s : State τ κ ν) (t : τ) (r : Result ν) : State τ κ ν :=
  { s.goto t .idle with
    finished := update s.finished t (s.finished t + 1)
    history := s.history ++ [.ret (t, s.finished t) r] }

/-- Changes what `k` holds. -/
@[simp] def State.hold (s : State τ κ ν) (k : κ) (x : Held ν) (l : List ν) : State τ κ ν :=
  { s with held := update s.held k x, contents := update s.contents k l }

/-- The test of the loop in `awaiter_list_pop`. -/
def popTest (s : State τ κ ν) (t : τ) : State τ κ ν :=
  match s.list with
  | none => s.goto t (.popped none)
  | some w => s.goto t (.popNext w)

/-- The test of the loop in `awaiter_list_pop_all`. -/
def popAllTest (s : State τ κ ν) (t : τ) : State τ κ ν :=
  match s.list with
  | none => s.goto t (.poppedAll none)
  | some h => s.goto t (.popAllExchange h)

/-- Where a call begins. -/
def Operation.entry : Operation ν → Pc ν
  | .push x => .pushLoad x
  | .pop => .popLoad
  | .popAll => .popAllLoad

/-- The thread `t` calls a function. -/
def State.call (s : State τ κ ν) (t : τ) (op : Operation ν) : State τ κ ν :=
  { s.goto t op.entry with history := s.history ++ [.call (t, s.finished t) op] }

/-- The thread `t` calls a function, if it may. -/
def call (s : State τ κ ν) (t : τ) (op : Operation ν) : Option (State τ κ ν) :=
  if s.pc t = .idle then
    match op with
    | .push x =>
      if s.free x then some { s.call t op with free := update s.free x false } else none
    | .pop | .popAll =>
      if s.remover = none then some { s.call t op with remover := some t } else none
  else none

/-- Makes a node free. -/
def State.release (s : State τ κ ν) : Option ν → State τ κ ν
  | none => s
  | some x => { s with free := update s.free x true }

/-- The next step of the thread `t` inside of a function. -/
def advance (s : State τ κ ν) (t : τ) : Option (State τ κ ν) :=
  match s.pc t with
  | .pushLoad x => some (s.goto t (.pushLink x s.list))
  | .pushLink x current =>
    some { s.goto t (.pushExchange x current) with mNext := update s.mNext x current }
  | .pushExchange x current =>
    if s.list = current then some { s.goto t .pushed with list := some x }
    else some (s.goto t (.pushLink x s.list))
  | .pushed => some (s.return t .done)
  | .popLoad => some (popTest s t)
  | .popNext w => some (s.goto t (.popExchange w (s.mNext w)))
  | .popExchange w next =>
    if s.list = some w then some { s.goto t (.popped (some w)) with list := next }
    else some (popTest s t)
  | .popped w => some { (s.return t (.node w)).release w with remover := none }
  | .popAllLoad => some (popAllTest s t)
  | .popAllExchange h =>
    if s.list = some h then some { s.goto t (.poppedAll (some h)) with list := none }
    else some (popAllTest s t)
  | .idle | .poppedAll _ => none

/-- The weak compare-exchange of `t` fails without a reason. -/
def spurious (s : State τ κ ν) (t : τ) : Option (State τ κ ν) :=
  match s.pc t with
  | .pushExchange x _ => some (s.goto t (.pushLink x s.list))
  | .popExchange _ _ => some (popTest s t)
  | .popAllExchange _ => some (popAllTest s t)
  | _ => none

/-- The thread `t` returns from `pop_all`; the list that it returns is that which its pointer
heads. -/
def returnAll (s : State τ κ ν) (t : τ) (k : κ) (l : List ν) : Option (State τ κ ν) :=
  match s.pc t, s.held k with
  | .poppedAll head, .nothing =>
    if Linked s.mNext head l then
      some { (s.return t (.nodes l)).hold k (.list head) l with remover := none }
    else none
  | _, _ => none

/-- `awaiter_list_reverse` is called and makes its first test. -/
def reverse (s : State τ κ ν) (k : κ) : Option (State τ κ ν) :=
  match s.held k with
  | .list none => some s
  | .list (some x) =>
    -- a list of one node is returned as it is
    if s.mNext x = none then some s
    else
      some { s.hold k (.reading x none) (s.contents k) with
        turns := update s.turns k 0 }
  | _ => none

/-- The next step of the loop in `awaiter_list_reverse`. -/
def turn (s : State τ κ ν) (k : κ) : Option (State τ κ ν) :=
  match s.held k with
  | .reading curr prev =>
    some { s.hold k (.writing curr prev (s.mNext curr)) (s.contents k) with
      turns := update s.turns k (s.turns k + 1) }
  | .writing curr prev next =>
    let s' := { s with
      mNext := update s.mNext curr prev
      turns := update s.turns k (s.turns k + 1) }
    match next with
    | some x => some (s'.hold k (.reading x (some curr)) (s.contents k))
    | none => some (s'.hold k (.list (some curr)) (s.contents k).reverse)
  | _ => none

/-- The first node is taken off what `k` holds; when there is none, `k` can be used again. -/
def take (s : State τ κ ν) (k : κ) : Option (State τ κ ν) :=
  match s.held k with
  | .list none => some (s.hold k .nothing [])
  | .list (some x) =>
    some ((s.hold k (.list (s.mNext x)) (s.contents k).tail).release (some x))
  | _ => none

/-- One step of the system. -/
def step (s : State τ κ ν) : Action τ κ ν → Option (State τ κ ν)
  | .call t op => call s t op
  | .advance t => advance s t
  | .spurious t => spurious s t
  | .returnAll t k l => returnAll s t k l
  | .reverse k => reverse s k
  | .turn k => turn s k
  | .take k => take s k

/-- The list is empty and everybody is idle. -/
def start : State τ κ ν where
  list := none
  mNext _ := none
  pc _ := .idle
  held _ := .nothing
  free _ := true
  remover := none
  finished _ := 0
  history := []
  contents _ := []
  turns _ := 0

/-- The list and its users as a machine. -/
def machine (τ κ ν : Type*) [DecidableEq τ] [DecidableEq κ] [DecidableEq ν] :
    Machine (State τ κ ν) (Action τ κ ν) where
  start := start
  step := step

end Libcoro.AwaiterStack
