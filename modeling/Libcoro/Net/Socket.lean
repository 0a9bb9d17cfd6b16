import Libcoro.Foundations.Machine
import Libcoro.Foundations.Descriptors

/-!
# The special members of `net::socket`

A socket has one descriptor, or `-1`.  The machine below has any number of sockets, some of them the
`m_socket` of a `tcp::client`; its steps are the special members of `socket`, `close()`, and what
the assignments of `tcp::client` do to `m_socket`.  The descriptors that `::socket`, `::accept` or
`dup` return are part of the step.

The copy assignment of a socket closes the descriptor of the socket before it looks at the other
one, and its move assignment closes nothing.
-/

namespace Libcoro.Net.Socket

open Foundations Function

/-- The descriptors of the process and the sockets; a socket that does not exist has no `m_fd`. -/
structure State (ι : Type*) where
  table : Descriptors
  mFd : ι → Option ℤ

/-- The operations; `fd` is the descriptor that the kernel hands out. -/
inductive Action (ι : Type*) where
  | defaultConstruct (x : ι)
  | construct (x : ι) (fd : ℤ)
  | copyConstruct (x y : ι) (fd : ℤ)
  | moveConstruct (x y : ι)
  | copyAssign (x y : ι) (fd : ℤ)
  | moveAssign (x y : ι)
  | clientCopyAssign (x y : ι) (fd : ℤ)
  | clientMoveAssign (x y : ι)
  | close (x : ι)
  | destroy (x : ι)
  deriving DecidableEq, Repr

variable {ι : Type*}

/-- The descriptor of a socket; a socket that does not exist has none. -/
@[simp] def State.slot (s : State ι) (x : ι) : ℤ :=
  (s.mFd x).getD (-1)

variable [DecidableEq ι]

/-- Writes `m_fd` of the socket `x`. -/
def State.put (s : State ι) (x : ι) (fd : ℤ) : State ι :=
  { s with mFd := update s.mFd x (some fd) }

/-- `m_fd = dup(other.m_fd)`, with `y` as the other socket. -/
def dupFd (s : State ι) (x y : ι) (fd : ℤ) : Option (State ι) :=
  (s.mFd y).bind fun other =>
    (s.table.dup other fd).map fun r => { s.put x r.1 with table := r.2 }

/-- `m_fd = std::exchange(other.m_fd, -1)`, with `y` as the other socket. -/
def exchangeFd (s : State ι) (x y : ι) : Option (State ι) :=
  (s.mFd y).map fun other => (s.put x other).put y (-1)

/-- `socket::close`. -/
def closeFd (s : State ι) (x : ι) : Option (State ι) :=
  (s.mFd x).map fun fd => { s.put x (-1) with table := s.table.closeSlot fd }

/-- The copy assignment of `socket`. -/
def copyAssign (s : State ι) (x y : ι) (fd : ℤ) : Option (State ι) :=
  (closeFd s x).bind fun t => dupFd t x y fd

/-- The move assignment of `socket`. -/
def moveAssign (s : State ι) (x y : ι) : Option (State ι) :=
  if (s.mFd x).isSome then
    if y ≠ x then exchangeFd s x y else some s
  else none

/-- One step of the system. -/
def step (s : State ι) : Action ι → Option (State ι)
  | .defaultConstruct x => if s.mFd x = none then some (s.put x (-1)) else none
  | .construct x fd =>
    if s.mFd x = none ∧ s.table.Fresh fd then
      some { s.put x fd with table := s.table.provide fd }
    else none
  | .copyConstruct x y fd => if s.mFd x = none then dupFd s x y fd else none
  | .moveConstruct x y => if s.mFd x = none then exchangeFd s x y else none
  | .copyAssign x y fd => copyAssign s x y fd
  | .moveAssign x y => moveAssign s x y
  | .clientCopyAssign x y fd => if y ≠ x then copyAssign s x y fd else some s
  | .clientMoveAssign x y => if y ≠ x then moveAssign s x y else some s
  | .close x => closeFd s x
  | .destroy x =>
    (closeFd s x).map fun t => { t with mFd := update t.mFd x none }

/-- No socket exists, and the descriptors `others` are open. -/
def start (others : List ℕ) : State ι where
  table := Descriptors.start others
  mFd _ := none

/-- The sockets as a machine. -/
def machine (ι : Type*) [DecidableEq ι] (others : List ℕ) : Machine (State ι) (Action ι) where
  start := start others
  step := step

/-- A socket that holds a descriptor is not copy-assigned to itself, and nothing is moved to it. -/
def NothingLost (s : State ι) : Action ι → Prop
  | .copyAssign x y _ => x = y → s.slot x = -1
  | .moveAssign x y => x ≠ y → s.slot x = -1
  | .clientMoveAssign x y => x ≠ y → s.slot x = -1
  | _ => True

instance (s : State ι) (a : Action ι) : Decidable (NothingLost s a) := by
  unfold NothingLost
  split <;> infer_instance

/-! ## The operations keep the books -/

variable {s t : State ι} {others : List ℕ} {x y : ι} {fd : ℤ}

omit [DecidableEq ι] in
/-- A socket that does not exist holds nothing. -/
lemma slot_of_none (hx : s.mFd x = none) : s.slot x = -1 := by
  simp [hx]

omit [DecidableEq ι] in
/-- A socket holds its `m_fd`. -/
lemma slot_of_some (hx : s.mFd x = some fd) : s.slot x = fd := by
  simp [hx]

/-- Writing `m_fd` writes one slot. -/
lemma slot_put (s : State ι) (x : ι) (fd : ℤ) :
    (s.put x fd).slot = update s.slot x fd := by
  funext y
  by_cases hyx : y = x
  · subst hyx
    simp [State.put]
  · simp [State.put, hyx]

/-- A socket that is gone has left an empty slot. -/
lemma slot_remove (s : State ι) (x : ι) :
    ({ s with mFd := update s.mFd x none } : State ι).slot =
      update s.slot x (-1) := by
  funext y
  by_cases hyx : y = x
  · subst hyx
    simp
  · simp [hyx]

/-- The sockets own what is in their slots. -/
def Owned (others : List ℕ) (s : State ι) : Prop :=
  s.table.OwnedBy others s.slot

/-- A socket without a descriptor gets a duplicate. -/
lemma dupFd_owned (h : Owned others s) (hempty : s.slot x = -1)
    (hop : dupFd s x y fd = some t) : Owned others t := by
  simp only [dupFd, Option.bind_eq_some_iff, Option.map_eq_some_iff] at hop
  obtain ⟨other, hy, ⟨a, d⟩, hdup, rfl⟩ := hop
  rw [← slot_of_some hy] at hdup
  have hd := Descriptors.OwnedBy.dup (s := x) h hempty hdup
  rw [← slot_put] at hd
  exact hd

/-- A socket without a descriptor takes that of another one. -/
lemma exchangeFd_owned (h : Owned others s) (hxy : y ≠ x) (hempty : s.slot x = -1)
    (hop : exchangeFd s x y = some t) : Owned others t := by
  simp only [exchangeFd, Option.map_eq_some_iff] at hop
  obtain ⟨other, hy, rfl⟩ := hop
  have hd := Descriptors.OwnedBy.pass h hxy hempty
  rw [slot_of_some hy, ← slot_put, ← slot_put] at hd
  exact hd

/-- `close()`. -/
lemma closeFd_owned (h : Owned others s) (hop : closeFd s x = some t) :
    Owned others t ∧ t.slot x = -1 := by
  simp only [closeFd, Option.map_eq_some_iff] at hop
  obtain ⟨fd, hx, rfl⟩ := hop
  have hd := h.closeSlot x
  rw [slot_of_some hx, ← slot_put] at hd
  refine ⟨hd, ?_⟩
  change (s.put x (-1)).slot x = -1
  rw [slot_put, update_self]

/-- The copy assignment, also that of a socket to itself. -/
lemma copyAssign_owned (h : Owned others s) (hop : copyAssign s x y fd = some t) :
    Owned others t := by
  simp only [copyAssign, Option.bind_eq_some_iff] at hop
  obtain ⟨u, hclose, hdup⟩ := hop
  obtain ⟨hu, hempty⟩ := closeFd_owned h hclose
  exact dupFd_owned hu hempty hdup

/-- The move assignment to a socket without a descriptor, or to itself. -/
lemma moveAssign_owned (h : Owned others s) (hempty : x ≠ y → s.slot x = -1)
    (hop : moveAssign s x y = some t) : Owned others t := by
  simp only [moveAssign, Option.ite_none_right_eq_some] at hop
  obtain ⟨-, hop⟩ := hop
  split_ifs at hop with hyx
  · exact exchangeFd_owned h hyx (hempty (Ne.symm hyx)) hop
  · exact Option.some.inj hop ▸ h

/-- A step that loses nothing keeps the books. -/
lemma step_owned {a : Action ι} (h : Owned others s) (hG : NothingLost s a)
    (hstep : step s a = some t) : Owned others t := by
  cases a with
  | defaultConstruct x =>
    simp only [step, Option.ite_none_right_eq_some, Option.some.injEq] at hstep
    obtain ⟨hx, rfl⟩ := hstep
    have hslot : (s.put x (-1)).slot = s.slot := by
      rw [slot_put, ← slot_of_none hx, update_eq_self]
    unfold Owned
    rw [hslot]
    exact h
  | construct x fd =>
    simp only [step, Option.ite_none_right_eq_some, Option.some.injEq] at hstep
    obtain ⟨⟨hx, hfresh⟩, rfl⟩ := hstep
    have hd := h.provide hfresh (slot_of_none hx)
    rw [← slot_put] at hd
    exact hd
  | copyConstruct x y fd =>
    simp only [step, Option.ite_none_right_eq_some] at hstep
    exact dupFd_owned h (slot_of_none hstep.1) hstep.2
  | moveConstruct x y =>
    simp only [step, Option.ite_none_right_eq_some] at hstep
    obtain ⟨hx, hop⟩ := hstep
    have hyx : y ≠ x := by
      rintro rfl
      simp [exchangeFd, hx] at hop
    exact exchangeFd_owned h hyx (slot_of_none hx) hop
  | copyAssign x y fd => exact copyAssign_owned h hstep
  | moveAssign x y => exact moveAssign_owned h hG hstep
  | clientCopyAssign x y fd =>
    simp only [step] at hstep
    split_ifs at hstep with hyx
    · exact copyAssign_owned h hstep
    · exact Option.some.inj hstep ▸ h
  | clientMoveAssign x y =>
    simp only [step] at hstep
    split_ifs at hstep with hyx
    · exact moveAssign_owned h hG hstep
    · exact Option.some.inj hstep ▸ h
  | close x => exact (closeFd_owned h hstep).1
  | destroy x =>
    simp only [step, Option.map_eq_some_iff] at hstep
    obtain ⟨u, hclose, rfl⟩ := hstep
    obtain ⟨hu, hempty⟩ := closeFd_owned h hclose
    -- after `close()` the slot is empty, so that nothing is lost with the socket
    have hslot := slot_remove u x
    rw [← hempty, update_eq_self] at hslot
    unfold Owned
    rw [hslot]
    exact hu

/-- In every run that loses nothing the sockets own what is in their slots. -/
lemma owned_of_reachable (h : (machine ι others).ReachableUnder NothingLost s) :
    Owned others s := by
  refine h.invariant (Descriptors.OwnedBy.start fun x => slot_of_none rfl) ?_
  intro s a t _ hs hG hstep
  exact step_owned hs hG hstep

/-- The assignments of a socket, or of a client, to itself. -/
def selfAssignments (x : ι) (fd : ℤ) : List (Action ι) :=
  [.copyAssign x x fd, .moveAssign x x, .clientCopyAssign x x fd, .clientMoveAssign x x]

/-- Where it loses nothing, an assignment of a socket that holds a descriptor to itself does
nothing. -/
lemma selfAssign_eq {a : Action ι} (ha : a ∈ selfAssignments x fd) (hG : NothingLost s a)
    (hx : s.slot x ≠ -1) (hstep : step s a = some t) : t = s := by
  simp only [selfAssignments, List.mem_cons, List.not_mem_nil, or_false] at ha
  rcases ha with rfl | rfl | rfl | rfl
  · exact (hx (hG rfl)).elim
  · simp only [step, moveAssign, Option.ite_none_right_eq_some] at hstep
    simpa using hstep.2.symm
  · simpa [step] using hstep.symm
  · simpa [step] using hstep.symm

/-- In every run in which a socket that holds a descriptor is not copy-assigned to itself, and
nothing is moved to it: every socket holds nothing or is the only one with its descriptor, which is
open; each descriptor has been closed as often as it was obtained, or once less; only descriptors
that a socket has obtained are closed; once all sockets are destroyed, each descriptor has been
closed exactly as often as it was obtained; and a socket that holds a descriptor and is assigned to
itself holds an open descriptor. -/
theorem socket_owns_linearly (h : (machine ι others).ReachableUnder NothingLost s) :
    (∀ x, s.slot x ≠ -1 → s.table.isOpen (s.slot x) = true) ∧
    (∀ x y, s.slot x ≠ -1 → s.slot x = s.slot y → x = y) ∧
    (∀ fd, s.table.closed.count fd ≤ s.table.obtained.count fd ∧
      s.table.obtained.count fd ≤ s.table.closed.count fd + 1) ∧
    (∀ fd ∈ s.table.closed, fd ∈ s.table.obtained) ∧
    (∀ n ∈ others, (n : ℤ) ∉ s.table.closed) ∧
    ((∀ x, s.mFd x = none) → s.table.obtained.Perm s.table.closed) ∧
    (∀ x fd a t, a ∈ selfAssignments x fd → NothingLost s a → s.slot x ≠ -1 →
      step s a = some t → t.slot x ≠ -1 ∧ t.table.isOpen (t.slot x) = true) := by
  have hs := owned_of_reachable h
  refine ⟨fun x => hs.isOpen_slot, fun x y => hs.slot_unique, hs.custody.count_le,
    fun fd => hs.custody.mem_obtained, fun n => hs.other_not_closed,
    fun hall => hs.settled fun x => slot_of_none (hall x), fun x fd a t ha hG hx hstep => ?_⟩
  obtain rfl := selfAssign_eq ha hG hx hstep
  exact ⟨hx, hs.isOpen_slot hx⟩

/-- A socket is copied, the copy is moved on, assigned and moved back to the socket after this was
closed, and all sockets are destroyed. -/
def carefulTrace : List (Action (Fin 3)) :=
  [.construct 0 3, .copyConstruct 1 0 4, .moveConstruct 2 1, .copyAssign 0 2 3, .moveAssign 0 0,
    .close 0, .moveAssign 0 2, .destroy 0, .destroy 1, .destroy 2]

/-- After this run all descriptors have been closed as often as they were obtained. -/
theorem socket_owns_linearly_careful : ∃ s : State (Fin 3),
    (machine (Fin 3) [0, 1, 2]).runUnder NothingLost (start [0, 1, 2]) carefulTrace = some s ∧
    s.table.closed = [4, 3, 3] ∧ s.table.obtained.Perm s.table.closed :=
  ⟨_, rfl, rfl, (socket_owns_linearly (Machine.reachableUnder_of_run
    (M := machine (Fin 3) [0, 1, 2]) (l := carefulTrace) rfl)).2.2.2.2.2.1 (by decide)⟩

/-- A socket that is copy-assigned to itself has lost its descriptor.  A socket is moved to another
one that holds the descriptor `4`, which nobody closes, although both sockets are destroyed. -/
theorem socket_dies_and_leaks :
    (∃ s t : State (Fin 2),
      (machine (Fin 2) [0, 1, 2]).run (start [0, 1, 2]) [.construct 0 3] = some s ∧
      s.slot 0 = 3 ∧ step s (.copyAssign 0 0 4) = some t ∧ t.slot 0 = -1) ∧
    (∃ s : State (Fin 2),
      (machine (Fin 2) [0, 1, 2]).run (start [0, 1, 2])
        [.construct 0 3, .construct 1 4, .moveAssign 1 0, .destroy 0, .destroy 1] = some s ∧
      (∀ x, s.mFd x = none) ∧ s.table.obtained = [4, 3] ∧ s.table.closed = [3]) :=
  ⟨⟨_, _, rfl, rfl, rfl, rfl⟩, ⟨_, rfl, by decide, rfl, rfl⟩⟩

end Libcoro.Net.Socket
