import Libcoro.Foundations.Machine
import Libcoro.Foundations.Descriptors

/-!
# `detail::pipe_t` and `poll_stop_source`

A `pipe_t` has the array `m_fds` of the two ends of a pipe.  The machine below has any number of
`pipe_t` objects and of `poll_stop_source` objects, each of the latter with a `pipe_t` as its only
member, and its steps are their special members and `close()`.  The table of descriptors is that of
`Libcoro.Foundations.Descriptors`, and the descriptors that the kernel hands out are part of the
step.

The default member initializer of `m_fds` and the value that a moved-from object is left with are
both written `{-1}`.  For an array of two this is `{-1, 0}`.
-/

namespace Libcoro.Pipe

open Foundations Function

/-- `std::array<fd_t, 2>`. -/
abbrev Fds := Fin 2 → ℤ

/-- The array `{-1}`: what is not given is zero. -/
def initialFds : Fds :=
  ![-1, 0]

/-- The array after `close()`. -/
def closedFds : Fds :=
  ![-1, -1]

/-- The descriptors of the process and the objects, `pipe_t` on the left and `poll_stop_source` on
the right; an object that does not exist has no array. -/
structure State (ι κ : Type*) where
  table : Descriptors
  mFds : ι ⊕ κ → Option Fds

/-- The operations.  Where the kernel is asked for descriptors, `f` and `g` are its answers. -/
inductive Action (ι κ : Type*) where
  | construct (p : ι) (f g : ℤ)
  | copyConstruct (p q : ι) (f g : ℤ)
  | moveConstruct (p q : ι)
  | copyAssign (p q : ι) (f g : ℤ)
  | moveAssign (p q : ι)
  | close (p : ι)
  | destroy (p : ι)
  | sourceConstruct (c : κ) (f g : ℤ)
  | sourceMoveConstruct (c d : κ) (f g : ℤ)
  | sourceMoveAssign (c d : κ)
  | sourceDestroy (c : κ)
  deriving DecidableEq, Repr

variable {ι κ : Type*}

/-- What the slot `i` of the object `x` contains; an object that does not exist has nothing. -/
def State.slot (s : State ι κ) (x : (ι ⊕ κ) × Fin 2) : ℤ :=
  ((s.mFds x.1).map fun fds => fds x.2).getD (-1)

variable [DecidableEq ι] [DecidableEq κ]

/-- Writes the array of the object `x`. -/
def State.put (s : State ι κ) (x : ι ⊕ κ) (fds : Fds) : State ι κ :=
  { s with mFds := update s.mFds x (some fds) }

/-- `::pipe` into the array of `x`. -/
def openPipe (s : State ι κ) (x : ι ⊕ κ) (f g : ℤ) : Option (State ι κ) :=
  if s.table.Fresh f ∧ s.table.Fresh g ∧ f ≠ g then
    some { s.put x ![f, g] with table := (s.table.provide f).provide g }
  else none

/-- The two calls of `dup`, from the array of `y` into that of `x`. -/
def dupFds (s : State ι κ) (x y : ι ⊕ κ) (f g : ℤ) : Option (State ι κ) :=
  (s.mFds y).bind fun other =>
    (s.table.dup (other 0) f).bind fun r =>
      (r.2.dup (other 1) g).map fun r' => { s.put x ![r.1, r'.1] with table := r'.2 }

/-- `m_fds = std::exchange(other.m_fds, {-1})`, with `y` as the other object. -/
def exchangeFds (s : State ι κ) (x y : ι ⊕ κ) : Option (State ι κ) :=
  (s.mFds y).map fun other => (s.put x other).put y initialFds

/-- `pipe_t::close`. -/
def closeFds (s : State ι κ) (x : ι ⊕ κ) : Option (State ι κ) :=
  (s.mFds x).map fun fds =>
    { s.put x closedFds with table := (s.table.closeSlot (fds 0)).closeSlot (fds 1) }

/-- The destructor. -/
def destroyPipe (s : State ι κ) (x : ι ⊕ κ) : Option (State ι κ) :=
  (closeFds s x).map fun t => { t with mFds := update t.mFds x none }

/-- The move assignment of `pipe_t`. -/
def moveAssignPipe (s : State ι κ) (x y : ι ⊕ κ) : Option (State ι κ) :=
  if (s.mFds x).isSome then
    if y ≠ x then exchangeFds s x y else some s
  else none

/-- One step of the system. -/
def step (s : State ι κ) : Action ι κ → Option (State ι κ)
  | .construct p f g => if s.mFds (.inl p) = none then openPipe s (.inl p) f g else none
  | .copyConstruct p q f g =>
    if s.mFds (.inl p) = none then dupFds s (.inl p) (.inl q) f g else none
  | .moveConstruct p q =>
    if s.mFds (.inl p) = none then exchangeFds s (.inl p) (.inl q) else none
  | .copyAssign p q f g =>
    if (s.mFds (.inl p)).isSome then
      if q ≠ p then dupFds s (.inl p) (.inl q) f g else some s
    else none
  | .moveAssign p q => moveAssignPipe s (.inl p) (.inl q)
  | .close p => closeFds s (.inl p)
  | .destroy p => destroyPipe s (.inl p)
  | .sourceConstruct c f g => if s.mFds (.inr c) = none then openPipe s (.inr c) f g else none
  | .sourceMoveConstruct c d f g =>
    -- the member is default constructed before the body assigns to it
    if s.mFds (.inr c) = none ∧ (s.mFds (.inr d)).isSome then
      (openPipe s (.inr c) f g).bind fun t => moveAssignPipe t (.inr c) (.inr d)
    else none
  | .sourceMoveAssign c d => moveAssignPipe s (.inr c) (.inr d)
  | .sourceDestroy c => destroyPipe s (.inr c)

/-- No object exists, and the descriptors `others` are open. -/
def start (others : List ℕ) : State ι κ where
  table := Descriptors.start others
  mFds _ := none

/-- The objects as a machine. -/
def machine (ι κ : Type*) [DecidableEq ι] [DecidableEq κ] (others : List ℕ) :
    Machine (State ι κ) (Action ι κ) where
  start := start others
  step := step

/-- No array is moved to another object, and a copy is assigned to another object only if that one
has been closed. -/
def NothingOverwritten (s : State ι κ) : Action ι κ → Prop
  | .moveConstruct _ _ => False
  | .copyAssign p q _ _ => p = q ∨ s.mFds (.inl p) = some closedFds
  | .moveAssign p q => p = q
  | .sourceMoveConstruct _ _ _ _ => False
  | .sourceMoveAssign c d => c = d
  | _ => True

instance (s : State ι κ) (a : Action ι κ) : Decidable (NothingOverwritten s a) := by
  unfold NothingOverwritten
  split <;> infer_instance

/-! ## The slots -/

variable {s t : State ι κ} {others : List ℕ} {x y : ι ⊕ κ} {f g : ℤ} {fds : Fds}

omit [DecidableEq ι] [DecidableEq κ] in
/-- An object that does not exist has empty slots. -/
lemma slot_of_none (hx : s.mFds x = none) (i : Fin 2) : s.slot (x, i) = -1 := by
  simp [State.slot, hx]

omit [DecidableEq ι] [DecidableEq κ] in
/-- The slots of an object are those of its array. -/
lemma slot_of_some (hx : s.mFds x = some fds) (i : Fin 2) : s.slot (x, i) = fds i := by
  simp [State.slot, hx]

/-- Writing an array writes two slots. -/
lemma slot_put (s : State ι κ) (x : ι ⊕ κ) (fds : Fds) :
    (s.put x fds).slot =
      update (update s.slot (x, 0) (fds 0)) (x, 1) (fds 1) := by
  funext ⟨y, i⟩
  by_cases hyx : y = x
  · subst hyx
    fin_cases i <;> simp [State.slot, State.put]
  · simp [State.slot, State.put, hyx]

/-- An object that is gone has left two empty slots. -/
lemma slot_remove (s : State ι κ) (x : ι ⊕ κ) :
    ({ s with mFds := update s.mFds x none } : State ι κ).slot =
      update (update s.slot (x, 0) (-1)) (x, 1) (-1) := by
  funext ⟨y, i⟩
  by_cases hyx : y = x
  · subst hyx
    fin_cases i <;> simp [State.slot]
  · simp [State.slot, hyx]

/-! ## The operations keep the books -/

/-- The objects own what is in their slots. -/
def Owned (others : List ℕ) (s : State ι κ) : Prop :=
  s.table.OwnedBy others s.slot

/-- `::pipe` for an object with empty slots. -/
lemma openPipe_owned (h : Owned others s) (hempty : ∀ i, s.slot (x, i) = -1)
    (hop : openPipe s x f g = some t) : Owned others t := by
  unfold openPipe at hop
  split_ifs at hop with hfresh
  obtain ⟨hf, hg, hfg⟩ := hfresh
  cases hop
  have hg' : (s.table.provide f).Fresh g := ⟨hg.1, by simp [Descriptors.provide, hfg.symm, hg.2]⟩
  have hprovided := (h.provide (s := (x, 0)) hf (hempty 0)).provide (s := (x, 1)) hg'
    (by simp [hempty])
  have hslots := slot_put s x ![f, g]
  simp only [Matrix.cons_val_zero, Matrix.cons_val_one] at hslots
  rw [← hslots] at hprovided
  exact hprovided

/-- Two calls of `dup` for an object with empty slots. -/
lemma dupFds_owned (h : Owned others s) (hxy : y ≠ x) (hempty : ∀ i, s.slot (x, i) = -1)
    (hop : dupFds s x y f g = some t) : Owned others t := by
  simp only [dupFds, Option.bind_eq_some_iff, Option.map_eq_some_iff] at hop
  obtain ⟨other, hy, ⟨a, d⟩, hfirst, ⟨b, d'⟩, hsecond, rfl⟩ := hop
  rw [← slot_of_some hy 0] at hfirst
  have h1 := Descriptors.OwnedBy.dup (s := (x, 0)) h (hempty 0) hfirst
  have hother : update s.slot (x, 0) a (y, 1) = other 1 := by
    rw [update_of_ne (by simp [hxy]), slot_of_some hy]
  rw [← hother] at hsecond
  have h2 := h1.dup (s := (x, 1)) (by simp [hempty]) hsecond
  have hslots := slot_put s x ![a, b]
  simp only [Matrix.cons_val_zero, Matrix.cons_val_one] at hslots
  rw [← hslots] at h2
  exact h2

/-- `close()`. -/
lemma closeFds_owned (h : Owned others s) (hop : closeFds s x = some t) : Owned others t := by
  simp only [closeFds, Option.map_eq_some_iff] at hop
  obtain ⟨fds, hx, rfl⟩ := hop
  have h1 := h.closeSlot (x, 0)
  have hsecond : update s.slot (x, 0) (-1) (x, 1) = fds 1 := by
    rw [update_of_ne (by simp), slot_of_some hx]
  have h2 := h1.closeSlot (x, 1)
  rw [hsecond, slot_of_some hx] at h2
  have hslots := slot_put s x closedFds
  simp only [closedFds, Matrix.cons_val_zero, Matrix.cons_val_one] at hslots
  rw [← hslots] at h2
  exact h2

/-- The destructor. -/
lemma destroyPipe_owned (h : Owned others s) (hop : destroyPipe s x = some t) :
    Owned others t := by
  simp only [destroyPipe, Option.map_eq_some_iff] at hop
  obtain ⟨u, hclose, rfl⟩ := hop
  have hu := closeFds_owned h hclose
  have hempty : ∀ i, u.slot (x, i) = -1 := by
    simp only [closeFds, Option.map_eq_some_iff] at hclose
    obtain ⟨fds, hx, rfl⟩ := hclose
    intro i
    have hput : (s.put x closedFds).mFds x = some closedFds := by simp [State.put]
    have hslot := slot_of_some hput i
    fin_cases i <;> exact hslot
  -- after `close()` the slots are empty, so that nothing is lost with the object
  have hslots := slot_remove u x
  rw [← hempty 0, update_eq_self, hempty 0, ← hempty 1, update_eq_self] at hslots
  unfold Owned
  rw [hslots]
  exact hu

/-- A move assignment of an object to itself does nothing. -/
lemma moveAssignPipe_self (hop : moveAssignPipe s x x = some t) : t = s := by
  unfold moveAssignPipe at hop
  split_ifs at hop
  · contradiction
  · exact (Option.some.inj hop).symm

/-- A step that overwrites nothing keeps the books. -/
lemma step_owned {a : Action ι κ} (h : Owned others s) (hG : NothingOverwritten s a)
    (hstep : step s a = some t) : Owned others t := by
  cases a with
  | construct p f g | sourceConstruct c f g =>
    simp only [step, Option.ite_none_right_eq_some] at hstep
    exact openPipe_owned h (slot_of_none hstep.1) hstep.2
  | copyConstruct p q f g =>
    simp only [step, Option.ite_none_right_eq_some] at hstep
    have hqp : (Sum.inl q : ι ⊕ κ) ≠ .inl p := by
      intro hqp
      simp [hqp, dupFds, hstep.1] at hstep
    exact dupFds_owned h hqp (slot_of_none hstep.1) hstep.2
  | moveConstruct p q | sourceMoveConstruct c d f g => exact hG.elim
  | copyAssign p q f g =>
    simp only [step, Option.ite_none_right_eq_some] at hstep
    obtain ⟨-, hstep⟩ := hstep
    split_ifs at hstep with hqp
    · have hclosed := hG.resolve_left (Ne.symm hqp)
      have hempty : ∀ i, s.slot (.inl p, i) = -1 := by
        intro i
        rw [slot_of_some hclosed]
        fin_cases i <;> rfl
      exact dupFds_owned h (by simpa using hqp) hempty hstep
    · exact Option.some.inj hstep ▸ h
  | moveAssign p q =>
    obtain rfl : p = q := hG
    exact moveAssignPipe_self hstep ▸ h
  | close p => exact closeFds_owned h hstep
  | destroy p | sourceDestroy c => exact destroyPipe_owned h hstep
  | sourceMoveAssign c d =>
    obtain rfl : c = d := hG
    exact moveAssignPipe_self hstep ▸ h

/-- In every run that overwrites nothing the objects own what is in their slots. -/
lemma owned_of_reachable (h : (machine ι κ others).ReachableUnder NothingOverwritten s) :
    Owned others s := by
  refine h.invariant (Descriptors.OwnedBy.start fun x => ?_) ?_
  · exact slot_of_none rfl x.2
  · intro s a t _ hs hG hstep
    exact step_owned hs hG hstep

/-- In every run in which no array is moved to another object, and copies are assigned to other
objects only after these were closed: every slot is empty or the only one with its descriptor, which
is open; each descriptor has been closed as often as it was obtained, or once less; only descriptors
that a `pipe_t` has obtained are closed, in particular none that was open before; and once all
objects are destroyed, each descriptor has been closed exactly as often as it was obtained. -/
theorem pipe_owns_linearly (h : (machine ι κ others).ReachableUnder NothingOverwritten s) :
    (∀ a, s.slot a ≠ -1 → s.table.isOpen (s.slot a) = true) ∧
    (∀ a b, s.slot a ≠ -1 → s.slot a = s.slot b → a = b) ∧
    (∀ fd, s.table.closed.count fd ≤ s.table.obtained.count fd ∧
      s.table.obtained.count fd ≤ s.table.closed.count fd + 1) ∧
    (∀ fd ∈ s.table.closed, fd ∈ s.table.obtained) ∧
    (∀ n ∈ others, (n : ℤ) ∉ s.table.closed) ∧
    ((∀ x, s.mFds x = none) → s.table.obtained.Perm s.table.closed) := by
  have hs := owned_of_reachable h
  exact ⟨fun a => hs.isOpen_slot, fun a b => hs.slot_unique, hs.custody.count_le,
    fun fd => hs.custody.mem_obtained, fun n => hs.other_not_closed,
    fun hall => hs.settled fun a => slot_of_none (hall a.1) a.2⟩

/-- A pipe is copied, closed, assigned the copy and destroyed with it, and so is the pipe of a
`poll_stop_source`; the numbers `3` and `4` are handed out twice. -/
def carefulTrace : List (Action (Fin 2) (Fin 1)) :=
  [.construct 0 3 4, .copyConstruct 1 0 5 6, .close 0, .copyAssign 0 1 3 4, .sourceConstruct 0 7 8,
    .moveAssign 1 1, .destroy 1, .sourceDestroy 0, .destroy 0]

/-- After this run all descriptors have been closed as often as they were obtained. -/
theorem pipe_owns_linearly_careful : ∃ s : State (Fin 2) (Fin 1),
    (machine (Fin 2) (Fin 1) [0, 1, 2]).runUnder NothingOverwritten (start [0, 1, 2])
      carefulTrace = some s ∧
    s.table.closed = [4, 3, 8, 7, 6, 5, 4, 3] ∧ s.table.obtained.Perm s.table.closed :=
  ⟨_, rfl, rfl, (pipe_owns_linearly (Machine.reachableUnder_of_run
    (M := machine (Fin 2) (Fin 1) [0, 1, 2]) (l := carefulTrace) rfl)).2.2.2.2.2 (by decide)⟩

/-- A pipe is moved to another object, and the moved-from object is destroyed: this closes the
descriptor `0`.  A copy is assigned to a pipe that is open: its first descriptors `3` and `4` are
not closed by anybody, although all objects are destroyed. -/
theorem pipe_closes_standard_input_and_leaks :
    (∃ s : State (Fin 2) (Fin 1),
      (machine (Fin 2) (Fin 1) [0, 1, 2]).run (start [0, 1, 2])
        [.construct 0 3 4, .moveConstruct 1 0, .destroy 0] = some s ∧
      s.table.closed = [0] ∧ s.table.obtained = [4, 3]) ∧
    (∃ s : State (Fin 2) (Fin 1),
      (machine (Fin 2) (Fin 1) [0, 1, 2]).run (start [0, 1, 2])
        [.construct 0 3 4, .construct 1 5 6, .copyAssign 0 1 7 8, .destroy 0, .destroy 1] = some s ∧
      (∀ x, s.mFds x = none) ∧ s.table.obtained = [8, 7, 6, 5, 4, 3] ∧
      s.table.closed = [6, 5, 8, 7]) :=
  ⟨⟨_, rfl, rfl, rfl⟩, ⟨_, rfl, by decide, rfl, rfl⟩⟩

end Libcoro.Pipe
