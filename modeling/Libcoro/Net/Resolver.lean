import Libcoro.Foundations.Machine
import Libcoro.Net.IoStatus

/-!
# The poll tasks of the DNS resolver

c-ares announces by a callback which of its sockets are to be watched; the resolver keeps them in
`m_active_sockets` and spawns a poll task for every socket that it inserts.  A poll task looks into
the map only between two polls.  If a socket is closed and its number announced again while the
task is suspended in its poll, or while c-ares processes the result of the poll, the task finds an
entry again and goes on, beside the task that was spawned for the new entry.

A callback is a step of its own, which may come at any time: between polls and, from inside
`ares_process_fd`, while a task is `processing`.
-/

namespace Libcoro.Net.Resolver

open Foundations Function
open Scheduler.Poll (PollStatus)

/-- The `ops` of `ares_socket_state_callback`; `none` is zero. -/
def pollOps (readable writable : Bool) : Option PollOp :=
  match readable, writable with
  | true, true => some .readWrite
  | true, false => some .read
  | false, true => some .write
  | false, false => none

/-- Where a `make_poll_task(fd)` is: about to test the condition of its loop, suspended in `poll`,
in `ares_process_fd` with its two arguments, `ARES_SOCKET_BAD` being `none`, or at its end.  A task
that could not be spawned is `dropped`. -/
inductive Pc (φ : Type*) where
  | unborn
  | loop (fd : φ)
  | polling (fd : φ) (ops : PollOp)
  | processing (fd : φ) (readFd writeFd : Option φ)
  | ended
  | dropped
  deriving DecidableEq, Repr

/-- The socket of a live task. -/
@[simp] def Pc.socket {φ : Type*} : Pc φ → Option φ
  | .loop fd => some fd
  | .polling fd _ => some fd
  | .processing fd _ _ => some fd
  | _ => none

/-- A resolver and its poll tasks. -/
structure State (ι φ : Type*) where
  mActiveSockets : φ → Option PollOp
  pc : ι → Pc φ
  -- History, read by no step: whether the task of the latest insertion of a socket was spawned.
  spawned : φ → Bool

/-- A callback of c-ares, with a name for the task that it may create and with what
`spawn_detached` returns; a task goes on; the poll of a task ends. -/
inductive Action (ι φ : Type*) where
  | callback (fd : φ) (readable writable : Bool) (task : ι) (ok : Bool)
  | advance (c : ι)
  | polled (c : ι) (status : PollStatus)
  deriving DecidableEq, Repr

variable {ι φ : Type*} [DecidableEq ι] [DecidableEq φ]

/-- Moves the control point of the task `c`. -/
@[simp] def State.goto (s : State ι φ) (c : ι) (p : Pc φ) : State ι φ :=
  { s with pc := update s.pc c p }

/-- `m_active_sockets.erase`. -/
def State.erase (s : State ι φ) (fd : φ) : State ι φ :=
  { s with mActiveSockets := update s.mActiveSockets fd none }

/-- `m_active_sockets.insert_or_assign`. -/
@[simp] def State.insertOrAssign (s : State ι φ) (fd : φ) (ops : PollOp) : State ι φ :=
  { s with mActiveSockets := update s.mActiveSockets fd (some ops) }

/-- `spawn_detached(make_poll_task(fd))`. -/
@[simp] def State.spawn (s : State ι φ) (fd : φ) (c : ι) (ok : Bool) : State ι φ :=
  { s.goto c (if ok then .loop fd else .dropped) with
    spawned := update s.spawned fd ok }

/-- `ares_socket_state_callback`. -/
def aresSocketStateCallback (s : State ι φ) (fd : φ) (readable writable : Bool) (c : ι)
    (ok : Bool) : Option (State ι φ) :=
  match pollOps readable writable with
  | none => some (s.erase fd)
  | some ops =>
    match s.mActiveSockets fd with
    | some _ => some (s.insertOrAssign fd ops)
    | none => if s.pc c = .unborn then some ((s.insertOrAssign fd ops).spawn fd c ok) else none

/-- The loop condition of `make_poll_task` with the call of `poll`, and the return from
`ares_process_fd`. -/
def advance (s : State ι φ) (c : ι) : Option (State ι φ) :=
  match s.pc c with
  | .loop fd =>
    match s.mActiveSockets fd with
    | some ops => some (s.goto c (.polling fd ops))
    | none => some (s.goto c .ended)
  | .processing fd _ _ => some (s.goto c (.loop fd))
  | .unborn | .polling _ _ | .ended | .dropped => none

/-- The `switch` of `make_poll_task` over the result of its poll. -/
def polled (s : State ι φ) (c : ι) (fd : φ) : PollStatus → State ι φ
  | .read => s.goto c (.processing fd (some fd) none)
  | .write => s.goto c (.processing fd none (some fd))
  | .timeout => s.goto c (.processing fd none none)
  | .closed => (s.erase fd).goto c (.loop fd)
  | .error => (s.erase fd).goto c (.loop fd)
  | .cancelled => (s.erase fd).goto c (.loop fd)

/-- One step of the system. -/
def step (s : State ι φ) : Action ι φ → Option (State ι φ)
  | .callback fd readable writable c ok => aresSocketStateCallback s fd readable writable c ok
  | .advance c => advance s c
  | .polled c status =>
    match s.pc c with
    | .polling fd _ => some (polled s c fd status)
    | _ => none

/-- A resolver without sockets. -/
def start : State ι φ where
  mActiveSockets _ := none
  pc _ := .unborn
  spawned _ := false

/-- The resolver and its poll tasks as a machine. -/
def machine (ι φ : Type*) [DecidableEq ι] [DecidableEq φ] :
    Machine (State ι φ) (Action ι φ) where
  start := start
  step := step

/-- The live poll tasks of a socket. -/
def State.live (s : State ι φ) (fd : φ) : Set ι :=
  {c | (s.pc c).socket = some fd}

/-- A socket is inserted only when the last poll task of that number has ended. -/
def Retired (s : State ι φ) : Action ι φ → Prop
  | .callback fd readable writable _ _ =>
    pollOps readable writable ≠ none → s.mActiveSockets fd = none → ∀ c, (s.pc c).socket ≠ some fd
  | _ => True

instance [Fintype ι] (s : State ι φ) (a : Action ι φ) : Decidable (Retired s a) := by
  unfold Retired
  split <;> infer_instance

/-! ## What one step can do -/

/-- The steps that keep the map move a task in its loop, or end it when its socket is not in the
map; the others erase a socket, assign its operations or insert it and spawn a task. -/
inductive Transition (s : State ι φ) : State ι φ → Prop
  | move {c : ι} {p : Pc φ} : p.socket = (s.pc c).socket → Transition s (s.goto c p)
  | leave {c : ι} {fd : φ} : s.pc c = .loop fd → s.mActiveSockets fd = none →
      Transition s (s.goto c .ended)
  | assign {fd : φ} {ops : PollOp} : s.mActiveSockets fd ≠ none →
      Transition s (s.insertOrAssign fd ops)
  | erase {fd : φ} : Transition s (s.erase fd)
  | eraseMove {c : ι} {fd : φ} {p : Pc φ} : p.socket = (s.pc c).socket →
      Transition s ((s.erase fd).goto c p)
  | insert {fd : φ} {ops : PollOp} {c : ι} {ok : Bool} : s.mActiveSockets fd = none →
      s.pc c = .unborn → (∀ d, (s.pc d).socket ≠ some fd) →
      Transition s ((s.insertOrAssign fd ops).spawn fd c ok)

variable {s t : State ι φ} {a : Action ι φ}

/-- Every step of a run in which sockets retire is one of the listed transitions. -/
lemma step_transition (hguard : Retired s a) (h : step s a = some t) : Transition s t := by
  cases a with
  | callback fd readable writable c ok =>
    simp only [step, aresSocketStateCallback] at h
    split at h <;> rename_i hops
    · cases h
      exact .erase
    · split at h <;> rename_i hactive
      · cases h
        exact .assign (by simp [hactive])
      · split_ifs at h with hc
        cases h
        exact .insert hactive hc (hguard (by simp [hops]) hactive)
  | advance c =>
    simp only [step, advance] at h
    split at h <;> rename_i hc
    · split at h <;> rename_i hactive
      · cases h
        exact .move (by simp [hc])
      · cases h
        exact .leave hc hactive
    · cases h
      exact .move (by simp [hc])
    all_goals simp at h
  | polled c status =>
    simp only [step] at h
    split at h <;> rename_i hc
    · cases h
      cases status with
      | read | write | timeout => exact .move (by simp [hc])
      | error | closed | cancelled => exact .eraseMove (by simp [hc])
    · simp at h

/-- No two tasks poll one socket, and a socket whose task was spawned has one. -/
structure Polled (s : State ι φ) : Prop where
  unique : ∀ {c d : ι} {fd : φ}, (s.pc c).socket = some fd → (s.pc d).socket = some fd → c = d
  present : ∀ fd, s.mActiveSockets fd ≠ none → s.spawned fd = true →
    ∃ c, (s.pc c).socket = some fd

namespace Polled

omit [DecidableEq φ] in
/-- A task that keeps its socket may move. -/
lemma goto (h : Polled s) {c : ι} {p : Pc φ} (hp : p.socket = (s.pc c).socket) :
    Polled (s.goto c p) := by
  have hsame : ∀ d, ((s.goto c p).pc d).socket = (s.pc d).socket :=
    (forall_update_iff s.pc fun d q => q.socket = (s.pc d).socket).mpr
      ⟨hp, fun _ _ => rfl⟩
  refine ⟨?_, ?_⟩
  · intro d d' fd hd hd'
    rw [hsame] at hd hd'
    exact h.unique hd hd'
  · intro fd hactive hspawned
    obtain ⟨d, hd⟩ := h.present fd hactive hspawned
    exact ⟨d, (hsame d).trans hd⟩

omit [DecidableEq ι] in
/-- A socket may be erased from the map. -/
lemma erase (h : Polled s) (fd : φ) : Polled (s.erase fd) := by
  refine ⟨h.unique, fun fd' hactive => h.present fd' ?_⟩
  rcases eq_or_ne fd' fd with rfl | hfd
  · simp [State.erase] at hactive
  · simpa [State.erase, hfd] using hactive

/-- Every step of a run in which sockets retire. -/
lemma transition (h : Polled s) (ht : Transition s t) : Polled t := by
  cases ht with
  | move hp => exact h.goto hp
  | @leave c fd hc hnone =>
    have hother : ∀ d fd', ((s.goto c .ended).pc d).socket = some fd' →
        (s.pc d).socket = some fd' := by
      intro d fd' hd
      rcases eq_or_ne d c with rfl | hdc
      · simp at hd
      · simpa [hdc] using hd
    refine ⟨fun hd hd' => h.unique (hother _ _ hd) (hother _ _ hd'), ?_⟩
    intro fd' hactive hspawned
    obtain ⟨d, hd⟩ := h.present fd' hactive hspawned
    -- the task that leaves is not the one of a socket in the map
    have hdc : d ≠ c := by
      rintro rfl
      rw [hc] at hd
      cases hd
      exact hactive hnone
    exact ⟨d, by simpa [hdc] using hd⟩
  | @assign fd ops hactive =>
    refine ⟨h.unique, fun fd' hactive' => h.present fd' ?_⟩
    rcases eq_or_ne fd' fd with rfl | hfd
    · exact hactive
    · simpa [hfd] using hactive'
  | erase => exact h.erase _
  | eraseMove hp => exact (h.erase _).goto hp
  | @insert fd ops c ok hnone hc hretired =>
    have hother : ∀ d, d ≠ c →
        (((s.insertOrAssign fd ops).spawn fd c ok).pc d).socket = (s.pc d).socket := by
      intro d hdc
      simp [hdc]
    have hnew : ∀ fd', (((s.insertOrAssign fd ops).spawn fd c ok).pc c).socket = some fd' →
        fd' = fd := by
      intro fd' hfd'
      cases ok
      · simp at hfd'
      · simpa [eq_comm] using hfd'
    refine ⟨?_, ?_⟩
    · intro d d' fd' hd hd'
      rcases eq_or_ne d c with rfl | hdc
      · obtain rfl := hnew fd' hd
        by_contra hne
        rw [hother d' (Ne.symm hne)] at hd'
        exact hretired d' hd'
      · rw [hother d hdc] at hd
        rcases eq_or_ne d' c with rfl | hdc'
        · obtain rfl := hnew fd' hd'
          exact (hretired d hd).elim
        · rw [hother d' hdc'] at hd'
          exact h.unique hd hd'
    · intro fd' hactive hspawned
      rcases eq_or_ne fd' fd with rfl | hfd
      · obtain rfl : ok = true := by simpa using hspawned
        exact ⟨c, by simp⟩
      · have hactive' : s.mActiveSockets fd' ≠ none := by
          simpa [hfd] using hactive
        have hspawned' : s.spawned fd' = true := by
          simpa [hfd] using hspawned
        obtain ⟨d, hd⟩ := h.present fd' hactive' hspawned'
        have hdc : d ≠ c := by
          rintro rfl
          simp [hc] at hd
        exact ⟨d, (hother d hdc).trans hd⟩

end Polled

/-- In every run in which sockets retire the tasks poll different sockets. -/
lemma polled_of_reachable (h : (machine ι φ).ReachableUnder Retired s) : Polled s := by
  refine h.invariant ?_ ?_
  · exact ⟨nofun, fun _ hactive => (hactive rfl).elim⟩
  · intro s a t _ hs hguard hstep
    exact hs.transition (step_transition hguard hstep)

/-! ## The number of poll tasks -/

/-- In every run in which a socket is inserted only after its last poll task has ended: every
socket number has at most one live poll task, and exactly one if it is in the map and its task was
spawned. -/
theorem one_poll_task (h : (machine ι φ).ReachableUnder Retired s) (fd : φ) :
    (s.live fd).encard ≤ 1 ∧
    (s.mActiveSockets fd ≠ none → s.spawned fd = true → (s.live fd).encard = 1) := by
  have hpolled := polled_of_reachable h
  refine ⟨?_, ?_⟩
  · rw [Set.encard_le_one_iff]
    intro c d hc hd
    exact hpolled.unique hc hd
  · intro hactive hspawned
    obtain ⟨c, hc⟩ := hpolled.present fd hactive hspawned
    refine Set.encard_eq_one.mpr ⟨c, Set.eq_singleton_iff_unique_mem.mpr ⟨hc, ?_⟩⟩
    intro d hd
    exact hpolled.unique hd hc

/-- A socket is polled and read, its operations change, c-ares closes it while it processes the
result, the task ends, and the number is announced again. -/
def retiredTrace : List (Action (Fin 2) ℕ) :=
  [.callback 7 true false 0 true, .advance 0, .polled 0 .read, .callback 7 true true 1 true,
    .callback 7 false false 1 true, .advance 0, .advance 0, .callback 7 false true 1 true,
    .advance 1]

/-- After the run above the second task is the only one. -/
theorem one_poll_task_retired : ∃ s : State (Fin 2) ℕ,
    (machine (Fin 2) ℕ).runUnder Retired start retiredTrace = some s ∧
    s.pc 0 = .ended ∧ s.pc 1 = .polling 7 .write ∧ (s.live 7).encard = 1 :=
  ⟨_, rfl, rfl, rfl, (one_poll_task (Machine.reachableUnder_of_run (l := retiredTrace) rfl) 7).2
    (by decide) rfl⟩

/-- A socket is closed and its number announced again while its task is suspended in `poll`: the
task never notices, and there are two live tasks from then on, which both poll the socket. -/
theorem reannounced : ∃ s : State (Fin 2) ℕ,
    (machine (Fin 2) ℕ).run start
      [.callback 7 true false 0 true, .advance 0, .callback 7 false false 1 true,
        .callback 7 true false 1 true, .advance 1, .polled 0 .read, .advance 0, .advance 0] =
      some s ∧
    s.pc 0 = .polling 7 .read ∧ s.pc 1 = .polling 7 .read ∧ ¬ (s.live 7).encard ≤ 1 := by
  refine ⟨_, rfl, rfl, rfl, ?_⟩
  rw [Set.encard_le_one_iff]
  intro hone
  exact absurd (hone 0 1 rfl rfl) (by decide)

end Libcoro.Net.Resolver
