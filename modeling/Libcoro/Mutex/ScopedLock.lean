import Libcoro.Foundations.Custody
import Libcoro.Foundations.HandoverLock

/-!
# `coro::scoped_lock`

A scoped lock is made from a mutex that has been acquired, and it is to unlock the mutex once.  The
machine below has any number of scoped locks and of mutexes; its steps are the special members of
`scoped_lock` and `unlock()`, and the acquisitions of the mutexes by other means.  A mutex is the
lock that `Libcoro.Mutex.Refinement` shows it to implement.

`mutex::unlock()` may resume a waiter, which runs until it suspends before `scoped_lock::unlock()`
goes on and resets `m_mutex`.  In the meantime everything may happen, except to the scoped lock that
is being unlocked.
-/

namespace Libcoro.ScopedLock

open Foundations Function

/-- A scoped lock: it does not exist, it exists with its `m_mutex`, or it is inside `unlock()`,
called by its destructor or not. -/
inductive Object (μ : Type*) where
  | absent
  | alive (mMutex : Option μ)
  | unlocking (destructor : Bool)
  deriving DecidableEq, Repr

/-- The scoped locks `η`, the mutexes `μ` and the lock operations `ι`. -/
structure State (η μ ι : Type*) where
  mutex : μ → HandoverLock ι
  -- A lock operation has got the mutex, and no scoped lock has adopted it.
  acquired : μ → Bool
  object : η → Object μ
  -- `mutex::unlock` has thrown "coro::mutex is already unlocked".
  alreadyUnlocked : Bool
  -- History: the mutexes that scoped locks have adopted and unlocked, the latest first.
  adopted : List μ
  unlocked : List μ

/-- A lock operation finds the mutex free or queues up; a scoped lock adopts a mutex, is moved,
unlocked or destroyed, or comes back from `mutex::unlock()`. -/
inductive Action (η μ ι : Type*) where
  | acquire (c : ι) (m : μ)
  | enqueue (c : ι) (m : μ)
  | adopt (l : η) (m : μ)
  | moveConstruct (l k : η)
  | moveAssign (l k : η)
  | unlock (l : η)
  | destroy (l : η)
  | unlockReturns (l : η)
  deriving DecidableEq, Repr

variable {η μ ι : Type*}

/-- The mutex that a scoped lock has to unlock. -/
@[simp] def Object.held : Object μ → Option μ
  | .alive mMutex => mMutex
  | _ => none

variable [DecidableEq η] [DecidableEq μ]

/-- Overwrites a scoped lock. -/
def State.put (s : State η μ ι) (l : η) (o : Object μ) : State η μ ι :=
  { s with object := update s.object l o }

/-- `m_mutex = std::exchange(other.m_mutex, nullptr)`, with `k` as the other scoped lock. -/
def exchange (s : State η μ ι) (l k : η) : Option (State η μ ι) :=
  match s.object k with
  | .alive mMutex => some ((s.put l (.alive mMutex)).put k (.alive none))
  | _ => none

/-- `mutex::unlock()`, called by the scoped lock `l`, which is then as in `o`; an exception leaves
it as it was. -/
def unlockMutex (s : State η μ ι) (l : η) (o : Object μ) (m : μ) : State η μ ι :=
  match s.mutex m with
  | .free => { s with alreadyUnlocked := true, unlocked := m :: s.unlocked }
  | .held _ [] =>
    { s.put l o with
      mutex := update s.mutex m .free
      unlocked := m :: s.unlocked }
  | .held _ (w :: ws) =>
    { s.put l o with
      mutex := update s.mutex m (.held w ws)
      acquired := update s.acquired m true
      unlocked := m :: s.unlocked }

/-- One step of the system. -/
def step (s : State η μ ι) : Action η μ ι → Option (State η μ ι)
  | .acquire c m =>
    match s.mutex m with
    | .free =>
      some { s with
        mutex := update s.mutex m (.held c [])
        acquired := update s.acquired m true }
    | .held _ _ => none
  | .enqueue c m =>
    match s.mutex m with
    | .free => none
    | .held o ws => some { s with mutex := update s.mutex m (.held o (c :: ws)) }
  | .adopt l m =>
    if s.object l = .absent ∧ s.acquired m = true then
      some { s.put l (.alive (some m)) with
        acquired := update s.acquired m false
        adopted := m :: s.adopted }
    else none
  | .moveConstruct l k => if s.object l = .absent then exchange s l k else none
  | .moveAssign l k =>
    match s.object l with
    | .alive _ => if k ≠ l then exchange s l k else some s
    | _ => none
  | .unlock l =>
    match s.object l with
    | .alive none => some s
    | .alive (some m) => some (unlockMutex s l (.unlocking false) m)
    | _ => none
  | .destroy l =>
    match s.object l with
    | .alive none => some (s.put l .absent)
    | .alive (some m) => some (unlockMutex s l (.unlocking true) m)
    | _ => none
  | .unlockReturns l =>
    match s.object l with
    | .unlocking destructor => some (s.put l (if destructor then .absent else .alive none))
    | _ => none

/-- All mutexes are free, and no scoped lock exists. -/
def start : State η μ ι where
  mutex _ := .free
  acquired _ := false
  object _ := .absent
  alreadyUnlocked := false
  adopted := []
  unlocked := []

/-- The scoped locks as a machine. -/
def machine (η μ ι : Type*) [DecidableEq η] [DecidableEq μ] :
    Machine (State η μ ι) (Action η μ ι) where
  start := start
  step := step

/-- A scoped lock that has to unlock a mutex is not assigned another scoped lock. -/
def NothingDropped (s : State η μ ι) : Action η μ ι → Prop
  | .moveAssign l k => l = k ∨ s.object l = .alive none
  | _ => True

instance (s : State η μ ι) (a : Action η μ ι) : Decidable (NothingDropped s a) := by
  unfold NothingDropped
  split <;> infer_instance

/-! ## The books -/

/-- The mutex that each scoped lock has to unlock. -/
def State.held (s : State η μ ι) (l : η) : Option μ :=
  (s.object l).held

/-- The scoped locks own what they hold; a mutex that waits for adoption is held by none of them;
the other mutexes that nobody holds are free; and no error was raised. -/
structure Owned (s : State η μ ι) : Prop where
  custody : Custody s.held s.adopted s.unlocked
  acquired_not_held : ∀ m, s.acquired m = true → ∀ l, s.held l ≠ some m
  free_iff : ∀ m, s.mutex m = .free ↔ s.acquired m = false ∧ ∀ l, s.held l ≠ some m
  noError : s.alreadyUnlocked = false

variable {s t : State η μ ι} {l k : η} {m : μ} {o : Object μ}

omit [DecidableEq μ] in
/-- Overwriting a scoped lock changes what it holds. -/
lemma held_put (s : State η μ ι) (l : η) (o : Object μ) :
    (s.put l o).held = update s.held l o.held := by
  funext k
  by_cases hkl : k = l
  · subst hkl
    simp [State.held, State.put]
  · simp [State.held, State.put, hkl]

omit [DecidableEq η] [DecidableEq μ] in
/-- A scoped lock that does not exist holds nothing. -/
lemma held_of_absent (hl : s.object l = .absent) : s.held l = none := by
  simp [State.held, hl]

omit [DecidableEq η] [DecidableEq μ] in
/-- A scoped lock that exists holds its `m_mutex`. -/
lemma held_of_alive {v : Option μ} (hl : s.object l = .alive v) : s.held l = v := by
  simp [State.held, hl]

namespace Owned

omit [DecidableEq η] in
/-- A mutex that a scoped lock holds is not free. -/
lemma mutex_ne_free (h : Owned s) (hl : s.held l = some m) : s.mutex m ≠ .free := fun hfree =>
  ((h.free_iff m).mp hfree).2 l hl

/-- A scoped lock that holds nothing is overwritten by one that holds nothing. -/
lemma put_none (h : Owned s) (hl : s.held l = none) (ho : o.held = none) :
    Owned (s.put l o) := by
  have hheld : (s.put l o).held = s.held := by
    rw [held_put, ho, ← hl, update_eq_self]
  refine ⟨?_, ?_, ?_, h.noError⟩
  · rw [hheld]
    exact h.custody
  · rw [hheld]
    exact h.acquired_not_held
  · rw [hheld]
    exact h.free_iff

omit [DecidableEq η] in
/-- A free mutex is acquired. -/
lemma acquire (h : Owned s) (hm : s.mutex m = .free) (c : ι) :
    Owned { s with
      mutex := update s.mutex m (.held c [])
      acquired := update s.acquired m true } := by
  have hnot := ((h.free_iff m).mp hm).2
  refine ⟨h.custody, fun n hn => ?_, fun n => ?_, h.noError⟩
  · by_cases hnm : n = m
    · exact hnm ▸ hnot
    · exact h.acquired_not_held n (by simpa [hnm] using hn)
  · change _ ↔ update s.acquired m true n = false ∧ ∀ l, s.held l ≠ some n
    by_cases hnm : n = m
    · subst hnm
      simp
    · simpa [hnm] using h.free_iff n

omit [DecidableEq η] in
/-- A lock operation queues up for a mutex. -/
lemma enqueue {p : ι} {ws : List ι} (h : Owned s) (hm : s.mutex m = .held p ws) (c : ι) :
    Owned { s with mutex := update s.mutex m (.held p (c :: ws)) } := by
  refine ⟨h.custody, h.acquired_not_held, fun n => ?_, h.noError⟩
  refine Iff.trans ?_ (h.free_iff n)
  by_cases hnm : n = m
  · subst hnm
    simp [hm]
  · simp [hnm]

/-- A scoped lock adopts a mutex. -/
lemma adopt (h : Owned s) (hl : s.object l = .absent) (hm : s.acquired m = true) :
    Owned { s.put l (.alive (some m)) with
      acquired := update s.acquired m false
      adopted := m :: s.adopted } := by
  have hnot := h.acquired_not_held m hm
  have hheld : ∀ n k, (s.put l (.alive (some m))).held k = some n ↔
      (k = l ∧ n = m) ∨ s.held k = some n := by
    intro n k
    rw [held_put]
    by_cases hkl : k = l
    · subst hkl
      simp [held_of_absent hl, eq_comm]
    · simp [hkl]
  refine ⟨?_, fun n hn k hk => ?_, fun n => ?_, h.noError⟩
  · have hc := h.custody.obtain_into hnot (held_of_absent hl)
    change Custody (s.put l (.alive (some m))).held _ _
    rw [held_put]
    exact hc
  · have hnm : n ≠ m := by
      rintro rfl
      simp at hn
    rcases (hheld n k).mp hk with ⟨-, hnm'⟩ | hk
    · exact hnm hnm'
    · exact h.acquired_not_held n (by simpa [hnm] using hn) k hk
  · by_cases hnm : n = m
    · subst hnm
      refine iff_of_false (fun hfree => ?_) fun hn => hn.2 l ((hheld n l).mpr (Or.inl ⟨rfl, rfl⟩))
      have hacq := ((h.free_iff n).mp hfree).1
      rw [hm] at hacq
      cases hacq
    · refine (h.free_iff n).trans (and_congr (by simp [hnm]) (forall_congr' fun k => not_congr ?_))
      change _ ↔ (s.put l (.alive (some m))).held k = some n
      simp [hheld, hnm]

/-- A scoped lock that holds nothing takes over what another one holds. -/
lemma exchange (h : Owned s) (hkl : k ≠ l) (hl : s.held l = none)
    (hop : ScopedLock.exchange s l k = some t) : Owned t := by
  unfold ScopedLock.exchange at hop
  split at hop
  · rename_i v hk
    cases hop
    have hheld : ((s.put l (.alive v)).put k (.alive none)).held =
        update (update s.held l (s.held k)) k none := by
      rw [held_put, held_put, held_of_alive hk]
      rfl
    have hsome : ∀ n, (∃ j, ((s.put l (.alive v)).put k (.alive none)).held j = some n) ↔
        ∃ j, s.held j = some n := by
      intro n
      rw [hheld]
      constructor
      · rintro ⟨j, hj⟩
        by_cases hjk : j = k
        · simp [hjk] at hj
        · by_cases hjl : j = l
          · subst hjl
            exact ⟨k, by simpa [hjk] using hj⟩
          · exact ⟨j, by simpa [hjk, hjl] using hj⟩
      · rintro ⟨j, hj⟩
        by_cases hjk : j = k
        · subst hjk
          exact ⟨l, by simpa [hkl.symm] using hj⟩
        · have hjl : j ≠ l := by
            rintro rfl
            simp [hl] at hj
          exact ⟨j, by simpa [hjk, hjl] using hj⟩
    have hnone : ∀ n, (∀ j, ((s.put l (.alive v)).put k (.alive none)).held j ≠ some n) ↔
        ∀ j, s.held j ≠ some n := by
      intro n
      simpa using not_congr (hsome n)
    refine ⟨?_, fun n hn => (hnone n).mpr (h.acquired_not_held n hn), fun n => ?_, h.noError⟩
    · rw [hheld]
      exact h.custody.pass hkl hl
    · exact (h.free_iff n).trans (and_congr_right' (hnone n).symm)
  · cases hop

/-- A scoped lock unlocks its mutex. -/
lemma unlockMutex (h : Owned s) (hl : s.held l = some m) (ho : o.held = none) :
    Owned (ScopedLock.unlockMutex s l o m) := by
  have hother : ∀ n k, update s.held l none k = some n ↔ n ≠ m ∧ s.held k = some n := by
    intro n k
    by_cases hkl : k = l
    · subst hkl
      rw [hl]
      simp [eq_comm]
    · rw [update_of_ne hkl]
      refine ⟨fun hk => ⟨?_, hk⟩, And.right⟩
      rintro rfl
      exact hkl (h.custody.unique k l n hk hl)
  have hheld : (s.put l o).held = update s.held l none := by
    rw [held_put, ho]
  have hcustody : Custody (s.put l o).held s.adopted (m :: s.unlocked) := by
    rw [hheld]
    exact h.custody.release hl
  have hacquired : s.acquired m = false := by
    by_contra hm
    exact h.acquired_not_held m (by simpa using hm) l hl
  unfold ScopedLock.unlockMutex
  cases hm : s.mutex m with
  | free => exact (h.mutex_ne_free hl hm).elim
  | held p ws =>
    cases ws with
    | nil =>
      refine ⟨hcustody, fun n hn k hk => ?_, fun n => ?_, h.noError⟩
      · change (s.put l o).held k = some n at hk
        rw [hheld, hother] at hk
        exact h.acquired_not_held n hn k hk.2
      · change _ ↔ s.acquired n = false ∧ ∀ k, (s.put l o).held k ≠ some n
        rw [hheld]
        by_cases hnm : n = m
        · subst hnm
          simp [hacquired, hother]
        · simpa [hnm, hother] using h.free_iff n
    | cons w ws =>
      refine ⟨hcustody, fun n hn k hk => ?_, fun n => ?_, h.noError⟩
      · change (s.put l o).held k = some n at hk
        rw [hheld, hother] at hk
        exact h.acquired_not_held n (by simpa [hk.1] using hn) k hk.2
      · change _ ↔ update s.acquired m true n = false ∧ ∀ k, (s.put l o).held k ≠ some n
        rw [hheld]
        by_cases hnm : n = m
        · subst hnm
          simp
        · simpa [hnm, hother] using h.free_iff n

end Owned

/-- A step that drops nothing keeps the books. -/
lemma step_owned {a : Action η μ ι} (h : Owned s) (hG : NothingDropped s a)
    (hstep : step s a = some t) : Owned t := by
  cases a with
  | acquire c m =>
    simp only [step] at hstep
    split at hstep
    · rename_i hm
      exact Option.some.inj hstep ▸ h.acquire hm c
    · cases hstep
  | enqueue c m =>
    simp only [step] at hstep
    split at hstep
    · cases hstep
    · rename_i p ws hm
      exact Option.some.inj hstep ▸ h.enqueue hm c
  | adopt l m =>
    simp only [step, Option.ite_none_right_eq_some, Option.some.injEq] at hstep
    obtain ⟨⟨hl, hm⟩, rfl⟩ := hstep
    exact h.adopt hl hm
  | moveConstruct l k =>
    simp only [step, Option.ite_none_right_eq_some] at hstep
    obtain ⟨hl, hop⟩ := hstep
    have hkl : k ≠ l := by
      rintro rfl
      simp [exchange, hl] at hop
    exact h.exchange hkl (held_of_absent hl) hop
  | moveAssign l k =>
    simp only [step] at hstep
    split at hstep
    · split_ifs at hstep with hkl
      · have hl := hG.resolve_left (Ne.symm hkl)
        exact h.exchange hkl (held_of_alive hl) hstep
      · exact Option.some.inj hstep ▸ h
    · cases hstep
  | unlock l =>
    simp only [step] at hstep
    split at hstep
    · exact Option.some.inj hstep ▸ h
    · rename_i m hl
      exact Option.some.inj hstep ▸ h.unlockMutex (held_of_alive hl) rfl
    · cases hstep
  | destroy l =>
    simp only [step] at hstep
    split at hstep
    · rename_i hl
      exact Option.some.inj hstep ▸ h.put_none (held_of_alive hl) rfl
    · rename_i m hl
      exact Option.some.inj hstep ▸ h.unlockMutex (held_of_alive hl) rfl
    · cases hstep
  | unlockReturns l =>
    simp only [step] at hstep
    split at hstep
    · rename_i destructor hl
      have hnone : s.held l = none := by simp [State.held, hl]
      refine Option.some.inj hstep ▸ h.put_none hnone ?_
      cases destructor <;> rfl
    · cases hstep

omit [DecidableEq η] in
/-- At the beginning the books are in order. -/
lemma start_owned : Owned (start : State η μ ι) :=
  ⟨Custody.start, by simp [start], by simp [start, State.held], rfl⟩

/-- In every run in which a scoped lock that has to unlock a mutex is not assigned another one: the
error "already unlocked" is not raised; two scoped locks never hold the same mutex, and a mutex that
a scoped lock holds is locked; each mutex was unlocked as often as it was adopted, or once less; and
once all scoped locks are destroyed, each mutex was unlocked exactly as often as it was adopted, and
those that no lock operation has acquired again are free. -/
theorem scoped_lock_releases_once
    (h : (machine η μ ι).ReachableUnder NothingDropped s) :
    s.alreadyUnlocked = false ∧
    (∀ l k m, s.object l = .alive (some m) → s.object k = .alive (some m) → l = k) ∧
    (∀ l m, s.object l = .alive (some m) → s.mutex m ≠ .free) ∧
    (∀ m, s.unlocked.count m ≤ s.adopted.count m ∧
      s.adopted.count m ≤ s.unlocked.count m + 1) ∧
    ((∀ l, s.object l = .absent) → s.adopted.Perm s.unlocked ∧
      ∀ m, s.acquired m = false → s.mutex m = .free) := by
  have hs : Owned s := by
    refine h.invariant start_owned ?_
    intro s a t _ hs hG hstep
    exact step_owned hs hG hstep
  refine ⟨hs.noError, fun l k m hl hk => ?_, fun l m hl => hs.mutex_ne_free (held_of_alive hl),
    hs.custody.count_le, fun hall => ⟨?_, fun m hm => ?_⟩⟩
  · exact hs.custody.unique l k m (held_of_alive hl) (held_of_alive hk)
  · exact hs.custody.settled fun l => held_of_absent (hall l)
  · refine (hs.free_iff m).mpr ⟨hm, fun l => ?_⟩
    simp [held_of_absent (hall l)]

/-- The scoped lock `0` adopts a mutex for which somebody queues up, is moved to `1`, which is
destroyed and hands the mutex over; `0` is destroyed in the meantime.  The waiter adopts the mutex
with the scoped lock `2` and unlocks it. -/
def handoverTrace : List (Action (Fin 3) (Fin 1) (Fin 2)) :=
  [.acquire 0 0, .adopt 0 0, .enqueue 1 0, .moveConstruct 1 0, .destroy 1, .adopt 2 0, .destroy 0,
    .unlock 2, .unlockReturns 2, .destroy 2, .unlockReturns 1]

/-- After this run the mutex is free and was unlocked as often as it was adopted. -/
theorem scoped_lock_releases_once_handover : ∃ s : State (Fin 3) (Fin 1) (Fin 2),
    (machine (Fin 3) (Fin 1) (Fin 2)).runUnder NothingDropped start handoverTrace = some s ∧
    s.unlocked = [0, 0] ∧ s.adopted.Perm s.unlocked ∧
    ∀ m, s.acquired m = false → s.mutex m = .free :=
  ⟨_, rfl, rfl, (scoped_lock_releases_once (Machine.reachableUnder_of_run
    (M := machine (Fin 3) (Fin 1) (Fin 2)) (l := handoverTrace) rfl)).2.2.2.2 (by decide)⟩

/-- The scoped locks `0` and `1` have adopted the mutexes `0` and `1`, and `1` is move-assigned to
`0`.  After both are destroyed the mutex `0` is still locked, and nobody holds it. -/
theorem scoped_lock_drops_mutex : ∃ s : State (Fin 2) (Fin 2) (Fin 2),
    (machine (Fin 2) (Fin 2) (Fin 2)).run start
      [.acquire 0 0, .adopt 0 0, .acquire 1 1, .adopt 1 1, .moveAssign 0 1, .destroy 0,
        .unlockReturns 0, .destroy 1] = some s ∧
    (∀ l, s.object l = .absent) ∧ (∀ m, s.acquired m = false) ∧
    s.adopted = [1, 0] ∧ s.unlocked = [1] ∧ s.mutex 0 = .held 0 [] :=
  ⟨_, rfl, by decide, by decide, rfl, rfl, rfl⟩

end Libcoro.ScopedLock
