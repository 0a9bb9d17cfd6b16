import Libcoro.TaskGroup.Counting

/-!
# The destructor of a task group

The destructor leaves its loop when it sees that `m_size` is zero.  The last task takes itself from
`m_size` first and sets the event afterwards, so it may touch the event of a group that is gone
(`touched_after_destruction`).  If the destructor does not look between these two steps, nobody
touches the group once it has left its loop (`untouched_after_destruction`).
-/

namespace Libcoro.TaskGroup

open Foundations

variable {τ : Type*}

/-- The next step of a task reads or writes `m_size` or `m_on_empty_event`. -/
def Pc.touches : Pc τ → Bool
  | .reset => true
  | .increment => true
  | .countDown _ => true
  | .setEvent _ => true
  | _ => false

/-- The tasks that have not been started, or that have left the group. -/
def Pc.Outside (p : Pc τ) : Prop :=
  p = .idle ∨ p = .finished ∨ p = .refused

/-- If the destructor finds `m_size` zero, everybody who had to set the event has done so. -/
def SetSeen (s : State τ) : Action τ → Prop
  | .poll => s.mSize = 0 → s.setting = ∅
  | _ => True

instance [DecidableEq τ] (s : State τ) (a : Action τ) : Decidable (SetSeen s a) := by
  unfold SetSeen
  split <;> infer_instance

/-- A task that is neither counted, nor about to set the event, nor in its `start` is outside. -/
lemma Pc.outside {p : Pc τ} (hcounted : ¬ p.Counted) (hsetting : ¬ p.Setting)
    (hstart : p.inStart = false) : p.Outside := by
  cases p <;> simp_all [Pc.Counted, Pc.Setting, Pc.inStart, Pc.Outside]

variable {s t : State τ} {a : Action τ}

/-- When `m_size` is zero and everybody who had to set the event has done so, a group whose
destructor has been called has no task left. -/
lemma outside_of_empty (hcounts : Counts s) (hcalls : Calls s) (hd : s.destructor ≠ .notCalled)
    (hzero : s.mSize = 0) (hset : s.setting = ∅) (k : τ) : (s.pc k).Outside := by
  have hcounted : ∀ j, ¬ (s.pc j).Counted := by
    intro j hj
    have hempty : s.counted = ∅ := by
      have hsize := hcounts.size
      exact Finset.card_eq_zero.mp (by omega)
    simpa [hempty] using (hcounts.counted j).mpr hj
  refine Pc.outside (hcounted k) ?_ ?_
  · intro hk
    simpa [hset] using (hcounts.setting k).mpr hk
  · by_contra hk
    rcases hcalls.called k (by simpa using hk) with huser | ⟨p, hp⟩
    · exact hk (hcalls.destroyed hd k huser)
    · exact hcounted p (by simp [hp, Pc.Counted])

variable [DecidableEq τ]

/-- In a group that the destructor has left with everybody outside, nothing happens any more. -/
lemma Transition.not_exited (ht : Transition s a t) (hout : ∀ k, (s.pc k).Outside)
    (hd : s.destructor = .exited) : t.destructor ≠ .exited := by
  cases ht with
  | @quiet a k p hq _ =>
    have hk := hout k
    generalize s.pc k = q at hq hk
    cases hq <;> simp [Pc.Outside] at hk
  | userStart _ hnot => simp [hd] at hnot
  | @taskStart k p _ hp => simpa [hp, Pc.Outside] using hout p
  | @reset k hk | @increment k hk | @last k r hk _ | @countDown k r hk _
  | @set k r hk => simpa [hk, Pc.Outside] using hout k
  | destroy => simp
  | exit hpoll _ => simp [hd] at hpoll
  | again => simp

/-- The destructor leaves its loop when `m_size` is zero and nobody has yet to set the event. -/
lemma empty_of_exited (h : (machine τ).ReachableUnder SetSeen s) (hd : s.destructor = .exited) :
    s.mSize = 0 ∧ s.setting = ∅ := by
  refine h.invariant (I := fun s => s.destructor = .exited → s.mSize = 0 ∧ s.setting = ∅) ?_ ?_ hd
  · nofun
  · intro s a t hr hs hguard hstep ht
    have htrans := step_transition hstep
    by_cases hd : s.destructor = .exited
    · obtain ⟨hzero, hset⟩ := hs hd
      have hout := outside_of_empty (counts_of_reachable hr.reachable)
        (calls_of_reachable hr.reachable) (by simp [hd]) hzero hset
      exact (htrans.not_exited hout hd ht).elim
    · cases htrans with
      | exit _ hzero => exact ⟨hzero, hguard hzero⟩
      | destroy | again => cases ht
      | _ => exact (hd ht).elim

/-- In every run in which the destructor finds `m_size` zero only when everybody who had to set the
event has done so, all tasks are outside the group once the destructor has left its loop, and no
step of any of them that remains touches the members of the group. -/
theorem untouched_after_destruction (h : (machine τ).ReachableUnder SetSeen s)
    (hd : s.destructor = .exited) :
    ∀ k, (s.pc k).Outside ∧ (s.pc k).touches = false := by
  obtain ⟨hzero, hset⟩ := empty_of_exited h hd
  intro k
  have hout := outside_of_empty (counts_of_reachable h.reachable) (calls_of_reachable h.reachable)
    (by simp [hd]) hzero hset k
  refine ⟨hout, ?_⟩
  rcases hout with hk | hk | hk
  all_goals simp [hk, Pc.touches]

/-- A task ends and sets the event; then the destructor looks at `m_size`. -/
def seenTrace : List (Action ℕ) :=
  [.start 0 none, .advance 0, .advance 0, .advance 0, .destroy, .poll, .finish 0, .advance 0,
    .advance 0, .poll]

/-- After the run above the destructor has left its loop and the task has left the group. -/
theorem untouched_after_destruction_seen : ∃ s : State ℕ,
    (machine ℕ).runUnder SetSeen init seenTrace = some s ∧ s.destructor = .exited ∧
    s.pc 0 = .finished ∧ ∀ k, (s.pc k).Outside ∧ (s.pc k).touches = false := by
  have hreach := Machine.reachableUnder_of_run (M := machine ℕ) (G := SetSeen) (l := seenTrace) rfl
  exact ⟨_, rfl, rfl, rfl, untouched_after_destruction hreach rfl⟩

/-- The last task takes itself from `m_size`, and the destructor looks before it sets the event. -/
def hastyTrace : List (Action ℕ) :=
  [.start 0 none, .advance 0, .advance 0, .advance 0, .destroy, .finish 0, .advance 0, .poll]

/-- After the run above the destructor has left its loop, and the next step of the task sets the
event of the group. -/
theorem touched_after_destruction : ∃ s : State ℕ,
    (machine ℕ).run init hastyTrace = some s ∧ s.destructor = .exited ∧
    (s.pc 0).touches = true ∧
    ∃ t, step s (.advance 0) = some t ∧ s.mOnEmptyEvent = false ∧ t.mOnEmptyEvent = true :=
  ⟨_, rfl, rfl, rfl, _, rfl, rfl, rfl⟩

end Libcoro.TaskGroup
