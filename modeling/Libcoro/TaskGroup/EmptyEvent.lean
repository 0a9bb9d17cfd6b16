import Libcoro.TaskGroup.Counting

/-!
# The empty event of a task group

`start` resets the event before it counts its task, and `count_down` sets the event after it has
found that its task was the last one.  The two orders do not fit: when the last task counts down
between the two steps of a `start`, or has its `set` delayed until a `start` has reset the event,
the event ends up set although a task is running (`set_while_running`).  In a run in which this does
not happen the event tells whether the group is empty (`event_agrees`).
-/

namespace Libcoro.TaskGroup

open Foundations

variable {τ : Type*}

/-- The `count_down` of the task has been called and has not returned. -/
@[simp] def Pc.inCountDown : Pc τ → Bool
  | .countDown _ => true
  | .setEvent _ => true
  | _ => false

/-- No `start` and no `count_down` is in progress. -/
def Quiescent (s : State τ) : Prop :=
  ∀ k, (s.pc k).inStart = false ∧ (s.pc k).inCountDown = false

variable [DecidableEq τ]

/-- The next step of `k` crosses one of another task: it resets the event while somebody has yet to
set it, or it takes the last task from `m_size` while a `start` has reset the event and has yet to
count its task. -/
def State.crossing (s : State τ) (k : τ) : Bool :=
  match s.pc k with
  | .reset => decide (s.setting ≠ ∅)
  | .countDown _ => decide (s.mSize = 1 ∧ s.resetting ≠ ∅)
  | _ => false

/-- The step crosses no other. -/
def Orderly (s : State τ) : Action τ → Prop
  | .advance k => s.crossing k = false
  | _ => True

instance (s : State τ) (a : Action τ) : Decidable (Orderly s a) :=
  match a with
  | .advance k => inferInstanceAs (Decidable (s.crossing k = false))
  | .start _ _ | .refuse _ | .finish _ | .destroy | .poll => isTrue trivial

/-- The event agrees with `m_size`, up to the steps under way. -/
structure Agrees (s : State τ) : Prop where
  setting : s.setting ≠ ∅ → s.mSize = 0 ∧ s.resetting = ∅
  busy : s.mSize ≠ 0 ∨ s.resetting ≠ ∅ → s.mOnEmptyEvent = false
  empty : s.mSize = 0 → s.setting = ∅ → s.resetting = ∅ → s.mOnEmptyEvent = true

variable {s t : State τ} {a : Action τ}

namespace Agrees

/-- While a task is counted, or about to be, nobody has yet to set the event. -/
lemma setting_eq_empty (h : Agrees s) (hbusy : s.mSize ≠ 0 ∨ s.resetting ≠ ∅) : s.setting = ∅ := by
  by_contra hne
  obtain ⟨hsize, hres⟩ := h.setting hne
  rcases hbusy with hbusy | hbusy
  · exact hbusy hsize
  · exact hbusy hres

/-- A transition that crosses no other keeps the event in agreement. -/
lemma transition (h : Agrees s) (hc : Counts s) (hguard : Orderly s a) (ht : Transition s a t) :
    Agrees t := by
  cases ht with
  | @reset k hk =>
    have hset : s.setting = ∅ := by simpa [Orderly, State.crossing, hk] using hguard
    refine ⟨fun hne => (hne hset).elim, fun _ => rfl, fun _ _ hres => ?_⟩
    simp at hres
  | @increment k hk =>
    have hmem : k ∈ s.resetting := (hc.resetting k).mpr (by simp [hk, Pc.Resetting])
    have hbusy : s.mSize ≠ 0 ∨ s.resetting ≠ ∅ := Or.inr (Finset.ne_empty_of_mem hmem)
    refine ⟨fun hne => (hne (h.setting_eq_empty hbusy)).elim, fun _ => h.busy hbusy, ?_⟩
    intro hzero
    have hsize := hc.size
    simp only at hzero
    omega
  | @last k r hk hone =>
    have hres : s.resetting = ∅ := by simpa [Orderly, State.crossing, hk, hone] using hguard
    have hzero : s.mSize - 1 = 0 := by omega
    refine ⟨fun _ => ⟨hzero, hres⟩, ?_, fun _ hset => ?_⟩
    · rintro (hne | hne)
      · exact (hne hzero).elim
      · exact (hne hres).elim
    · simp at hset
  | @countDown k r hk hmore =>
    have hpos : 0 < s.counted.card :=
      Finset.card_pos.mpr ⟨k, (hc.counted k).mpr (by simp [hk, Pc.Counted])⟩
    have hsize := hc.size
    have hbusy : s.mSize ≠ 0 ∨ s.resetting ≠ ∅ := Or.inl (by omega)
    refine ⟨fun hne => (hne (h.setting_eq_empty hbusy)).elim, fun _ => h.busy hbusy, ?_⟩
    intro hzero
    simp only at hzero
    omega
  | @set k r hk =>
    have hmem : k ∈ s.setting := (hc.setting k).mpr (by simp [hk, Pc.Setting])
    obtain ⟨hzero, hres⟩ := h.setting (Finset.ne_empty_of_mem hmem)
    refine ⟨fun _ => ⟨hzero, hres⟩, ?_, fun _ _ _ => rfl⟩
    rintro (hne | hne)
    · exact (hne hzero).elim
    · exact (hne hres).elim
  | _ => exact { h with }

end Agrees

/-- In every run in which no step crosses another, the event is set if and only if `m_size` is zero
whenever no `start` and no `count_down` is in progress.  No task is running then if the event is
set, so that a `co_await` of the group returns at once only if it has nothing to wait for; and
whoever sets the event later finds no task in the group. -/
theorem event_agrees (h : (machine τ).ReachableUnder Orderly s) :
    (Quiescent s → (s.mOnEmptyEvent = true ↔ s.mSize = 0) ∧
      (s.mOnEmptyEvent = true → ∀ k, s.pc k ≠ .running)) ∧
    ∀ k r, s.pc k = .setEvent r → ∀ j, ¬ (s.pc j).Counted := by
  have hc := counts_of_reachable h.reachable
  have hagrees : Agrees s := by
    refine h.invariant ?_ ?_
    · exact ⟨fun hne => (hne rfl).elim, fun hne => by simp [machine, init] at hne, fun _ _ _ => rfl⟩
    · intro s a t hr hs hguard hstep
      exact hs.transition (counts_of_reachable hr.reachable) hguard (step_transition hstep)
  have hnone : s.mSize = 0 → ∀ j, ¬ (s.pc j).Counted := by
    intro hzero j hj
    have hempty : s.counted = ∅ := by
      have hsize := hc.size
      exact Finset.card_eq_zero.mp (by omega)
    simpa [hempty] using (hc.counted j).mpr hj
  refine ⟨fun hquiet => ?_, fun k r hk => ?_⟩
  · have hset : s.setting = ∅ := by
      refine hc.setting.eq_empty fun k hk => ?_
      have hcount := (hquiet k).2
      cases hpc : s.pc k <;> simp_all [Pc.Setting]
    have hres : s.resetting = ∅ := by
      refine hc.resetting.eq_empty fun k hk => ?_
      have hstart := (hquiet k).1
      cases hpc : s.pc k <;> simp_all [Pc.Resetting, Pc.inStart]
    have hiff : s.mOnEmptyEvent = true ↔ s.mSize = 0 := by
      refine ⟨fun hevent => ?_, fun hzero => hagrees.empty hzero hset hres⟩
      by_contra hne
      simp [hagrees.busy (Or.inl hne)] at hevent
    refine ⟨hiff, fun hevent k hk => ?_⟩
    exact hnone (hiff.mp hevent) k (by simp [hk, Pc.Counted])
  · have hmem : k ∈ s.setting := (hc.setting k).mpr (by simp [hk, Pc.Setting])
    exact hnone (hagrees.setting (Finset.ne_empty_of_mem hmem)).1

/-- One task runs and ends; it calls `start` for another one, which the executor refuses. -/
def orderlyTrace : List (Action (Fin 2)) :=
  [.start 0 none, .advance 0, .advance 0, .advance 0,
    .start 1 (some 0), .advance 1, .advance 1, .refuse 1, .advance 1, .advance 0,
    .finish 0, .advance 0, .advance 0]

/-- After the run above nothing is in progress and the event is set. -/
theorem event_agrees_orderly : ∃ s : State (Fin 2),
    (machine (Fin 2)).runUnder Orderly init orderlyTrace = some s ∧
    s.pc 0 = .finished ∧ s.pc 1 = .refused ∧ Quiescent s ∧ s.mOnEmptyEvent = true ∧
    (s.mOnEmptyEvent = true ↔ s.mSize = 0) ∧ ∀ k, s.pc k ≠ .running := by
  obtain ⟨s, hs, h0, h1, hevent⟩ : ∃ s : State (Fin 2),
      (machine (Fin 2)).runUnder Orderly init orderlyTrace = some s ∧
      s.pc 0 = .finished ∧ s.pc 1 = .refused ∧ s.mOnEmptyEvent = true := ⟨_, rfl, rfl, rfl, rfl⟩
  have hquiet : Quiescent s := Fin.forall_fin_two.mpr (by simp [h0, h1, Pc.inStart])
  obtain ⟨hiff, hnone⟩ := (event_agrees (Machine.reachableUnder_of_run hs)).1 hquiet
  exact ⟨s, hs, h0, h1, hquiet, hevent, hiff, hnone hevent⟩

/-- A task is running.  A user calls `start` for another one, and the first task ends between the
two steps of this `start`. -/
def crossingTrace : List (Action (Fin 2)) :=
  [.start 0 none, .advance 0, .advance 0, .advance 0,
    .start 1 none, .advance 1, .finish 0, .advance 0, .advance 0, .advance 1, .advance 1]

/-- After the run above nothing is in progress, the event is set and the second task is running. -/
theorem set_while_running : ∃ s : State (Fin 2),
    (machine (Fin 2)).run init crossingTrace = some s ∧ Quiescent s ∧ s.mOnEmptyEvent = true ∧
    s.mSize = 1 ∧ s.pc 1 = .running := by
  refine ⟨_, rfl, ?_, rfl, rfl, rfl⟩
  intro k
  fin_cases k <;> exact ⟨rfl, rfl⟩

end Libcoro.TaskGroup
