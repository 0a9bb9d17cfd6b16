import Libcoro.TaskGroup.Model

/-!
# Who is counted in a task group

`m_size` is the number of the tasks that `start` has added and that have not counted down
(`Counts`), and every `start` in progress was called by a user before the destruction of the group
or by a task that waits for it to return (`Calls`).
-/

namespace Libcoro.TaskGroup

open Foundations

variable {τ : Type*}

/-- The tasks that are counted in `m_size`. -/
def Pc.Counted : Pc τ → Prop
  | .resume => True
  | .running => True
  | .starting _ => True
  | .countDown _ => True
  | _ => False

/-- The last ones, which have yet to set the event. -/
def Pc.Setting : Pc τ → Prop
  | .setEvent _ => True
  | _ => False

/-- The tasks whose `start` has reset the event and has yet to count them. -/
def Pc.Resetting : Pc τ → Prop
  | .increment => True
  | _ => False

/-- The history agrees with the control points, and `m_size` with the history. -/
structure Counts (s : State τ) : Prop where
  size : s.mSize = s.counted.card
  counted : Roster Pc.Counted s.counted s.pc
  setting : Roster Pc.Setting s.setting s.pc
  resetting : Roster Pc.Resetting s.resetting s.pc

/-- Every `start` in progress has a caller, and after the destructor has been called it is a
task. -/
structure Calls (s : State τ) : Prop where
  called : ∀ k, (s.pc k).inStart = true → k ∈ s.userStarts ∨ ∃ p, s.pc p = .starting k
  started : ∀ k ∈ s.userStarts, s.pc k ≠ .idle
  destroyed : s.destructor ≠ .notCalled → ∀ k ∈ s.userStarts, (s.pc k).inStart = false

/-- A quiet move changes none of the sets. -/
lemma Quiet.spec {q p : Pc τ} (h : Quiet q p) :
    (p.Counted ↔ q.Counted) ∧ (p.Setting ↔ q.Setting) ∧ (p.Resetting ↔ q.Resetting) ∧
      (p.inStart = true → q.inStart = true) ∧ p ≠ .idle := by
  cases h <;> simp [Pc.Counted, Pc.Setting, Pc.Resetting, Pc.inStart]

/-- After a `count_down` the task is in none of the sets. -/
lemma countedDown_spec (r : Bool) :
    ¬ (Pc.countedDown r : Pc τ).Counted ∧ ¬ (Pc.countedDown r : Pc τ).Setting ∧
      ¬ (Pc.countedDown r : Pc τ).Resetting ∧ (Pc.countedDown r : Pc τ).inStart = false ∧
      (Pc.countedDown r : Pc τ) ≠ .idle := by
  cases r <;> simp [Pc.countedDown, Pc.Counted, Pc.Setting, Pc.Resetting, Pc.inStart]

variable [DecidableEq τ] {s t : State τ} {a : Action τ} {k : τ} {p : Pc τ}

/-- Every transition is counted. -/
lemma Counts.transition (h : Counts s) (ht : Transition s a t) : Counts t := by
  have hsize := h.size
  cases ht with
  | quiet hq _ =>
    obtain ⟨hcounted, hsetting, hresetting, -⟩ := hq.spec
    exact ⟨hsize, h.counted.keep hcounted, h.setting.keep hsetting, h.resetting.keep hresetting⟩
  | userStart hk _ =>
    refine ⟨hsize, h.counted.keep ?_, h.setting.keep ?_, h.resetting.keep ?_⟩
    all_goals simp [hk, Pc.Counted, Pc.Setting, Pc.Resetting]
  | @taskStart k p hk hp =>
    have hpk : p ≠ k := by
      rintro rfl
      simp [hk] at hp
    refine ⟨hsize, (h.counted.keep ?_).keep ?_, (h.setting.keep ?_).keep ?_,
      (h.resetting.keep ?_).keep ?_⟩
    all_goals simp [hk, hp, hpk, Pc.Counted, Pc.Setting, Pc.Resetting]
  | reset hk =>
    refine ⟨hsize, h.counted.keep ?_, h.setting.keep ?_, h.resetting.enter trivial⟩
    all_goals simp [hk, Pc.Counted, Pc.Setting]
  | @increment k hk =>
    refine ⟨?_, h.counted.enter trivial, h.setting.keep (by simp [hk, Pc.Setting]),
      h.resetting.leave id⟩
    have hcard := h.counted.card_enter (k := k) (by simp [hk, Pc.Counted])
    simp only [hcard]
    push_cast
    omega
  | @last k r hk _ =>
    refine ⟨?_, h.counted.leave id, h.setting.enter trivial,
      h.resetting.keep (by simp [hk, Pc.Resetting])⟩
    have hcard := h.counted.card_leave (k := k) (by simp [hk, Pc.Counted])
    simp only
    omega
  | @countDown k r hk _ =>
    obtain ⟨hcounted, hsetting, hresetting, -⟩ := countedDown_spec (τ := τ) r
    refine ⟨?_, h.counted.leave hcounted, h.setting.keep ?_, h.resetting.keep ?_⟩
    · have hcard := h.counted.card_leave (k := k) (by simp [hk, Pc.Counted])
      simp only
      omega
    · exact iff_of_false hsetting (by simp [hk, Pc.Setting])
    · exact iff_of_false hresetting (by simp [hk, Pc.Resetting])
  | @set k r hk =>
    obtain ⟨hcounted, hsetting, hresetting, -⟩ := countedDown_spec (τ := τ) r
    refine ⟨hsize, h.counted.keep ?_, h.setting.leave hsetting, h.resetting.keep ?_⟩
    · exact iff_of_false hcounted (by simp [hk, Pc.Counted])
    · exact iff_of_false hresetting (by simp [hk, Pc.Resetting])
  | destroy | exit | again => exact ⟨hsize, h.counted, h.setting, h.resetting⟩

/-- The history agrees with the control points in every reachable state. -/
lemma counts_of_reachable (h : (machine τ).Reachable s) : Counts s := by
  refine h.invariant ?_ ?_
  · exact ⟨rfl, Roster.init id, Roster.init id, Roster.init id⟩
  · intro s a t _ hs hstep
    exact hs.transition (step_transition hstep)

/-- A move of `k` that does not begin a `start`. -/
lemma Calls.goto (h : Calls s) (hp : p.inStart = true → (s.pc k).inStart = true) (hidle : p ≠ .idle)
    (hreturned : ∀ j, s.pc k = .starting j → (s.pc j).inStart = false) : Calls (s.goto k p) := by
  constructor
  · intro j hj
    have hj' : (s.pc j).inStart = true := by
      rcases eq_or_ne j k with rfl | hjk
      · exact hp (by simpa using hj)
      · simpa [hjk] using hj
    refine (h.called j hj').imp id ?_
    rintro ⟨q, hq⟩
    have hqk : q ≠ k := by
      rintro rfl
      simp [hreturned j hq] at hj'
    exact ⟨q, by simpa [hqk] using hq⟩
  · intro j hj
    rcases eq_or_ne j k with rfl | hjk
    · simpa using hidle
    · simpa [hjk] using h.started j hj
  · intro hd j hj
    rcases eq_or_ne j k with rfl | hjk
    · have hnot := h.destroyed hd j hj
      by_contra hin
      simp [hp (by simpa using hin)] at hnot
    · simpa [hjk] using h.destroyed hd j hj

/-- Every transition keeps the calls in order. -/
lemma Calls.transition (h : Calls s) (ht : Transition s a t) : Calls t := by
  cases ht with
  | quiet hq hreturned =>
    obtain ⟨-, -, -, hin, hidle⟩ := hq.spec
    exact h.goto hin hidle hreturned
  | @userStart k hk hd =>
    constructor
    · intro j hj
      rcases eq_or_ne j k with rfl | hjk
      · exact Or.inl (Finset.mem_insert_self _ _)
      · refine (h.called j (by simpa [hjk] using hj)).imp Finset.mem_insert_of_mem ?_
        rintro ⟨q, hq⟩
        have hqk : q ≠ k := by
          rintro rfl
          simp [hk] at hq
        exact ⟨q, by simpa [hqk] using hq⟩
    · intro j hj
      rcases eq_or_ne j k with rfl | hjk
      · simp
      · simpa [hjk] using h.started j (Finset.mem_of_mem_insert_of_ne hj hjk)
    · exact fun hcalled => (hcalled hd).elim
  | @taskStart k p hk hp =>
    have hpk : p ≠ k := by
      rintro rfl
      simp [hk] at hp
    constructor
    · intro j hj
      rcases eq_or_ne j k with rfl | hjk
      · exact Or.inr ⟨p, by simp⟩
      · have hjp : j ≠ p := by
          rintro rfl
          simp [Pc.inStart] at hj
        refine (h.called j (by simpa [hjk, hjp] using hj)).imp id ?_
        rintro ⟨q, hq⟩
        have hqk : q ≠ k := by
          rintro rfl
          simp [hk] at hq
        have hqp : q ≠ p := by
          rintro rfl
          simp [hp] at hq
        exact ⟨q, by simpa [hqk, hqp] using hq⟩
    · intro j hj
      rcases eq_or_ne j p with rfl | hjp
      · simp
      · rcases eq_or_ne j k with rfl | hjk
        · simp [hjp]
        · simpa [hjp, hjk] using h.started j hj
    · intro hd j hj
      -- `k` has not been started before
      have hjk : j ≠ k := by
        rintro rfl
        exact h.started j hj hk
      rcases eq_or_ne j p with rfl | hjp
      · simp [Pc.inStart]
      · simpa [hjp, hjk] using h.destroyed hd j hj
  | @reset k hk =>
    exact { h.goto (k := k) (p := .increment) (by simp [hk, Pc.inStart]) nofun (by simp [hk]) with }
  | @increment k hk =>
    exact { h.goto (k := k) (p := .resume) (by simp [hk, Pc.inStart]) nofun (by simp [hk]) with }
  | @last k r hk _ =>
    exact { h.goto (k := k) (p := .setEvent r) (by simp [hk, Pc.inStart]) nofun (by simp [hk]) with
      }
  | @countDown k r hk _ | @set k r hk =>
    obtain ⟨-, -, -, hin, hidle⟩ := countedDown_spec (τ := τ) r
    exact { h.goto (k := k) (by simp [hin]) hidle (by simp [hk]) with }
  | destroy husers => exact ⟨h.called, h.started, fun _ => husers⟩
  | exit hd _ | again hd => exact ⟨h.called, h.started, fun _ => h.destroyed (by simp [hd])⟩

/-- The calls are in order in every reachable state. -/
lemma calls_of_reachable (h : (machine τ).Reachable s) : Calls s := by
  refine h.invariant ?_ ?_
  · exact ⟨nofun, nofun, fun hd => (hd rfl).elim⟩
  · intro s a t _ hs hstep
    exact hs.transition (step_transition hstep)

end Libcoro.TaskGroup
