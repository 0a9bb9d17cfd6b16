import Mathlib

/-!
# Agents at certain control points

A counter of a concurrent object often stands for a set of agents: those whose control point has
some property.  `Roster P A pc` says that `A` is this set.  The lemmas say how the set and its
size change when one agent moves.
-/

namespace Foundations

open Function

variable {τ ρ : Type*}

/-- `A` is the set of the agents whose control point satisfies `P`. -/
def Roster (P : ρ → Prop) (A : Finset τ) (pc : τ → ρ) : Prop :=
  ∀ k, k ∈ A ↔ P (pc k)

namespace Roster

variable {P : ρ → Prop} {A : Finset τ} {pc : τ → ρ} {k : τ} {p : ρ}

/-- If no control point satisfies `P`, the set is empty. -/
lemma eq_empty (h : Roster P A pc) (hnone : ∀ k, ¬ P (pc k)) : A = ∅ := by
  refine Finset.eq_empty_of_forall_notMem fun k hk => ?_
  exact hnone k ((h k).mp hk)

/-- At the beginning all agents are at one control point, which does not satisfy `P`. -/
lemma init (hp : ¬ P p) : Roster P (∅ : Finset τ) fun _ => p := by
  intro k
  simp [hp]

variable [DecidableEq τ]

/-- A move that neither enters nor leaves. -/
lemma keep (h : Roster P A pc) (hp : P p ↔ P (pc k)) : Roster P A (update pc k p) := by
  intro j
  rcases eq_or_ne j k with rfl | hj
  · simp [h j, hp]
  · simp [h j, hj]

/-- An agent enters. -/
lemma enter (h : Roster P A pc) (hp : P p) : Roster P (insert k A) (update pc k p) := by
  intro j
  rcases eq_or_ne j k with rfl | hj
  · simp [hp]
  · simp [h j, hj]

/-- An agent leaves. -/
lemma leave (h : Roster P A pc) (hp : ¬ P p) :
    Roster P (A.erase k) (update pc k p) := by
  intro j
  rcases eq_or_ne j k with rfl | hj
  · simp [hp]
  · simp [h j, hj]

/-- Whoever was outside adds one to the size. -/
lemma card_enter (h : Roster P A pc) (hk : ¬ P (pc k)) : (insert k A).card = A.card + 1 :=
  Finset.card_insert_of_notMem fun hmem => hk ((h k).mp hmem)

/-- Whoever was inside takes one from the size. -/
lemma card_leave (h : Roster P A pc) (hk : P (pc k)) : (A.erase k).card + 1 = A.card :=
  Finset.card_erase_add_one ((h k).mpr hk)

end Roster

end Foundations
