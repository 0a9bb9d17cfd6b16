import Mathlib

/-!
# Custody of resources

Objects with destructors keep resources in slots: a resource is obtained into a slot, handed from
one slot to another, and released from the slot that holds it.  `Custody holds obtained released`
says that the books are in order: `holds s` is the resource in the slot `s`, no resource lies in
two slots, and what was obtained and not released is what the slots hold.

A resource may be obtained again after it was released, so that the books are lists and "exactly
once" is a statement about counts.  At the end, when every slot is empty, the two lists agree
(`Custody.settled`).
-/

namespace Foundations

open Function

variable {σ ρ : Type*} [DecidableEq ρ]

/-- Every resource lies in at most one slot, and it lies in one exactly if it was obtained once
more than it was released. -/
structure Custody (holds : σ → Option ρ) (obtained released : List ρ) : Prop where
  unique : ∀ s t r, holds s = some r → holds t = some r → s = t
  held : ∀ s r, holds s = some r → obtained.count r = released.count r + 1
  free : ∀ r, (∀ s, holds s ≠ some r) → obtained.count r = released.count r

namespace Custody

variable {holds : σ → Option ρ} {obtained released : List ρ} {s t : σ} {r : ρ}

/-- Nothing has been obtained yet. -/
lemma start : Custody (fun _ : σ => (none : Option ρ)) [] [] :=
  ⟨by simp, by simp, by simp⟩

/-- At every time a resource has been released as often as it was obtained, or once less. -/
lemma count_le (h : Custody holds obtained released) (r : ρ) :
    released.count r ≤ obtained.count r ∧ obtained.count r ≤ released.count r + 1 := by
  by_cases hr : ∃ s, holds s = some r
  · obtain ⟨s, hs⟩ := hr
    have := h.held s r hs
    omega
  · have := h.free r (not_exists.mp hr)
    omega

/-- Only what was obtained is ever released. -/
lemma mem_obtained (h : Custody holds obtained released) (hr : r ∈ released) : r ∈ obtained := by
  have hpos := List.count_pos_iff.mpr hr
  have hle := (h.count_le r).1
  exact List.count_pos_iff.mp (by omega)

/-- Once all slots are empty, everything obtained has been released, each time once. -/
lemma settled (h : Custody holds obtained released) (hempty : ∀ s, holds s = none) :
    obtained.Perm released := by
  rw [List.perm_iff_count]
  intro r
  refine h.free r fun s => ?_
  simp [hempty s]

variable [DecidableEq σ]

/-- A resource that lies nowhere is obtained into an empty slot. -/
lemma obtain_into (h : Custody holds obtained released) (hr : ∀ t, holds t ≠ some r)
    (hs : holds s = none) :
    Custody (update holds s (some r)) (r :: obtained) released := by
  have hcases : ∀ t q, update holds s (some r) t = some q ↔
      (t = s ∧ q = r) ∨ holds t = some q := by
    intro t q
    by_cases hts : t = s
    · subst hts
      simp [hs, eq_comm]
    · simp [hts]
  refine ⟨fun t u q ht hu => ?_, fun t q ht => ?_, fun q hq => ?_⟩
  · rcases (hcases t q).mp ht with ⟨rfl, rfl⟩ | ht
    · rcases (hcases u q).mp hu with ⟨rfl, -⟩ | hu
      · rfl
      · exact (hr u hu).elim
    · rcases (hcases u q).mp hu with ⟨-, hqr⟩ | hu
      · exact (hr t (hqr ▸ ht)).elim
      · exact h.unique t u q ht hu
  · rcases (hcases t q).mp ht with ⟨-, rfl⟩ | ht
    · rw [List.count_cons_self, h.free q hr]
    · have hne : r ≠ q := fun hrq => hr t (hrq ▸ ht)
      rw [List.count_cons_of_ne hne, h.held t q ht]
  · have hne : r ≠ q := fun hrq => hq s (by simp [hrq])
    rw [List.count_cons_of_ne hne]
    exact h.free q fun t ht => hq t ((hcases t q).mpr (Or.inr ht))

/-- What a slot holds is released, and the slot is empty afterwards. -/
lemma release (h : Custody holds obtained released) (hs : holds s = some r) :
    Custody (update holds s none) obtained (r :: released) := by
  have hcases : ∀ t q, update holds s none t = some q ↔ t ≠ s ∧ holds t = some q := by
    intro t q
    by_cases hts : t = s
    · subst hts
      simp
    · simp [hts]
  have hother : ∀ t q, t ≠ s → holds t = some q → r ≠ q := by
    rintro t q hts ht rfl
    exact hts (h.unique t s r ht hs)
  refine ⟨fun t u q ht hu => ?_, fun t q ht => ?_, fun q hq => ?_⟩
  · exact h.unique t u q ((hcases t q).mp ht).2 ((hcases u q).mp hu).2
  · obtain ⟨hts, ht⟩ := (hcases t q).mp ht
    rw [List.count_cons_of_ne (hother t q hts ht), h.held t q ht]
  · by_cases hrq : r = q
    · subst hrq
      rw [List.count_cons_self, h.held s r hs]
    · rw [List.count_cons_of_ne hrq]
      refine h.free q fun t ht => ?_
      have hts : t ≠ s := by
        rintro rfl
        exact hrq (Option.some.inj (hs.symm.trans ht))
      exact hq t ((hcases t q).mpr ⟨hts, ht⟩)

/-- What the slot `s` holds, if anything, is handed to the empty slot `t`. -/
lemma pass (h : Custody holds obtained released) (hst : s ≠ t) (ht : holds t = none) :
    Custody (update (update holds t (holds s)) s none) obtained released := by
  have hcases : ∀ u q, update (update holds t (holds s)) s none u = some q ↔
      (u = t ∧ holds s = some q) ∨ (u ≠ s ∧ holds u = some q) := by
    intro u q
    by_cases hus : u = s
    · subst hus
      simp [hst]
    · by_cases hut : u = t
      · subst hut
        simp [hus, ht]
      · simp [hus, hut]
  refine ⟨fun u w q hu hw => ?_, fun u q hu => ?_, fun q hq => ?_⟩
  · rcases (hcases u q).mp hu with ⟨hut, hu⟩ | ⟨hus, hu⟩
    · rcases (hcases w q).mp hw with ⟨hwt, -⟩ | ⟨hws, hw⟩
      · exact hut.trans hwt.symm
      · exact (hws (h.unique w s q hw hu)).elim
    · rcases (hcases w q).mp hw with ⟨-, hw⟩ | ⟨-, hw⟩
      · exact (hus (h.unique u s q hu hw)).elim
      · exact h.unique u w q hu hw
  · rcases (hcases u q).mp hu with ⟨-, hu⟩ | ⟨-, hu⟩
    · exact h.held s q hu
    · exact h.held u q hu
  · refine h.free q fun u hu => ?_
    by_cases hus : u = s
    · subst hus
      exact hq t ((hcases t q).mpr (Or.inl ⟨rfl, hu⟩))
    · exact hq u ((hcases u q).mpr (Or.inr ⟨hus, hu⟩))

end Custody

end Foundations
