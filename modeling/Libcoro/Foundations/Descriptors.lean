import Libcoro.Foundations.Custody

/-!
# File descriptors

The descriptor table of a process, as far as the objects that own descriptors can see it: which
numbers are open, which of them the objects have obtained, and which they have closed.  The kernel
may hand out any number that is not open, also one that was closed before.

An object keeps descriptors in slots, where `-1` stands for none.  `OwnedBy d others slot` says that
the objects own their descriptors: every slot is empty or the only slot with an open descriptor that
does not belong to `others`, and every open descriptor is one of `others` or lies in a slot.
-/

namespace Foundations

open Function

/-- The open descriptors, and as history those that objects have obtained and closed, the latest
first. -/
structure Descriptors where
  isOpen : ℤ → Bool
  obtained : List ℤ
  closed : List ℤ

/-- The descriptor in a slot. -/
def heldFd (fd : ℤ) : Option ℤ :=
  if fd = -1 then none else some fd

@[simp] lemma heldFd_neg_one : heldFd (-1) = none := rfl

lemma heldFd_of_ne {fd : ℤ} (h : fd ≠ -1) : heldFd fd = some fd :=
  if_neg h

lemma heldFd_eq_some {fd f : ℤ} : heldFd fd = some f ↔ fd = f ∧ f ≠ -1 := by
  unfold heldFd
  split_ifs with h
  · subst h
    simp only [false_iff, not_and, not_not]
    exact fun hf => hf.symm
  · simp only [Option.some.injEq, iff_self_and]
    rintro rfl
    exact h

lemma heldFd_eq_none {fd : ℤ} : heldFd fd = none ↔ fd = -1 := by
  unfold heldFd
  split_ifs with h <;> simp [h]

namespace Descriptors

/-- The descriptors `others` are open, and none of them belongs to the objects. -/
def start (others : List ℕ) : Descriptors where
  isOpen fd := decide (fd ∈ others.map (Nat.cast : ℕ → ℤ))
  obtained := []
  closed := []

/-- The kernel can hand out `fd`. -/
def Fresh (d : Descriptors) (fd : ℤ) : Prop :=
  0 ≤ fd ∧ d.isOpen fd = false

instance (d : Descriptors) (fd : ℤ) : Decidable (d.Fresh fd) :=
  inferInstanceAs (Decidable (_ ∧ _))

/-- The kernel hands out `fd`. -/
def provide (d : Descriptors) (fd : ℤ) : Descriptors :=
  { d with isOpen := update d.isOpen fd true, obtained := fd :: d.obtained }

/-- `::close(fd)`. -/
def close (d : Descriptors) (fd : ℤ) : Descriptors :=
  { d with isOpen := update d.isOpen fd false, closed := fd :: d.closed }

/-- `::close` of a slot, which is not called if the slot is empty. -/
def closeSlot (d : Descriptors) (fd : ℤ) : Descriptors :=
  if fd ≠ -1 then d.close fd else d

/-- `::dup(fd)`, answered with `fresh` if `fd` is open. -/
def dup (d : Descriptors) (fd fresh : ℤ) : Option (ℤ × Descriptors) :=
  if d.isOpen fd then
    if d.Fresh fresh then some (fresh, d.provide fresh) else none
  else some (-1, d)

/-- The objects with the given slots own their descriptors, and `others` belong to somebody else. -/
structure OwnedBy {σ : Type*} (d : Descriptors) (others : List ℕ) (slot : σ → ℤ) : Prop where
  custody : Custody (heldFd ∘ slot) d.obtained d.closed
  isOpen_iff : ∀ fd, d.isOpen fd = true ↔
    fd ∈ others.map (Nat.cast : ℕ → ℤ) ∨ ∃ s, heldFd (slot s) = some fd
  obtained_new : ∀ fd ∈ d.obtained, fd ∉ others.map (Nat.cast : ℕ → ℤ)

namespace OwnedBy

variable {σ : Type*} {d d' : Descriptors} {others : List ℕ} {slot : σ → ℤ} {s t : σ}
  {fd fresh : ℤ}

/-- At the beginning all slots are empty. -/
lemma start (hslot : ∀ s, slot s = -1) : OwnedBy (Descriptors.start others) others slot := by
  have hnone : heldFd ∘ slot = fun _ => none := by
    funext s
    simp [hslot s]
  refine ⟨hnone ▸ Custody.start, fun fd => ?_, by simp [Descriptors.start]⟩
  simp [Descriptors.start, hslot]

/-- A held descriptor was obtained. -/
lemma mem_obtained (h : OwnedBy d others slot) (hs : heldFd (slot s) = some fd) :
    fd ∈ d.obtained := by
  have hcount := h.custody.held s fd hs
  exact List.count_pos_iff.mp (by omega)

/-- No slot holds a fresh descriptor. -/
lemma fresh_not_held (h : OwnedBy d others slot) (hf : d.Fresh fd) (t : σ) :
    heldFd (slot t) ≠ some fd := by
  intro ht
  have hopen := (h.isOpen_iff fd).mpr (Or.inr ⟨t, ht⟩)
  rw [hf.2] at hopen
  cases hopen

/-- A fresh descriptor does not belong to anybody. -/
lemma fresh_not_other (h : OwnedBy d others slot) (hf : d.Fresh fd) :
    fd ∉ others.map (Nat.cast : ℕ → ℤ) := by
  intro hmem
  have hopen := (h.isOpen_iff fd).mpr (Or.inl hmem)
  rw [hf.2] at hopen
  cases hopen

/-- The descriptors of others are never closed. -/
lemma other_not_closed (h : OwnedBy d others slot) {n : ℕ} (hn : n ∈ others) :
    (n : ℤ) ∉ d.closed := fun hclosed =>
  h.obtained_new n (h.custody.mem_obtained hclosed) (List.mem_map.mpr ⟨n, hn, rfl⟩)

/-- What is in a slot is open. -/
lemma isOpen_slot (h : OwnedBy d others slot) (hs : slot s ≠ -1) : d.isOpen (slot s) = true :=
  (h.isOpen_iff _).mpr (Or.inr ⟨s, heldFd_of_ne hs⟩)

/-- What is in a slot is in no other one. -/
lemma slot_unique (h : OwnedBy d others slot) (hs : slot s ≠ -1) (hst : slot s = slot t) :
    s = t := by
  refine h.custody.unique s t _ (heldFd_of_ne hs) ?_
  rw [Function.comp_apply, ← hst, heldFd_of_ne hs]

/-- Once all slots are empty, every descriptor was closed as often as it was obtained. -/
lemma settled (h : OwnedBy d others slot) (hempty : ∀ s, slot s = -1) :
    d.obtained.Perm d.closed := by
  refine h.custody.settled fun s => ?_
  rw [Function.comp_apply, hempty s, heldFd_neg_one]

variable [DecidableEq σ]

lemma heldFd_comp_update (slot : σ → ℤ) (s : σ) (fd : ℤ) :
    heldFd ∘ update slot s fd = update (heldFd ∘ slot) s (heldFd fd) :=
  Function.comp_update heldFd slot s fd

/-- The kernel hands out a descriptor that is put into an empty slot. -/
lemma provide (h : OwnedBy d others slot) (hf : d.Fresh fd) (hs : slot s = -1) :
    OwnedBy (d.provide fd) others (update slot s fd) := by
  have hne : fd ≠ -1 := by
    have := hf.1
    omega
  refine ⟨?_, fun f => ?_, fun f hmem => ?_⟩
  · rw [heldFd_comp_update, heldFd_of_ne hne]
    exact h.custody.obtain_into (h.fresh_not_held hf) (heldFd_eq_none.mpr hs)
  · have hheld : (∃ t, heldFd (update slot s fd t) = some f) ↔
        f = fd ∨ ∃ t, heldFd (slot t) = some f := by
      constructor
      · rintro ⟨t, ht⟩
        by_cases hts : t = s
        · subst hts
          rw [update_self, heldFd_of_ne hne] at ht
          exact Or.inl (Option.some.inj ht).symm
        · rw [update_of_ne hts] at ht
          exact Or.inr ⟨t, ht⟩
      · rintro (rfl | ⟨t, ht⟩)
        · exact ⟨s, by rw [update_self, heldFd_of_ne hne]⟩
        · refine ⟨t, ?_⟩
          rw [update_of_ne (by rintro rfl; simp [hs] at ht)]
          exact ht
    rw [hheld, or_left_comm, ← h.isOpen_iff]
    by_cases hfd : f = fd
    · subst hfd
      simp [Descriptors.provide]
    · simp [Descriptors.provide, hfd]
  · rcases List.mem_cons.mp hmem with rfl | hmem
    · exact h.fresh_not_other hf
    · exact h.obtained_new f hmem

/-- The descriptor in a slot, if there is one, is closed. -/
lemma closeSlot (h : OwnedBy d others slot) (s : σ) :
    OwnedBy (d.closeSlot (slot s)) others (update slot s (-1)) := by
  unfold Descriptors.closeSlot
  split_ifs with hne
  · have hs : heldFd (slot s) = some (slot s) := heldFd_of_ne hne
    refine ⟨?_, fun f => ?_, h.obtained_new⟩
    · rw [heldFd_comp_update]
      exact h.custody.release hs
    · by_cases hf : f = slot s
      · subst hf
        refine iff_of_false (by simp [Descriptors.close]) ?_
        rintro (hmem | ⟨t, ht⟩)
        · exact h.obtained_new _ (h.mem_obtained hs) hmem
        · by_cases hts : t = s
          · subst hts
            simp at ht
          · rw [update_of_ne hts] at ht
            exact hts (h.custody.unique t s _ ht hs)
      · have hopen : (d.close (slot s)).isOpen f = d.isOpen f := by
          simp [Descriptors.close, hf]
        rw [hopen, h.isOpen_iff]
        refine or_congr_right (exists_congr fun t => ?_)
        by_cases hts : t = s
        · subst hts
          simp [heldFd_eq_some, Ne.symm hf]
        · rw [update_of_ne hts]
  · rw [not_not] at hne
    rw [← hne, update_eq_self]
    exact h

/-- A descriptor in a slot, or nothing, is duplicated into an empty slot. -/
lemma dup (h : OwnedBy d others slot) (hs : slot s = -1)
    (hdup : d.dup (slot t) fresh = some (fd, d')) :
    OwnedBy d' others (update slot s fd) := by
  unfold Descriptors.dup at hdup
  split_ifs at hdup with hopen hf
  · obtain ⟨rfl, rfl⟩ := Prod.mk.inj (Option.some.inj hdup)
    exact h.provide hf hs
  · obtain ⟨rfl, rfl⟩ := Prod.mk.inj (Option.some.inj hdup)
    rw [← hs, update_eq_self]
    exact h

/-- The descriptor in the slot `s`, if there is one, is handed to the empty slot `t`. -/
lemma pass (h : OwnedBy d others slot) (hst : s ≠ t) (ht : slot t = -1) :
    OwnedBy d others (update (update slot t (slot s)) s (-1)) := by
  refine ⟨?_, fun f => ?_, h.obtained_new⟩
  · rw [heldFd_comp_update, heldFd_comp_update]
    exact h.custody.pass hst (heldFd_eq_none.mpr ht)
  · rw [h.isOpen_iff]
    refine or_congr_right ⟨?_, ?_⟩
    · rintro ⟨u, hu⟩
      by_cases hus : u = s
      · subst hus
        exact ⟨t, by rwa [update_of_ne hst.symm, update_self]⟩
      · have hut : u ≠ t := by
          rintro rfl
          simp [ht] at hu
        exact ⟨u, by rwa [update_of_ne hus, update_of_ne hut]⟩
    · rintro ⟨u, hu⟩
      by_cases hus : u = s
      · subst hus
        simp at hu
      · rw [update_of_ne hus] at hu
        by_cases hut : u = t
        · subst hut
          rw [update_self] at hu
          exact ⟨s, hu⟩
        · rw [update_of_ne hut] at hu
          exact ⟨u, hu⟩

end OwnedBy

end Descriptors

end Foundations
