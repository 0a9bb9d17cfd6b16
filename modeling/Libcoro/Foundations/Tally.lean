import Mathlib

/-!
# Tallies

A shared counter that many parties increment and decrement is understood by what each of them
has in it.  `Tally f n` says that the counter stands at `n` while the party `k` has `f k` units in
it; `credit` and `debit` give or take one unit of every party on a list.  The counter is zero
exactly if nobody has a unit in it.

`Books` is the usual reason for a tally: what a party has in the counter can be read off its
control point, except for one more unit while it is spawned and has not finished.
-/

namespace Foundations

open Function

variable {κ : Type*}

/-- The counter `n` is the sum of the units `f` of finitely many parties. -/
def Tally (f : κ → ℕ) (n : ℕ) : Prop :=
  ∃ F : Finset κ, (∀ k, k ∉ F → f k = 0) ∧ ∑ k ∈ F, f k = n

/-- One more unit for every party on the list. -/
def credit [DecidableEq κ] (ks : List κ) (f : κ → ℕ) : κ → ℕ :=
  fun k => if k ∈ ks then f k + 1 else f k

/-- One unit less for every party on the list. -/
def debit [DecidableEq κ] (ks : List κ) (f : κ → ℕ) : κ → ℕ :=
  fun k => if k ∈ ks then f k - 1 else f k

section Units

variable [DecidableEq κ] {f u u' : κ → ℕ} {ks : List κ}

/-- If everybody on the list is due one unit more, the credit gives everybody what is due. -/
lemma credit_eq (h : ∀ k, f k = u k) (hks : ∀ k ∈ ks, u' k = u k + 1)
    (hother : ∀ k, k ∉ ks → u' k = u k) (k : κ) : credit ks f k = u' k := by
  unfold credit
  split_ifs with hk
  · rw [h, hks k hk]
  · rw [h, hother k hk]

/-- If everybody on the list is due one unit less, the debit leaves everybody what is due. -/
lemma debit_eq (h : ∀ k, f k = u k) (hks : ∀ k ∈ ks, u k = u' k + 1)
    (hother : ∀ k, k ∉ ks → u' k = u k) (k : κ) : debit ks f k = u' k := by
  unfold debit
  split_ifs with hk
  · rw [h, hks k hk, Nat.add_sub_cancel]
  · rw [h, hother k hk]

/-- To move the parties on a list of one is to move one party. -/
lemma ite_mem_singleton {γ : Type*} (pc : κ → γ) (k : κ) (c : γ) :
    (fun j => if j ∈ [k] then c else pc j) = update pc k c := by
  funext j
  by_cases hj : j = k
  · simp [hj]
  · simp [hj]

end Units

namespace Tally

variable {f g : κ → ℕ} {n m : ℕ}

/-- Nobody has a unit in the counter. -/
lemma zero : Tally (fun _ : κ => 0) 0 :=
  ⟨∅, by simp, by simp⟩

/-- A counter at zero holds no unit of anybody. -/
lemma eq_zero (h : Tally f 0) (k : κ) : f k = 0 := by
  obtain ⟨F, hF, hsum⟩ := h
  by_cases hk : k ∈ F
  · exact (Finset.sum_eq_zero_iff.mp hsum) k hk
  · exact hF k hk

/-- A counter that holds a unit of somebody is not at zero. -/
lemma pos (h : Tally f n) {k : κ} (hk : 0 < f k) : 0 < n := by
  by_contra hzero
  rw [Nat.eq_zero_of_not_pos hzero] at h
  have := h.eq_zero k
  omega

/-- A counter without units stands at zero. -/
lemma of_eq_zero (h : Tally f n) (hf : ∀ k, f k = 0) : n = 0 := by
  obtain ⟨F, -, rfl⟩ := h
  exact Finset.sum_eq_zero fun k _ => hf k

variable [DecidableEq κ]

/-- Two counters over the same parties add up. -/
lemma add (hf : Tally f n) (hg : Tally g m) : Tally (fun k => f k + g k) (n + m) := by
  obtain ⟨F, hF, rfl⟩ := hf
  obtain ⟨G, hG, rfl⟩ := hg
  refine ⟨F ∪ G, fun k hk => ?_, ?_⟩
  · rw [Finset.mem_union, not_or] at hk
    simp [hF k hk.1, hG k hk.2]
  · have hFG : ∑ k ∈ F ∪ G, f k = ∑ k ∈ F, f k :=
      (Finset.sum_subset Finset.subset_union_left fun k _ hk => hF k hk).symm
    have hGF : ∑ k ∈ F ∪ G, g k = ∑ k ∈ G, g k :=
      (Finset.sum_subset Finset.subset_union_right fun k _ hk => hG k hk).symm
    rw [Finset.sum_add_distrib, hFG, hGF]

/-- A part of the units can be taken out of a counter. -/
lemma sub (hfg : Tally (fun k => f k + g k) n) (hg : Tally g m) : Tally f (n - m) := by
  obtain ⟨F, hF, rfl⟩ := hfg
  obtain ⟨G, hG, rfl⟩ := hg
  have hzero : ∀ k, k ∉ F → f k = 0 ∧ g k = 0 := fun k hk => by
    have hsum : f k + g k = 0 := hF k hk
    omega
  refine ⟨F, fun k hk => (hzero k hk).1, ?_⟩
  have hsum : ∑ k ∈ F, g k = ∑ k ∈ G, g k := by
    have hF' : ∑ k ∈ F ∪ G, g k = ∑ k ∈ F, g k :=
      (Finset.sum_subset Finset.subset_union_left fun k _ hk => (hzero k hk).2).symm
    have hG' : ∑ k ∈ F ∪ G, g k = ∑ k ∈ G, g k :=
      (Finset.sum_subset Finset.subset_union_right fun k _ hk => hG k hk).symm
    rw [← hF', hG']
  rw [Finset.sum_add_distrib, hsum, Nat.add_sub_cancel]

/-- One unit for each party on a list without repetitions. -/
lemma indicator {ks : List κ} (hks : ks.Nodup) :
    Tally (fun k => if k ∈ ks then 1 else 0) ks.length := by
  refine ⟨ks.toFinset, fun k hk => ?_, ?_⟩
  · simpa using hk
  · rw [← List.toFinset_card_of_nodup hks, Finset.card_eq_sum_ones]
    refine Finset.sum_congr rfl fun k hk => ?_
    simpa using hk

/-- The counter is incremented once for every party on the list. -/
lemma credit (h : Tally f n) {ks : List κ} (hks : ks.Nodup) :
    Tally (Foundations.credit ks f) (n + ks.length) := by
  have heq : Foundations.credit ks f = fun k => f k + if k ∈ ks then 1 else 0 := by
    funext k
    unfold Foundations.credit
    split_ifs <;> rfl
  rw [heq]
  exact h.add (indicator hks)

/-- The counter is decremented once for every party on the list, each of which has a unit. -/
lemma debit (h : Tally f n) {ks : List κ} (hks : ks.Nodup) (hpos : ∀ k ∈ ks, 0 < f k) :
    Tally (Foundations.debit ks f) (n - ks.length) := by
  have heq : f = fun k => Foundations.debit ks f k + if k ∈ ks then 1 else 0 := by
    funext k
    unfold Foundations.debit
    split_ifs with hk
    · have := hpos k hk
      omega
    · rfl
  rw [heq] at h
  exact h.sub (indicator hks)

end Tally

/-- The books of a counter whose parties go from one control point to the next.  A party has the
units of its control point in the counter, and one more from being spawned until it has finished.
Nobody is spawned at `idle`, and nobody finishes before a control point with `Begun`. -/
structure Books {γ : Type*} (units : γ → ℕ) (idle : γ) (Begun : γ → Prop) (pc : κ → γ)
    (spawned finished : κ → Bool) (f : κ → ℕ) (n : ℕ) : Prop where
  tally : Tally f n
  units_eq : ∀ k, f k = units (pc k) + if spawned k && !finished k then 1 else 0
  unspawned : ∀ k, pc k = idle → spawned k = false
  begun : ∀ k, finished k = true → Begun (pc k)

namespace Books

variable {γ : Type*} {units : γ → ℕ} {idle : γ} {Begun : γ → Prop} {pc : κ → γ}
  {spawned finished : κ → Bool} {f f' : κ → ℕ} {n n' : ℕ}

/-- While a party has the unit of its control point, the counter is not zero. -/
lemma pos (h : Books units idle Begun pc spawned finished f n) {k : κ} (hk : units (pc k) = 1) :
    0 < n := by
  refine h.tally.pos (k := k) ?_
  rw [h.units_eq k]
  omega

variable [DecidableEq κ] {ks : List κ} {c : γ}

/-- The parties on the list move to `c`, whatever happens to the counter meanwhile. -/
lemma move (h : Books units idle Begun pc spawned finished f n) (hc : c ≠ idle)
    (hbegun : ∀ k ∈ ks, Begun (pc k) → Begun c) (htally : Tally f' n')
    (hunits : ∀ k, f' k = units (if k ∈ ks then c else pc k) +
      if spawned k && !finished k then 1 else 0) :
    Books units idle Begun (fun k => if k ∈ ks then c else pc k) spawned finished f' n' := by
  refine ⟨htally, hunits, fun k hk => ?_, fun k hk => ?_⟩
  · by_cases hmem : k ∈ ks
    · exact (hc (by simpa [hmem] using hk)).elim
    · exact h.unspawned k (by simpa [hmem] using hk)
  · by_cases hmem : k ∈ ks
    · simpa [hmem] using hbegun k hmem (h.begun k hk)
    · simpa [hmem] using h.begun k hk

/-- The parties on the list move to a control point with as many units. -/
lemma moveAll (h : Books units idle Begun pc spawned finished f n) (hc : c ≠ idle)
    (hbegun : ∀ k ∈ ks, Begun (pc k) → Begun c) (hunits : ∀ k ∈ ks, units (pc k) = units c) :
    Books units idle Begun (fun k => if k ∈ ks then c else pc k) spawned finished f n := by
  refine h.move hc hbegun h.tally fun k => ?_
  by_cases hmem : k ∈ ks
  · rw [if_pos hmem, h.units_eq k, hunits k hmem]
  · rw [if_neg hmem, h.units_eq k]

/-- The counter is incremented for the parties on the list, which move to a control point with
one unit more. -/
lemma creditAll (h : Books units idle Begun pc spawned finished f n) (hks : ks.Nodup)
    (hc : c ≠ idle) (hbegun : ∀ k ∈ ks, Begun (pc k) → Begun c)
    (hunits : ∀ k ∈ ks, units c = units (pc k) + 1) :
    Books units idle Begun (fun k => if k ∈ ks then c else pc k) spawned finished (credit ks f)
      (n + ks.length) := by
  refine h.move hc hbegun (h.tally.credit hks)
    (credit_eq h.units_eq (fun k hk => ?_) fun k hk => ?_)
  · rw [if_pos hk, hunits k hk]
    omega
  · rw [if_neg hk]

/-- The counter is decremented for the parties on the list, which move to a control point with
one unit less. -/
lemma debitAll (h : Books units idle Begun pc spawned finished f n) (hks : ks.Nodup)
    (hc : c ≠ idle) (hbegun : ∀ k ∈ ks, Begun (pc k) → Begun c)
    (hunits : ∀ k ∈ ks, units (pc k) = units c + 1) :
    Books units idle Begun (fun k => if k ∈ ks then c else pc k) spawned finished (debit ks f)
      (n - ks.length) := by
  have hpos : ∀ k ∈ ks, 0 < f k := by
    intro k hk
    have := h.units_eq k
    have := hunits k hk
    omega
  refine h.move hc hbegun (h.tally.debit hks hpos)
    (debit_eq h.units_eq (fun k hk => ?_) fun k hk => ?_)
  · rw [if_pos hk, hunits k hk]
    omega
  · rw [if_neg hk]

/-- A party is spawned: it leaves `idle` without a unit at its control point and is counted. -/
lemma spawn (h : Books units idle Begun pc spawned finished f n) {k : κ} (hk : pc k = idle)
    (hidle : ¬ Begun idle) (hc : c ≠ idle) (hunits : units c = units idle) :
    Books units idle Begun (update pc k c) (update spawned k true) finished
      (credit [k] f) (n + 1) := by
  have hspawned := h.unspawned k hk
  have hfinished : finished k = false := by
    by_contra hf
    exact hidle (hk ▸ h.begun k (by simpa using hf))
  refine ⟨h.tally.credit (List.nodup_singleton k),
    credit_eq h.units_eq (fun j hj => ?_) (fun j hj => ?_), fun j hj => ?_, fun j hj => ?_⟩
  · obtain rfl := List.mem_singleton.mp hj
    simp [hk, hspawned, hfinished, hunits]
  · have hjk : j ≠ k := by simpa using hj
    simp [hjk]
  · by_cases hjk : j = k
    · subst hjk
      exact (hc (by simpa using hj)).elim
    · simpa [hjk] using h.unspawned j (by simpa [hjk] using hj)
  · obtain hjk | rfl := ne_or_eq j k
    · simpa [hjk] using h.begun j hj
    · simp [hfinished] at hj

/-- A spawned party finishes, and is not counted any longer. -/
lemma finish (h : Books units idle Begun pc spawned finished f n) {k : κ}
    (hspawned : spawned k = true) (hfinished : finished k = false) (hbegun : Begun (pc k)) :
    Books units idle Begun pc spawned (update finished k true) (debit [k] f) (n - 1) := by
  have hpos : ∀ j ∈ [k], 0 < f j := by
    intro j hj
    rw [List.mem_singleton.mp hj, h.units_eq k]
    simp [hspawned, hfinished]
  refine ⟨h.tally.debit (List.nodup_singleton k) hpos,
    debit_eq h.units_eq (fun j hj => ?_) (fun j hj => ?_), h.unspawned, fun j hj => ?_⟩
  · obtain rfl := List.mem_singleton.mp hj
    simp [hspawned, hfinished]
  · have hjk : j ≠ k := by simpa using hj
    simp [hjk]
  · obtain hjk | rfl := ne_or_eq j k
    · exact h.begun j (by simpa [hjk] using hj)
    · exact hbegun

end Books

end Foundations
