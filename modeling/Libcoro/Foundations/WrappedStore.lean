import Libcoro.Foundations.RingStore

/-!
# Cyclic stores with counters of bounded width

The counters of a cyclic store are kept in words, so they start again at `0` after `N` steps,
while cells are still found by reducing a counter modulo the number `n` of cells.  Where `n`
does not divide `N`, neighbouring counters stop pointing at neighbouring cells at the point
where the counters start again, and the next store may fall on a cell that is in use.

`cellOf_collides_iff` says when: the store at the counter `f` with `u` live elements meets one
of them exactly if `f < N % n ≤ u`.  As long as no store does, the store behaves like one with
unbounded counters (`HoldsMod.store`, `HoldsMod.drop`).
-/

namespace Foundations

/-- The cell of a counter that is kept modulo `N`. -/
def cellOf (N n : ℕ) [NeZero n] (k : ℕ) : Fin n :=
  slot n (k % N)

section Cells

variable {N n : ℕ} [NeZero n] {b k u : ℕ}

/-- Counters that agree modulo `N` have the same cell. -/
lemma cellOf_mod_add (b k : ℕ) : cellOf N n (b % N + k) = cellOf N n (b + k) := by
  simp only [cellOf, Nat.mod_add_mod]

/-- Two counters have the same cell when their words are congruent modulo `n`. -/
lemma cellOf_eq_iff (i j : ℕ) : cellOf N n i = cellOf N n j ↔ i % N % n = j % N % n := by
  simp only [cellOf, slot, Fin.ofNat, Fin.mk.injEq]

/-- As long as the counters have not started again, a counter meets no live one. -/
lemma cellOf_ne_of_lt (hlt : b + u < N) (hu : u < n) (hk : k < u) :
    cellOf N n (b + u) ≠ cellOf N n (b + k) := by
  intro heq
  have hslot : slot n (b + u) = slot n (b + k) := by
    simpa only [cellOf, Nat.mod_eq_of_lt hlt, Nat.mod_eq_of_lt (show b + k < N by omega)] using heq
  exact hk.ne (slot_add_inj hu (hk.trans hu) hslot).symm

/-- After the counters have started again, the counter `f` meets the live counter `N - d` exactly
when `f + d` is the remainder of `N`. -/
lemma cellOf_eq_sub_iff {f d : ℕ} (hd : d ≤ N) (hpos : 0 < d) (hfd : f + d < n) (hf : f < N) :
    cellOf N n f = cellOf N n (N - d) ↔ N % n = f + d := by
  rw [cellOf_eq_iff, Nat.mod_eq_of_lt hf, Nat.mod_eq_of_lt (show N - d < N by omega)]
  constructor
  · intro hmod
    have hadd : (f + d) % n = (N - d + d) % n := Nat.ModEq.add_right d hmod
    rw [Nat.sub_add_cancel hd, Nat.mod_eq_of_lt hfd] at hadd
    exact hadd.symm
  · intro hrem
    have hadd : f + d ≡ N - d + d [MOD n] := by
      rw [Nat.sub_add_cancel hd, Nat.ModEq, hrem, Nat.mod_eq_of_lt hfd]
    exact Nat.ModEq.add_right_cancel' d hadd

/-- The counter after `u` live ones meets one of them exactly when it is below the remainder of
`N` and the live counters are at least as many as that remainder. -/
theorem cellOf_collides_iff (hn : n ≤ N) (hb : b < N) (hu : u < n) :
    (∃ k, k < u ∧ cellOf N n (b + u) = cellOf N n (b + k)) ↔
      (b + u) % N < N % n ∧ N % n ≤ u := by
  rcases Nat.lt_or_ge (b + u) N with hlt | hge
  · -- neither side holds before the counters start again
    rw [Nat.mod_eq_of_lt hlt]
    constructor
    · rintro ⟨k, hk, heq⟩
      exact absurd heq (cellOf_ne_of_lt hlt hu hk)
    · rintro ⟨hfront, hle⟩
      omega
  · obtain ⟨f, hf⟩ : ∃ f, b + u = N + f := Nat.exists_eq_add_of_le hge
    have hfu : f < u := by omega
    have hword : (b + u) % N = f := by
      rw [hf, Nat.add_mod_left, Nat.mod_eq_of_lt (by omega)]
    have hcell : cellOf N n (b + u) = cellOf N n f := by
      rw [cellOf_eq_iff, hword, Nat.mod_eq_of_lt (show f < N by omega)]
    rw [hword, hcell]
    constructor
    · rintro ⟨k, hk, heq⟩
      rcases Nat.lt_or_ge (b + k) N with hold | hnew
      · rw [show b + k = N - (N - (b + k)) by omega,
          cellOf_eq_sub_iff (by omega) (by omega) (by omega) (by omega)] at heq
        omega
      · -- the live counters after the start are below `f`
        rw [cellOf_eq_iff, Nat.mod_eq_of_lt (show f < N by omega),
          Nat.mod_eq_sub_mod hnew, Nat.mod_eq_of_lt (show b + k - N < N by omega),
          Nat.mod_eq_of_lt (show f < n by omega),
          Nat.mod_eq_of_lt (show b + k - N < n by omega)] at heq
        omega
    · rintro ⟨hlt, hle⟩
      refine ⟨u - N % n, by omega, ?_⟩
      rw [show b + (u - N % n) = N - (N % n - f) by omega,
        cellOf_eq_sub_iff (by omega) (by omega) (by omega) (by omega)]
      omega

end Cells

namespace RingStore

variable {N n : ℕ} {α : Type*}

/-- The store with its counters reduced to words. -/
def wrap (N : ℕ) (r : RingStore n α) : RingStore n α where
  elements := r.elements
  front := r.front % N
  back := r.back % N
  used := r.used % N

/-- The next store falls on a live element. -/
def Laps (N : ℕ) (r : RingStore n α) : Prop :=
  r.front < N % n ∧ N % n ≤ r.used

instance (N : ℕ) (r : RingStore n α) : Decidable (r.Laps N) :=
  inferInstanceAs (Decidable (_ ∧ _))

/-- A number of cells that divides `N` never laps. -/
lemma not_laps_of_dvd (hdvd : n ∣ N) (r : RingStore n α) : ¬ r.Laps N := by
  rintro ⟨hfront, _⟩
  rw [Nat.mod_eq_zero_of_dvd hdvd] at hfront
  exact Nat.not_lt_zero _ hfront

variable [NeZero n]

/-- The live cells of a store with counters modulo `N` contain exactly `l`, the oldest element
first. -/
structure HoldsMod (N : ℕ) (r : RingStore n α) (l : List α) : Prop where
  used_le : r.used ≤ n
  back_lt : r.back < N
  front_eq : r.front = (r.back + r.used) % N
  window : Window (cellOf N n) r.elements r.back r.used l

namespace HoldsMod

variable {r : RingStore n α} {l : List α} {e : α}

/-- The empty store holds nothing. -/
lemma empty (hN : 0 < N) : HoldsMod N (RingStore.empty : RingStore n α) [] := by
  refine ⟨Nat.zero_le n, hN, (Nat.zero_mod N).symm, rfl, ?_, ?_, fun i _ => rfl⟩
  · exact fun i _ hi => absurd hi (Nat.not_lt_zero i)
  · exact fun k hk => absurd hk (Nat.not_lt_zero k)

/-- The counters are words already. -/
lemma wrap_eq (h : HoldsMod N r l) (hn : n < N) : r.wrap N = r := by
  have hused : r.used % N = r.used := Nat.mod_eq_of_lt (h.used_le.trans_lt hn)
  have hback : r.back % N = r.back := Nat.mod_eq_of_lt h.back_lt
  have hfront : r.front % N = r.front := by rw [h.front_eq, Nat.mod_mod]
  rw [wrap, hused, hback, hfront]

/-- Until the counters start again, no store laps. -/
lemma not_laps_of_lt (h : HoldsMod N r l) (hlt : r.back + r.used < N) : ¬ r.Laps N := by
  rintro ⟨hfront, hle⟩
  rw [h.front_eq, Nat.mod_eq_of_lt hlt] at hfront
  omega

/-- The cell at the front is the one after the window. -/
lemma slot_front (h : HoldsMod N r l) : slot n r.front = cellOf N n (r.back + r.used) := by
  rw [h.front_eq]
  rfl

/-- The cell at the back is the first one of the window. -/
lemma slot_back (h : HoldsMod N r l) : slot n r.back = cellOf N n r.back := by
  rw [cellOf, Nat.mod_eq_of_lt h.back_lt]

/-- The cell at the front of a store that is not full is free exactly when it does not lap. -/
lemma front_free_iff (h : HoldsMod N r l) (hn : n ≤ N) (hroom : r.used < n) :
    r.elements (slot n r.front) = none ↔ ¬ r.Laps N := by
  rw [Laps, h.front_eq, ← cellOf_collides_iff hn h.back_lt hroom, ← h.front_eq, h.slot_front,
    ← h.window.isSome_iff, Bool.not_eq_true, Option.isSome_eq_false_iff, Option.isNone_iff_eq_none]

/-- Storing into a store that is neither full nor laps appends the element. -/
lemma store (h : HoldsMod N r l) (hn : n < N) (hroom : r.used < n) (hlaps : ¬ r.Laps N) :
    HoldsMod N ((r.store (some e)).wrap N) (l ++ [e]) := by
  have hfree : ∀ k, k < r.used → cellOf N n (r.back + r.used) ≠ cellOf N n (r.back + k) := by
    intro k hk heq
    refine hlaps ?_
    rw [Laps, h.front_eq]
    exact (cellOf_collides_iff hn.le h.back_lt hroom).mp ⟨k, hk, heq⟩
  have hused : (r.used + 1) % N = r.used + 1 := Nat.mod_eq_of_lt (by omega)
  have hback : r.back % N = r.back := Nat.mod_eq_of_lt h.back_lt
  have hpush := h.window.push (e := e) hfree
  rw [← h.slot_front] at hpush
  refine ⟨?_, ?_, ?_, ?_⟩ <;> simp only [wrap, RingStore.store, hused, hback]
  · exact hroom
  · exact h.back_lt
  · rw [h.front_eq, Nat.mod_add_mod, Nat.add_assoc]
  · exact hpush

/-- The oldest element stands in the cell at the back. -/
lemma oldest_eq (h : HoldsMod N r (e :: l)) : r.oldest = some e := by
  rw [oldest, h.slot_back]
  exact h.window.oldest_eq

/-- Clearing the cell at the back removes the oldest element. -/
lemma drop (h : HoldsMod N r (e :: l)) (hn : n < N) : HoldsMod N (r.drop.wrap N) l := by
  have hlen : r.used = l.length + 1 := h.window.length_eq
  have hle := h.used_le
  have hused : (r.used - 1) % N = r.used - 1 := Nat.mod_eq_of_lt (by omega)
  have hpop := h.window.pop
  rw [← h.slot_back] at hpop
  refine ⟨?_, ?_, ?_, ?_⟩ <;> simp only [wrap, RingStore.drop, hused]
  · omega
  · exact Nat.mod_lt _ (by omega)
  · rw [Nat.mod_add_mod, h.front_eq, Nat.mod_mod, show r.back + 1 + (r.used - 1) = r.back + r.used
      by omega]
  · exact hpop.congr (cellOf_mod_add _)

end HoldsMod

end RingStore

end Foundations
