import Mathlib

/-!
# Cyclic stores

A cyclic store keeps a queue in `n` cells: `front` and `back` count all insertions and all
removals, and a counter is turned into a cell by reducing it modulo `n`.  `Holds r l` says
that the live cells of `r`, from the oldest to the newest, contain the list `l` and that
every other cell is empty.

What a store of an element and a removal do to the cells does not depend on how counters are
turned into cells, as long as the live counters point at different ones: this part is stated
once, for a `Window` of counters and any map from counters to cells.
-/

namespace Foundations

open Function

/-! ## Windows of counters -/

/-- The `m` counters from `b` on point at different cells, those cells contain `l`, the oldest
element first, and every other cell is empty. -/
structure Window {ι α : Type*} (cell : ℕ → ι) (elements : ι → Option α) (b m : ℕ)
    (l : List α) : Prop where
  length_eq : m = l.length
  inj : ∀ i j, i < m → j < m → cell (b + i) = cell (b + j) → i = j
  live : ∀ k, k < m → elements (cell (b + k)) = l[k]?
  dead : ∀ i, (∀ k, k < m → i ≠ cell (b + k)) → elements i = none

namespace Window

variable {ι α : Type*} {cell : ℕ → ι} {elements : ι → Option α} {b m : ℕ} {l : List α}
  {e : α}

/-- A cell is occupied exactly when one of the live counters points at it. -/
lemma isSome_iff (h : Window cell elements b m l) (i : ι) :
    (elements i).isSome ↔ ∃ k, k < m ∧ i = cell (b + k) := by
  constructor
  · intro hi
    by_contra hnone
    have : elements i = none := h.dead i fun k hk hik => hnone ⟨k, hk, hik⟩
    simp [this] at hi
  · rintro ⟨k, hk, rfl⟩
    have hlen : k < l.length := h.length_eq ▸ hk
    simp [h.live k hk, hlen]

/-- What stands in a cell is one of the elements. -/
lemma mem_of_eq_some (h : Window cell elements b m l) {i : ι} (hi : elements i = some e) :
    e ∈ l := by
  obtain ⟨k, hk, rfl⟩ := (h.isSome_iff i).mp (by simp [hi])
  rw [h.live k hk] at hi
  exact List.mem_of_getElem? hi

/-- A window only depends on the cells that its counters point at. -/
lemma congr {b' : ℕ} (h : Window cell elements b m l)
    (hcell : ∀ k, cell (b' + k) = cell (b + k)) : Window cell elements b' m l := by
  refine ⟨h.length_eq, fun i j => ?_, fun k => ?_, fun i => ?_⟩
  · simpa only [hcell] using h.inj i j
  · simpa only [hcell] using h.live k
  · simpa only [hcell] using h.dead i

/-- The oldest element stands in the first cell. -/
lemma oldest_eq (h : Window cell elements b m (e :: l)) : elements (cell b) = some e := by
  have hpos : 0 < m := by rw [h.length_eq]; exact Nat.succ_pos _
  simpa using h.live 0 hpos

variable [DecidableEq ι]

/-- Writing the cell after the window appends the element, unless that cell is in use. -/
lemma push (h : Window cell elements b m l) (hfree : ∀ k, k < m → cell (b + m) ≠ cell (b + k)) :
    Window cell (update elements (cell (b + m)) (some e)) b (m + 1) (l ++ [e]) := by
  refine ⟨?_, fun i j hi hj hij => ?_, fun k hk => ?_, fun i hi => ?_⟩
  · simp [h.length_eq]
  · rcases Nat.lt_succ_iff_lt_or_eq.mp hi with hi | rfl
    · rcases Nat.lt_succ_iff_lt_or_eq.mp hj with hj | rfl
      · exact h.inj i j hi hj hij
      · exact absurd hij.symm (hfree i hi)
    · rcases Nat.lt_succ_iff_lt_or_eq.mp hj with hj | rfl
      · exact absurd hij (hfree j hj)
      · rfl
  · rcases Nat.lt_succ_iff_lt_or_eq.mp hk with hlt | rfl
    · rw [update_of_ne (hfree k hlt).symm, h.live k hlt,
        List.getElem?_append_left (h.length_eq ▸ hlt)]
    · rw [update_self, h.length_eq, List.getElem?_concat_length]
  · rw [update_of_ne (hi m (Nat.lt_succ_self m))]
    exact h.dead i fun k hk => hi k (Nat.lt_succ_of_lt hk)

/-- Clearing the first cell of the window removes the oldest element. -/
lemma pop (h : Window cell elements b m (e :: l)) :
    Window cell (update elements (cell b) none) (b + 1) (m - 1) l := by
  have hm : m = l.length + 1 := h.length_eq
  have hshift : ∀ k, b + 1 + k = b + (k + 1) := fun k => by omega
  refine ⟨by omega, fun i j hi hj hij => ?_, fun k hk => ?_, fun i hi => ?_⟩
  · rw [hshift, hshift] at hij
    exact Nat.succ.inj (h.inj _ _ (by omega) (by omega) hij)
  · have hne : cell (b + (k + 1)) ≠ cell b := fun heq =>
      Nat.succ_ne_zero k (h.inj (k + 1) 0 (by omega) (by omega) heq)
    rw [hshift, update_of_ne hne, h.live (k + 1) (by omega), List.getElem?_cons_succ]
  · by_cases hback : i = cell b
    · rw [hback, update_self]
    · rw [update_of_ne hback]
      refine h.dead i fun k hk => ?_
      cases k with
      | zero => exact hback
      | succ k =>
        rw [← hshift]
        exact hi k (by omega)

end Window

/-! ## Cells by reduction -/

/-- The cell a counter points at. -/
def slot (n : ℕ) [NeZero n] (k : ℕ) : Fin n :=
  Fin.ofNat n k

/-- Counters less than `n` apart point at different cells. -/
lemma slot_add_inj {n : ℕ} [NeZero n] {b i j : ℕ} (hi : i < n) (hj : j < n)
    (h : slot n (b + i) = slot n (b + j)) : i = j := by
  have hmod : (b + i) % n = (b + j) % n := congrArg Fin.val h
  have hij : i % n = j % n := Nat.ModEq.add_left_cancel' b hmod
  rwa [Nat.mod_eq_of_lt hi, Nat.mod_eq_of_lt hj] at hij

/-- Reading a list at all its positions gives the list. -/
lemma filterMap_getElem?_range {α : Type*} (l : List α) :
    (List.range l.length).filterMap (fun k => l[k]?) = l := by
  induction l using List.reverseRecOn with
  | nil => rfl
  | append_singleton l a ih =>
    have hold : ∀ k ∈ List.range l.length, (l ++ [a])[k]? = l[k]? := by
      intro k hk
      exact List.getElem?_append_left (List.mem_range.mp hk)
    rw [List.length_append, List.length_singleton, List.range_succ, List.filterMap_append,
      List.filterMap_congr hold, ih]
    simp

/-- A store of `n` cells with its counters. -/
structure RingStore (n : ℕ) (α : Type*) where
  elements : Fin n → Option α
  front : ℕ
  back : ℕ
  used : ℕ

namespace RingStore

variable {n : ℕ} [NeZero n] {α : Type*}

/-- The store with no element. -/
def empty : RingStore n α where
  elements _ := none
  front := 0
  back := 0
  used := 0

/-- Writes the cell at the front. -/
def store (r : RingStore n α) (e : Option α) : RingStore n α where
  elements := update r.elements (slot n r.front) e
  front := r.front + 1
  back := r.back
  used := r.used + 1

/-- The cell at the back, which holds the oldest element. -/
def oldest (r : RingStore n α) : Option α :=
  r.elements (slot n r.back)

/-- Clears the cell at the back. -/
def drop (r : RingStore n α) : RingStore n α where
  elements := update r.elements (slot n r.back) none
  front := r.front
  back := r.back + 1
  used := r.used - 1

/-- The live cells, from the oldest to the newest. -/
def contents (r : RingStore n α) : List α :=
  (List.range r.used).filterMap fun k => r.elements (slot n (r.back + k))

/-- The live cells of `r` contain exactly `l`, the oldest element first. -/
structure Holds (r : RingStore n α) (l : List α) : Prop where
  used_eq : r.used = l.length
  used_le : r.used ≤ n
  front_eq : r.front = r.back + r.used
  live : ∀ k, k < r.used → r.elements (slot n (r.back + k)) = l[k]?
  dead : ∀ i, (∀ k, k < r.used → i ≠ slot n (r.back + k)) → r.elements i = none

namespace Holds

variable {r : RingStore n α} {l : List α} {e : α}

/-- The empty store holds nothing. -/
lemma empty : Holds (RingStore.empty : RingStore n α) [] := by
  refine ⟨rfl, Nat.zero_le n, rfl, fun k hk => ?_, fun i _ => rfl⟩
  exact absurd hk (Nat.not_lt_zero k)

/-- The live counters are a window: there are not more of them than cells. -/
lemma window (h : Holds r l) : Window (slot n) r.elements r.back r.used l :=
  ⟨h.used_eq, fun _ _ hi hj => slot_add_inj (hi.trans_le h.used_le) (hj.trans_le h.used_le),
    h.live, h.dead⟩

/-- A cell is occupied exactly when one of the live counters points at it. -/
lemma isSome_iff (h : Holds r l) (i : Fin n) :
    (r.elements i).isSome ↔ ∃ k, k < r.used ∧ i = slot n (r.back + k) :=
  h.window.isSome_iff i

/-- The contents of the store are the list that it holds. -/
lemma contents_eq (h : Holds r l) : r.contents = l := by
  have hlive : ∀ k ∈ List.range r.used, r.elements (slot n (r.back + k)) = l[k]? := by
    intro k hk
    exact h.live k (List.mem_range.mp hk)
  unfold contents
  rw [List.filterMap_congr hlive, h.used_eq]
  exact filterMap_getElem?_range l

/-- Storing into a store that is not full appends the element. -/
lemma store (h : Holds r l) (hroom : r.used < n) : Holds (r.store (some e)) (l ++ [e]) := by
  have hfree : ∀ k, k < r.used → slot n (r.back + r.used) ≠ slot n (r.back + k) :=
    fun k hk heq => hk.ne (slot_add_inj hroom (hk.trans hroom) heq).symm
  have hpush := h.window.push (e := e) hfree
  rw [← h.front_eq] at hpush
  refine ⟨hpush.length_eq, hroom, ?_, hpush.live, hpush.dead⟩
  simp only [RingStore.store, h.front_eq]
  omega

/-- The oldest element stands in the cell at the back. -/
lemma oldest_eq (h : Holds r (e :: l)) : r.oldest = some e :=
  h.window.oldest_eq

/-- Clearing the cell at the back removes the oldest element. -/
lemma drop (h : Holds r (e :: l)) : Holds r.drop l := by
  have hused : r.used = l.length + 1 := h.used_eq
  have hpop := h.window.pop
  refine ⟨hpop.length_eq, (Nat.sub_le _ _).trans h.used_le, ?_, hpop.live, hpop.dead⟩
  simp only [RingStore.drop, h.front_eq]
  omega

end Holds

end RingStore

end Foundations
