import Mathlib

/-!
# Queues ordered by time

A multimap from time points to keys, kept as a list in the order of the time points, where
entries of the same time point stand in the order of their insertion.  The order is part of
the type, so the first entry is always the earliest one.
-/

namespace Foundations

/-- Entries in the order of their time points. -/
structure TimedQueue (τ κ : Type*) [LinearOrder τ] where
  entries : List (τ × κ)
  sorted : entries.Pairwise fun a b => a.1 ≤ b.1

namespace TimedQueue

variable {τ κ : Type*} [LinearOrder τ]

/-- Inserts an entry behind all entries that are not later. -/
def insertEntry (e : τ × κ) : List (τ × κ) → List (τ × κ)
  | [] => [e]
  | x :: l => if e.1 < x.1 then e :: x :: l else x :: insertEntry e l

variable {e : τ × κ}

/-- Membership after an insertion. -/
lemma mem_insertEntry {x : τ × κ} {l : List (τ × κ)} : x ∈ insertEntry e l ↔ x = e ∨ x ∈ l := by
  induction l with
  | nil => simp [insertEntry]
  | cons y l ih =>
    unfold insertEntry
    split_ifs with hlt
    · simp
    · rw [List.mem_cons, ih, List.mem_cons]
      tauto

/-- Insertion keeps the order. -/
lemma insertEntry_sorted (e : τ × κ) {l : List (τ × κ)}
    (h : l.Pairwise fun a b => a.1 ≤ b.1) :
    (insertEntry e l).Pairwise fun a b => a.1 ≤ b.1 := by
  induction l with
  | nil => simp [insertEntry]
  | cons y l ih =>
    obtain ⟨hy, hl⟩ := List.pairwise_cons.mp h
    unfold insertEntry
    split_ifs with hlt
    · refine List.pairwise_cons.mpr ⟨fun x hx => ?_, h⟩
      rcases List.mem_cons.mp hx with rfl | hx
      · exact hlt.le
      · exact hlt.le.trans (hy x hx)
    · refine List.pairwise_cons.mpr ⟨fun x hx => ?_, ih hl⟩
      rcases mem_insertEntry.mp hx with rfl | hx
      · exact not_lt.mp hlt
      · exact hy x hx

/-- The queue without entries. -/
def empty : TimedQueue τ κ where
  entries := []
  sorted := List.Pairwise.nil

/-- Adds an entry. -/
def emplace (q : TimedQueue τ κ) (t : τ) (k : κ) : TimedQueue τ κ where
  entries := insertEntry (t, k) q.entries
  sorted := insertEntry_sorted (t, k) q.sorted

/-- The first entry. -/
def earliest (q : TimedQueue τ κ) : Option (τ × κ) :=
  q.entries.head?

/-- Whether an entry of the time `t` would become the first one. -/
def isFirst (q : TimedQueue τ κ) (t : τ) : Bool :=
  q.earliest.all fun x => t < x.1

/-- Removes the first entry with the key `k`. -/
def erase [DecidableEq κ] (q : TimedQueue τ κ) (k : κ) : TimedQueue τ κ where
  entries := q.entries.eraseP (·.2 = k)
  sorted := q.sorted.sublist List.eraseP_sublist

/-- The entries that are due at the time `t`. -/
def due (q : TimedQueue τ κ) (t : τ) : List (τ × κ) :=
  q.entries.takeWhile (·.1 ≤ t)

/-- Removes the entries that are due at the time `t`. -/
def dropDue (q : TimedQueue τ κ) (t : τ) : TimedQueue τ κ where
  entries := q.entries.dropWhile (·.1 ≤ t)
  sorted := q.sorted.sublist (List.dropWhile_sublist _)

variable {q : TimedQueue τ κ}

/-- No entry is before the first one. -/
lemma earliest_le {x : τ × κ} (he : q.earliest = some e)
    (hx : x ∈ q.entries) : e.1 ≤ x.1 := by
  have hsorted := q.sorted
  unfold earliest at he
  cases hl : q.entries with
  | nil => simp [hl] at he
  | cons y l =>
    rw [hl] at he hx hsorted
    obtain rfl : y = e := by simpa using he
    rcases List.mem_cons.mp hx with rfl | hx
    · exact le_rfl
    · exact (List.pairwise_cons.mp hsorted).1 x hx

/-- The first entry after an insertion. -/
lemma earliest_emplace (q : TimedQueue τ κ) (t : τ) (k : κ) :
    (q.emplace t k).earliest = if q.isFirst t then some (t, k) else q.earliest := by
  change (insertEntry (t, k) q.entries).head? =
    if q.entries.head?.all (fun x => t < x.1) then some (t, k) else q.entries.head?
  cases q.entries with
  | nil => simp [insertEntry]
  | cons y l =>
    by_cases hlt : t < y.1
    · simp [insertEntry, hlt]
    · simp [insertEntry, hlt]

/-- Removing another entry leaves the first one. -/
lemma earliest_erase [DecidableEq κ] {k : κ}
    (h : ∀ e, q.earliest = some e → e.2 ≠ k) : (q.erase k).earliest = q.earliest := by
  change (q.entries.eraseP (·.2 = k)).head? = q.entries.head?
  unfold earliest at h
  cases hl : q.entries with
  | nil => simp
  | cons y l =>
    have hy : y.2 ≠ k := h y (by simp [hl])
    simp [hy]

/-! ## The keys -/

/-- The keys of the entries. -/
def keys (q : TimedQueue τ κ) : List κ :=
  q.entries.map Prod.snd

/-- An insertion adds the new entry and nothing else. -/
lemma insertEntry_perm (e : τ × κ) (l : List (τ × κ)) : (insertEntry e l).Perm (e :: l) := by
  induction l with
  | nil => exact List.Perm.refl _
  | cons y l ih =>
    unfold insertEntry
    split_ifs
    · exact List.Perm.refl _
    · exact (ih.cons y).trans (List.Perm.swap e y l)

/-- The keys after an insertion. -/
lemma keys_emplace_perm (q : TimedQueue τ κ) (t : τ) (k : κ) :
    (q.emplace t k).keys.Perm (k :: q.keys) :=
  (insertEntry_perm (t, k) q.entries).map Prod.snd

/-- The keys after a removal. -/
lemma keys_erase [DecidableEq κ] (q : TimedQueue τ κ) (k : κ) :
    (q.erase k).keys = q.keys.erase k := by
  simp only [keys, erase, List.erase_eq_eraseP', List.eraseP_map, Function.comp_def,
    beq_eq_decide]

/-- The keys that are due come before those that remain. -/
lemma keys_due_append (q : TimedQueue τ κ) (t : τ) :
    (q.due t).map Prod.snd ++ (q.dropDue t).keys = q.keys := by
  simp only [keys, due, dropDue, ← List.map_append, List.takeWhile_append_dropWhile]

/-- A key is in the queue after an insertion if it was there or is the new one. -/
lemma mem_keys_emplace {t : τ} {j k : κ} :
    j ∈ (q.emplace t k).keys ↔ j = k ∨ j ∈ q.keys := by
  rw [(q.keys_emplace_perm t k).mem_iff, List.mem_cons]

/-- If no key is twice in the queue, a removal takes the key out. -/
lemma mem_keys_erase [DecidableEq κ] (h : q.keys.Nodup) {j k : κ} :
    j ∈ (q.erase k).keys ↔ j ≠ k ∧ j ∈ q.keys := by
  rw [keys_erase, h.mem_erase_iff]

/-- If no key is twice in the queue, none of those that are due remains. -/
lemma mem_keys_dropDue (h : q.keys.Nodup) {t : τ} {j : κ} :
    j ∈ (q.dropDue t).keys ↔ j ∉ (q.due t).map Prod.snd ∧ j ∈ q.keys := by
  rw [← q.keys_due_append t] at h ⊢
  rw [List.mem_append]
  constructor
  · intro hj
    exact ⟨fun hd => (List.disjoint_of_nodup_append h) hd hj, Or.inr hj⟩
  · rintro ⟨hd, hj⟩
    exact hj.resolve_left hd

/-- What is due is an entry, and its time has come. -/
lemma of_mem_due {t : τ} (he : e ∈ q.due t) :
    e ∈ q.entries ∧ e.1 ≤ t :=
  ⟨(List.takeWhile_sublist _).mem he, by simpa using List.mem_takeWhile_imp he⟩

end TimedQueue

end Foundations
