import Mathlib

/-!
# Interest lists

The list of descriptors that a readiness notifier watches, with one-shot entries: adding a
descriptor that is listed already fails, reporting an entry disables it but leaves it in the
list, and only a deletion removes it.  Every operation is described by what an entry of the
new list was in the old one.
-/

namespace Foundations

universe u v w

/-- An entry with its user data, which is reported while it is enabled. -/
structure Registration (ε : Type v) where
  data : ε
  enabled : Bool
  deriving DecidableEq, Repr

/-- The listed descriptors. -/
def InterestList (φ : Type u) (ε : Type v) : Type (max u v) :=
  φ → Option (Registration ε)

namespace InterestList

variable {φ : Type u} {ε : Type v}

/-- Nothing is listed. -/
def empty : InterestList φ ε :=
  fun _ => none

/-- The same entries with other user data. -/
def map {ε' : Type w} (h : ε → ε') (m : InterestList φ ε) : InterestList φ ε' :=
  fun g => (m g).map fun r => { data := h r.data, enabled := r.enabled }

variable [DecidableEq φ]

/-- Adds an enabled entry for `f`, unless `f` is listed. -/
def add (m : InterestList φ ε) (f : φ) (d : ε) : InterestList φ ε :=
  fun g => if g = f ∧ (m f).isNone then some { data := d, enabled := true } else m g

/-- Deletes the entry of a descriptor, if one is given and listed. -/
def del (m : InterestList φ ε) (o : Option φ) : InterestList φ ε :=
  fun g => if o = some g then none else m g

/-- Disables the entry of `f`. -/
def disable (m : InterestList φ ε) (f : φ) : InterestList φ ε :=
  fun g => if g = f then (m g).map fun r => { r with enabled := false } else m g

section Map

variable {ε' : Type w} (h : ε → ε') (m : InterestList φ ε)

/-- An addition does not look at the data of the other entries. -/
lemma map_add (f : φ) (d : ε) : (m.add f d).map h = (m.map h).add f (h d) := by
  funext g
  simp only [map, add, Option.isNone_map]
  split_ifs <;> rfl

/-- A deletion does not look at the data. -/
lemma map_del (o : Option φ) : (m.del o).map h = (m.map h).del o := by
  funext g
  simp only [map, del]
  split_ifs <;> rfl

/-- A disabling does not look at the data. -/
lemma map_disable (f : φ) : (m.disable f).map h = (m.map h).disable f := by
  funext g
  simp only [map, disable]
  split_ifs
  · cases m g <;> rfl
  · rfl

end Map

variable {m : InterestList φ ε} {f g : φ} {d : ε} {r : Registration ε}

/-- An entry after an addition is an old one or the new one. -/
lemma of_add (h : m.add f d g = some r) : m g = some r ∨ (g = f ∧ r.data = d) := by
  unfold add at h
  split_ifs at h with hnew
  · right
    cases h
    exact ⟨hnew.1, rfl⟩
  · exact Or.inl h

/-- An entry after a deletion is an old one of another descriptor. -/
lemma of_del {o : Option φ} (h : m.del o g = some r) : m g = some r ∧ o ≠ some g := by
  unfold del at h
  split_ifs at h with ho
  exact ⟨h, ho⟩

/-- An entry after a disabling has the same data as before. -/
lemma of_disable (h : m.disable f g = some r) : ∃ r', m g = some r' ∧ r'.data = r.data := by
  unfold disable at h
  split_ifs at h
  · obtain ⟨r', hr', rfl⟩ := Option.map_eq_some_iff.mp h
    exact ⟨r', hr', rfl⟩
  · exact ⟨r, h, rfl⟩

/-- An entry after the disabling of several descriptors has the same data as before. -/
lemma of_foldl_disable {fs : List φ} (h : fs.foldl disable m g = some r) :
    ∃ r', m g = some r' ∧ r'.data = r.data := by
  induction fs generalizing m with
  | nil => exact ⟨r, h, rfl⟩
  | cons f fs ih =>
    obtain ⟨r₁, hr₁, hd₁⟩ := ih h
    obtain ⟨r₂, hr₂, hd₂⟩ := of_disable hr₁
    exact ⟨r₂, hr₂, hd₂.trans hd₁⟩

/-- An entry that is enabled after a disabling was the same before. -/
lemma of_disable_enabled (h : m.disable f g = some r) (hr : r.enabled = true) : m g = some r := by
  unfold disable at h
  split_ifs at h
  · obtain ⟨r', -, rfl⟩ := Option.map_eq_some_iff.mp h
    simp at hr
  · exact h

/-- An entry that is enabled after the disabling of several descriptors was the same before. -/
lemma of_foldl_disable_enabled {fs : List φ} (h : fs.foldl disable m g = some r)
    (hr : r.enabled = true) : m g = some r := by
  induction fs generalizing m with
  | nil => exact h
  | cons f fs ih => exact of_disable_enabled (ih h) hr

/-- A descriptor that is not listed is added. -/
lemma add_self (h : m f = none) : m.add f d f = some ⟨d, true⟩ := by
  simp [add, h]

/-- An addition leaves every entry alone. -/
lemma add_of_some (h : m g = some r) : m.add f d g = some r := by
  unfold add
  split_ifs with hnew
  · obtain ⟨rfl, hnone⟩ := hnew
    simp [h] at hnone
  · exact h

/-- A deletion leaves the entries of the other descriptors alone. -/
lemma del_of_ne {o : Option φ} (h : m g = some r) (ho : o ≠ some g) : m.del o g = some r := by
  simpa [del, ho] using h

/-- The disabling of several descriptors leaves the entries of the others alone. -/
lemma foldl_disable_of_notMem {fs : List φ} (hg : g ∉ fs) : fs.foldl disable m g = m g := by
  induction fs generalizing m with
  | nil => rfl
  | cons f fs ih =>
    obtain ⟨hgf, hg⟩ := by simpa using hg
    rw [List.foldl_cons, ih hg]
    simp [disable, hgf]

end InterestList

end Foundations
