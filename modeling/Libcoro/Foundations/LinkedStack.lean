import Mathlib

/-!
# Singly linked stacks in a heap of nodes

A heap is a function `next` giving the successor pointer of every node.  `Linked next h l`
says that the pointer `h` heads the null-terminated list whose nodes, in order, are `l`.
A node that is not on the list may be rewritten freely (`Linked.update`), which is all that
a pusher preparing its own node needs to know.  `Reversing` is the invariant of the loop that
reverses such a list in place.
-/

namespace Foundations

variable {ν : Type*}

/-- `Linked next h l`: following `next` from the pointer `h` visits exactly the nodes `l`,
in this order, and then ends in a null pointer. -/
def Linked (next : ν → Option ν) : Option ν → List ν → Prop
  | h, [] => h = none
  | h, x :: l => h = some x ∧ Linked next (next x) l

instance decidableLinked [DecidableEq ν] (next : ν → Option ν) :
    (h : Option ν) → (l : List ν) → Decidable (Linked next h l)
  | h, [] => inferInstanceAs (Decidable (h = none))
  | h, x :: l =>
    have := decidableLinked next (next x) l
    inferInstanceAs (Decidable (h = some x ∧ Linked next (next x) l))

namespace Linked

variable {next : ν → Option ν} {h : Option ν} {l : List ν} {x : ν}

/-- The null pointer heads only the empty list. -/
@[simp] lemma none_iff : Linked next none l ↔ l = [] := by
  cases l <;> simp [Linked]

/-- A pointer to a node heads exactly the lists that begin with that node. -/
lemma some_iff : Linked next (some x) l ↔ ∃ t, l = x :: t ∧ Linked next (next x) t := by
  cases l with
  | nil => simp [Linked]
  | cons y t =>
    constructor
    · rintro ⟨hy, ht⟩
      obtain rfl : x = y := Option.some.inj hy
      exact ⟨t, rfl, ht⟩
    · rintro ⟨t', heq, ht⟩
      obtain ⟨rfl, rfl⟩ := List.cons.inj heq
      exact ⟨rfl, ht⟩

/-- A pointer heads at most one list. -/
lemma unique {l' : List ν} (hl : Linked next h l) (hl' : Linked next h l') : l = l' := by
  induction l generalizing h l' with
  | nil =>
    obtain rfl : h = none := hl
    exact (none_iff.mp hl').symm
  | cons x t ih =>
    obtain ⟨rfl, ht⟩ := hl
    obtain ⟨t', rfl, ht'⟩ := some_iff.mp hl'
    rw [ih ht ht']

/-- Every node on a list heads the rest of it. -/
lemma exists_tail (hl : Linked next h l) (hx : x ∈ l) :
    ∃ t, t.length < l.length ∧ Linked next (next x) t := by
  induction l generalizing h with
  | nil => simp at hx
  | cons y t ih =>
    obtain ⟨-, ht⟩ := hl
    rcases List.mem_cons.mp hx with rfl | hx
    · exact ⟨t, Nat.lt_succ_self _, ht⟩
    · obtain ⟨r, hlen, hr⟩ := ih ht hx
      exact ⟨r, Nat.lt_succ_of_lt hlen, hr⟩

/-- A null-terminated list has no cycle: no node occurs on it twice. -/
lemma nodup (hl : Linked next h l) : l.Nodup := by
  induction l generalizing h with
  | nil => exact List.nodup_nil
  | cons x t ih =>
    obtain ⟨-, ht⟩ := hl
    refine List.nodup_cons.mpr ⟨fun hx => ?_, ih ht⟩
    -- a second occurrence of `x` would head a list shorter than the unique one it heads
    obtain ⟨r, hlen, hr⟩ := ht.exists_tail hx
    rw [ht.unique hr] at hlen
    exact lt_irrefl _ hlen

/-- Writing the successor of a node off the list leaves the list alone. -/
lemma update [DecidableEq ν] (hl : Linked next h l) (hx : x ∉ l) (p : Option ν) :
    Linked (Function.update next x p) h l := by
  induction l generalizing h with
  | nil => exact hl
  | cons y t ih =>
    obtain ⟨hh, ht⟩ := hl
    have hyx : y ≠ x := fun hyx => hx (hyx ▸ List.mem_cons_self)
    refine ⟨hh, ?_⟩
    rw [Function.update_of_ne hyx]
    exact ih ht fun hmem => hx (List.mem_cons_of_mem y hmem)

/-- A list whose first node has no successor is its own reverse. -/
lemma reverse_eq_of_short (hl : Linked next h l.reverse)
    (hshort : ∀ x, h = some x → next x = none) : l.reverse = l := by
  cases h with
  | none =>
    obtain rfl : l = [] := by simpa using hl
    rfl
  | some x =>
    obtain ⟨t, hx, ht⟩ := some_iff.mp hl
    rw [hshort x rfl, none_iff] at ht
    subst ht
    rw [List.reverse_eq_iff] at hx
    simp [hx]

end Linked

/-- `Reaches next h x`: following `next` from the pointer `h` comes to the node `x`. -/
inductive Reaches (next : ν → Option ν) : Option ν → ν → Prop
  | here {x : ν} : Reaches next (some x) x
  | there {x y : ν} : Reaches next (next x) y → Reaches next (some x) y

/-- The nodes that a null-terminated list comes to are those on it. -/
lemma Linked.reaches_iff {next : ν → Option ν} {h : Option ν} {l : List ν} {x : ν}
    (hl : Linked next h l) : Reaches next h x ↔ x ∈ l := by
  induction l generalizing h with
  | nil =>
    obtain rfl : h = none := hl
    refine iff_of_false ?_ List.not_mem_nil
    intro hx
    cases hx
  | cons y t ih =>
    obtain ⟨rfl, ht⟩ := hl
    rw [List.mem_cons, ← ih ht]
    constructor
    · intro hx
      cases hx with
      | here => exact Or.inl rfl
      | there hx => exact Or.inr hx
    · rintro (rfl | hx)
      · exact .here
      · exact .there hx

/-! ## Reversal in place

The loop that reverses a list takes the nodes off the front of what is left and links each one in
front of what it has done. -/

/-- A reversal is under way: `curr` heads what is left and `prev` what has been done, and the
reversal will end in the list `l`. -/
def Reversing (next : ν → Option ν) (curr prev : Option ν) (l : List ν) : Prop :=
  ∃ rest front, Linked next curr rest ∧ Linked next prev front ∧ l = rest.reverse ++ front

/-- A reversal is under way and has done `n` nodes. -/
def ReversingAt (next : ν → Option ν) (curr prev : Option ν) (l : List ν) (n : ℕ) : Prop :=
  ∃ rest front, Linked next curr rest ∧ Linked next prev front ∧ l = rest.reverse ++ front ∧
    front.length = n

namespace ReversingAt

variable {next : ν → Option ν} {curr prev h : Option ν} {l : List ν} {n : ℕ} {x : ν}

/-- At first nothing has been done. -/
lemma start (hl : Linked next h l) : ReversingAt next h none l.reverse 0 :=
  ⟨l, [], hl, rfl, (List.append_nil _).symm, rfl⟩

/-- At the end nothing is left. -/
lemma finish (hr : ReversingAt next none prev l n) : Linked next prev l := by
  obtain ⟨rest, front, hrest, hfront, rfl, -⟩ := hr
  obtain rfl := Linked.none_iff.mp hrest
  exact hfront

/-- The next node belongs to the list. -/
lemma mem (hr : ReversingAt next (some x) prev l n) : x ∈ l := by
  obtain ⟨rest, front, hrest, -, rfl, -⟩ := hr
  obtain ⟨t, rfl, -⟩ := Linked.some_iff.mp hrest
  simp

/-- Before the end something is left. -/
lemma lt_length (hr : ReversingAt next (some x) prev l n) : n < l.length := by
  obtain ⟨rest, front, hrest, -, rfl, rfl⟩ := hr
  obtain ⟨t, rfl, -⟩ := Linked.some_iff.mp hrest
  simp only [List.length_append, List.length_reverse, List.length_cons]
  omega

/-- Writing the successor of a node off the list does not disturb a reversal. -/
lemma update [DecidableEq ν] (hr : ReversingAt next curr prev l n) (hx : x ∉ l) (p : Option ν) :
    ReversingAt (Function.update next x p) curr prev l n := by
  obtain ⟨rest, front, hrest, hfront, rfl, hn⟩ := hr
  have hx' : x ∉ rest ∧ x ∉ front := by simpa using hx
  exact ⟨rest, front, hrest.update hx'.1 p, hfront.update hx'.2 p, rfl, hn⟩

/-- One turn of the loop. -/
lemma turn [DecidableEq ν] (hr : ReversingAt next (some x) prev l n) (hnodup : l.Nodup) :
    ReversingAt (Function.update next x prev) (next x) (some x) l (n + 1) := by
  obtain ⟨rest, front, hrest, hfront, rfl, rfl⟩ := hr
  obtain ⟨t, rfl, ht⟩ := Linked.some_iff.mp hrest
  have hx : x ∉ t ∧ x ∉ front := by
    simp only [List.reverse_cons, List.append_assoc, List.singleton_append] at hnodup
    have hx := (List.nodup_middle.mp hnodup).notMem
    simpa using hx
  refine ⟨t, x :: front, ht.update hx.1 prev, ⟨rfl, ?_⟩, by simp, rfl⟩
  rw [Function.update_self]
  exact hfront.update hx.2 prev

end ReversingAt

namespace Reversing

variable {next : ν → Option ν} {curr prev h : Option ν} {l : List ν} {x : ν}

/-- A reversal has done some number of nodes. -/
lemma iff_exists : Reversing next curr prev l ↔ ∃ n, ReversingAt next curr prev l n := by
  constructor
  · rintro ⟨rest, front, hrest, hfront, hl⟩
    exact ⟨_, rest, front, hrest, hfront, hl, rfl⟩
  · rintro ⟨n, rest, front, hrest, hfront, hl, -⟩
    exact ⟨rest, front, hrest, hfront, hl⟩

/-- At first nothing has been done. -/
lemma start (hl : Linked next h l) : Reversing next h none l.reverse :=
  iff_exists.mpr ⟨0, .start hl⟩

/-- At the end nothing is left. -/
lemma finish (hr : Reversing next none prev l) : Linked next prev l := by
  obtain ⟨n, hn⟩ := iff_exists.mp hr
  exact hn.finish

/-- The next node belongs to the list. -/
lemma mem (hr : Reversing next (some x) prev l) : x ∈ l := by
  obtain ⟨n, hn⟩ := iff_exists.mp hr
  exact hn.mem

/-- Writing the successor of a node off the list does not disturb a reversal. -/
lemma update [DecidableEq ν] (hr : Reversing next curr prev l) (hx : x ∉ l) (p : Option ν) :
    Reversing (Function.update next x p) curr prev l := by
  obtain ⟨n, hn⟩ := iff_exists.mp hr
  exact iff_exists.mpr ⟨n, hn.update hx p⟩

/-- One turn of the loop. -/
lemma turn [DecidableEq ν] (hr : Reversing next (some x) prev l) (hnodup : l.Nodup) :
    Reversing (Function.update next x prev) (next x) (some x) l := by
  obtain ⟨n, hn⟩ := iff_exists.mp hr
  exact iff_exists.mpr ⟨n + 1, hn.turn hnodup⟩

end Reversing

end Foundations
