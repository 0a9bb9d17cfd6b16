import Libcoro.Foundations.LinkedStack

/-!
# Singly linked queues in a heap of nodes

A queue with a head pointer, a tail pointer and a successor pointer in every node.
`LinkedQueue.Holds q l` says that the nodes on the queue are `l`, oldest first, and that the
tail pointer leads to the last of them.  `enqueue` links a node behind the tail and `dequeue`
advances the head; both pointers become null together.
-/

namespace Foundations

variable {ν : Type*} [DecidableEq ν]

/-- Linking a node behind the last one of a list appends it. -/
lemma Linked.append {next : ν → Option ν} {h : Option ν} {l : List ν} {t x : ν}
    (hl : Linked next h (l ++ [t])) (hx : x ∉ l ++ [t]) (hnext : next x = none) :
    Linked (Function.update next t (some x)) h (l ++ [t] ++ [x]) := by
  induction l generalizing h with
  | nil =>
    obtain ⟨hh, -⟩ := hl
    have hxt : x ≠ t := by simpa using hx
    refine ⟨hh, ?_⟩
    simp [Linked, hxt, hnext]
  | cons y l ih =>
    obtain ⟨hh, ht⟩ := hl
    have hyt : y ≠ t := by
      intro hyt
      have hlinked : Linked next h (y :: (l ++ [t])) := ⟨hh, ht⟩
      have hnodup := hlinked.nodup
      apply (List.nodup_cons.mp hnodup).1
      simp [hyt]
    have hxl : x ∉ l ++ [t] := by
      intro hmem
      exact hx (List.mem_cons_of_mem y hmem)
    refine ⟨hh, ?_⟩
    rw [Function.update_of_ne hyt]
    exact ih ht hxl

/-- A head pointer, a tail pointer, and the successor of every node. -/
structure LinkedQueue (ν : Type*) where
  head : Option ν
  tail : Option ν
  next : ν → Option ν

namespace LinkedQueue

/-- The empty queue. -/
def empty : LinkedQueue ν where
  head := none
  tail := none
  next _ := none

/-- Makes `x` a new node, with a null successor. -/
def alloc (q : LinkedQueue ν) (x : ν) : LinkedQueue ν :=
  { q with next := Function.update q.next x none }

/-- Links the node `x` behind the tail. -/
def enqueue (q : LinkedQueue ν) (x : ν) : LinkedQueue ν :=
  match q.tail with
  | none => { q with head := some x, tail := some x }
  | some t => { q with tail := some x, next := Function.update q.next t (some x) }

/-- Advances the head pointer past the node `x`. -/
def dequeue (q : LinkedQueue ν) (x : ν) : LinkedQueue ν :=
  match q.next x with
  | none => { q with head := none, tail := none }
  | some y => { q with head := some y }

/-- The nodes on the queue are `l`, oldest first. -/
structure Holds (q : LinkedQueue ν) (l : List ν) : Prop where
  linked : Linked q.next q.head l
  tail_eq : q.tail = l.getLast?

namespace Holds

variable {q : LinkedQueue ν} {l : List ν} {x : ν}

omit [DecidableEq ν]

/-- The empty queue holds nothing. -/
lemma empty : (LinkedQueue.empty : LinkedQueue ν).Holds [] := by
  constructor
  · rfl
  · rfl

/-- No node is on the queue twice. -/
lemma nodup (h : q.Holds l) : l.Nodup :=
  h.linked.nodup

/-- The head pointer leads to the first node. -/
lemma head_eq (h : q.Holds l) : q.head = l.head? := by
  cases l with
  | nil => exact h.linked
  | cons y t => exact h.linked.1

/-- The first node leaves at the head. -/
lemma dequeue (h : q.Holds (x :: l)) : (q.dequeue x).Holds l := by
  obtain ⟨-, hrest⟩ := h.linked
  have htail := h.tail_eq
  unfold LinkedQueue.dequeue
  cases l with
  | nil =>
    have hnext : q.next x = none := hrest
    rw [hnext]
    constructor
    · rfl
    · rfl
  | cons y t =>
    have hnext : q.next x = some y := hrest.1
    rw [hnext]
    constructor
    · exact ⟨rfl, hrest.2⟩
    · rw [List.getLast?_cons_cons] at htail
      exact htail

variable [DecidableEq ν]

/-- A new node may be prepared off the queue. -/
lemma alloc (h : q.Holds l) (hx : x ∉ l) : (q.alloc x).Holds l := by
  constructor
  · exact h.linked.update hx none
  · exact h.tail_eq

/-- A node with a null successor enters at the tail. -/
lemma enqueue (h : q.Holds l) (hx : x ∉ l) (hnext : q.next x = none) :
    (q.enqueue x).Holds (l ++ [x]) := by
  have htail := h.tail_eq
  unfold LinkedQueue.enqueue
  rcases List.eq_nil_or_concat l with rfl | ⟨l, t, rfl⟩
  · rw [List.getLast?_nil] at htail
    rw [htail]
    constructor
    · simp [Linked, hnext]
    · simp
  · rw [List.concat_eq_append, List.getLast?_concat] at htail
    rw [htail]
    constructor
    · have hlinked := h.linked
      rw [List.concat_eq_append] at hlinked hx ⊢
      exact hlinked.append hx hnext
    · simp

end Holds

end LinkedQueue

end Foundations
