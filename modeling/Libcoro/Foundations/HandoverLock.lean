import Libcoro.Foundations.Machine

/-!
# A lock that is handed over

The abstract lock behind a mutex that never returns to the free state while somebody
waits: releasing it makes the waiter that queued last the next owner.  Waiters exist
only under an owner, so the type has no value for a free lock with a queue.
-/

namespace Foundations

/-- A lock is free, or held by an owner with a stack of waiters (the latest one first). -/
inductive HandoverLock (ι : Type*) where
  | free
  | held (owner : ι) (waiting : List ι)
  deriving DecidableEq, Repr

namespace HandoverLock

variable {ι : Type*}

/-- The current owner. -/
def owner : HandoverLock ι → Option ι
  | free => none
  | held c _ => some c

/-- The waiters, the latest one first. -/
def waiting : HandoverLock ι → List ι
  | free => []
  | held _ ws => ws

@[simp] lemma owner_free : (free : HandoverLock ι).owner = none := rfl

@[simp] lemma owner_held (c : ι) (ws : List ι) : (held c ws).owner = some c := rfl

@[simp] lemma waiting_free : (free : HandoverLock ι).waiting = [] := rfl

@[simp] lemma waiting_held (c : ι) (ws : List ι) : (held c ws).waiting = ws := rfl

/-- What can happen to the lock. -/
inductive Act (ι : Type*) where
  -- A free lock is taken.
  | acquire (c : ι)
  -- A waiter joins the stack of a held lock.
  | enqueue (c : ι)
  -- The owner frees the lock, nobody waiting.
  | release (c : ι)
  -- The owner passes the lock to the latest waiter.
  | handover (c : ι)
  deriving DecidableEq, Repr

/-! ## Agents that use a lock

An agent of a larger system that owns the lock, or queues for it, knows so from its control
point.  `Governs L holds queued` says that the lock and the control points agree. -/

/-- The owner of `L` is the one agent that satisfies `holds`, its waiters those that satisfy
`queued`. -/
structure Governs (L : HandoverLock ι) (holds queued : ι → Prop) : Prop where
  owner_iff : ∀ c, L.owner = some c ↔ holds c
  nodup : L.waiting.Nodup
  mem_waiting : ∀ c, c ∈ L.waiting ↔ queued c

namespace Governs

variable {L : HandoverLock ι} {holds queued holds' queued' : ι → Prop} {a o w : ι} {ws : List ι}

/-- At most one agent holds the lock. -/
lemma holds_unique (h : Governs L holds queued) {c d : ι} (hc : holds c) (hd : holds d) :
    c = d := by
  have hown := (h.owner_iff c).mpr hc
  rw [(h.owner_iff d).mpr hd] at hown
  exact (Option.some.inj hown).symm

/-- The holder is the owner of a held lock. -/
lemma eq_held (h : Governs L holds queued) (ha : holds a) : ∃ ws, L = held a ws := by
  have hown := (h.owner_iff a).mpr ha
  cases L with
  | free => simp at hown
  | held o ws =>
    obtain rfl : o = a := by simpa using hown
    exact ⟨ws, rfl⟩

/-- Nobody holds a free lock. -/
lemma not_holds_of_free (h : Governs free holds queued) (c : ι) : ¬ holds c := by
  intro hc
  simpa using (h.owner_iff c).mpr hc

/-- Agents move without touching the lock. -/
lemma congr (h : Governs L holds queued) (hholds : ∀ c, holds' c ↔ holds c)
    (hqueued : ∀ c, queued' c ↔ queued c) : Governs L holds' queued' :=
  ⟨fun c => (h.owner_iff c).trans (hholds c).symm, h.nodup,
    fun c => (h.mem_waiting c).trans (hqueued c).symm⟩

/-- A free lock is taken by `a`. -/
lemma acquire (h : Governs free holds queued) (hholds : ∀ c, holds' c ↔ c = a ∨ holds c)
    (hqueued : ∀ c, queued' c ↔ queued c) : Governs (held a []) holds' queued' := by
  refine ⟨fun c => ?_, List.nodup_nil, fun c => ?_⟩
  · rw [hholds, or_iff_left (h.not_holds_of_free c), owner_held, Option.some_inj, eq_comm]
  · rw [hqueued, ← h.mem_waiting c]
    rfl

/-- `a` queues for a held lock. -/
lemma enqueue (h : Governs (held o ws) holds queued) (ha : ¬ queued a)
    (hholds : ∀ c, holds' c ↔ holds c) (hqueued : ∀ c, queued' c ↔ c = a ∨ queued c) :
    Governs (held o (a :: ws)) holds' queued' := by
  refine ⟨fun c => (h.owner_iff c).trans (hholds c).symm, ?_, fun c => ?_⟩
  · exact List.nodup_cons.mpr ⟨fun hmem => ha ((h.mem_waiting a).mp hmem), h.nodup⟩
  · rw [hqueued, ← h.mem_waiting c]
    exact List.mem_cons

/-- The owner frees the lock, nobody waiting. -/
lemma release (h : Governs (held o []) holds queued) (hholds : ∀ c, holds' c ↔ c ≠ o ∧ holds c)
    (hqueued : ∀ c, queued' c ↔ queued c) : Governs free holds' queued' := by
  refine ⟨fun c => ?_, List.nodup_nil, fun c => ?_⟩
  · refine iff_of_false (by simp) ?_
    rw [hholds]
    rintro ⟨hne, hc⟩
    exact hne (by simpa using ((h.owner_iff c).mpr hc).symm)
  · rw [hqueued, ← h.mem_waiting c]
    rfl

/-- The owner passes the lock to the latest waiter. -/
lemma handover (h : Governs (held o (w :: ws)) holds queued) (hholds : ∀ c, holds' c ↔ c = w)
    (hqueued : ∀ c, queued' c ↔ c ≠ w ∧ queued c) : Governs (held w ws) holds' queued' := by
  have hnodup : (w :: ws).Nodup := h.nodup
  obtain ⟨hw, hws⟩ := List.nodup_cons.mp hnodup
  refine ⟨fun c => ?_, hws, fun c => ?_⟩
  · rw [hholds, owner_held, Option.some_inj, eq_comm]
  · rw [hqueued, ← h.mem_waiting c]
    constructor
    · intro hc
      exact ⟨fun hcw => hw (hcw ▸ hc), List.mem_cons_of_mem w hc⟩
    · rintro ⟨hne, hc⟩
      exact (List.mem_cons.mp hc).resolve_left hne

/-- The owner leaves the lock to `a`, who did not queue for it. -/
lemma pass (h : Governs (held o ws) holds queued) (hholds : ∀ c, holds' c ↔ c = a)
    (hqueued : ∀ c, queued' c ↔ queued c) : Governs (held a ws) holds' queued' := by
  refine ⟨fun c => ?_, h.nodup, fun c => (h.mem_waiting c).trans (hqueued c).symm⟩
  rw [hholds, owner_held, Option.some_inj, eq_comm]

end Governs

variable [DecidableEq ι]

/-- The lock as a machine. -/
def machine : Machine (HandoverLock ι) (Act ι) where
  start := free
  step
    | free, .acquire c => some (held c [])
    | held o ws, .enqueue c => some (held o (c :: ws))
    | held o [], .release c => if o = c then some free else none
    | held o (w :: ws), .handover c => if o = c then some (held w ws) else none
    | _, _ => none

end HandoverLock

end Foundations
