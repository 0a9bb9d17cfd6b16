import Libcoro.Foundations.Machine

/-!
# Channels that can be drained

A channel takes elements from producers and gives them to consumers.  `Channel` says what one
observes of it in a state of some machine, and `Channel.Lossless` what draining means: once the
channel has stopped accepting, nothing is stored any more, and when it is closed every element ever
stored has gone to one consumer.
-/

namespace Foundations

/-- What one observes of a channel in a state. -/
structure Channel (σ κ α : Type*) where
  -- The channel accepts elements.
  isOpen : σ → Prop
  -- The channel gives out no elements any more.
  isClosed : σ → Prop
  -- The elements inside, the oldest first.
  contents : σ → List α
  -- Which producer stored which element, and which consumer it was removed for, in order.
  stored : σ → List (κ × α)
  removed : σ → List (κ × α)
  -- A consumer has returned the element, or is going to.
  holds : σ → κ → α → Prop

namespace Channel

variable {σ κ α β : Type*}

/-- In the runs of `M` under the guard `G` the channel loses nothing by being drained. -/
structure Lossless (C : Channel σ κ α) (M : Machine σ β) (G : σ → β → Prop) : Prop where
  -- Nothing is stored after the channel has ceased to be open.
  shut : ∀ {s t : σ}, M.ReachableUnder G s → ¬ C.isOpen s → M.Path G s t →
    ¬ C.isOpen t ∧ C.stored t = C.stored s
  -- A closed channel is empty, and what was stored has been removed.
  empty : ∀ {s : σ}, M.ReachableUnder G s → C.isClosed s → C.contents s = []
  delivered : ∀ {s : σ}, M.ReachableUnder G s → C.isClosed s →
    (C.stored s).map Prod.snd = (C.removed s).map Prod.snd
  -- Each element removed belongs to one consumer, and a consumer has at most one of them.
  once : ∀ {s : σ}, M.ReachableUnder G s → ((C.removed s).map Prod.fst).Nodup ∧
    ∀ c e, (c, e) ∈ C.removed s ↔ C.holds s c e

/-- A channel loses nothing if no step stores into one that is not open or opens it again, and if
a closed one is empty. -/
lemma Lossless.of_step {C : Channel σ κ α} {M : Machine σ β} {G : σ → β → Prop}
    (hshut : ∀ s a t, M.ReachableUnder G s → ¬ C.isOpen s → M.step s a = some t →
      ¬ C.isOpen t ∧ C.stored t = C.stored s)
    (horder : ∀ s, M.ReachableUnder G s →
      (C.stored s).map Prod.snd = (C.removed s).map Prod.snd ++ C.contents s)
    (hempty : ∀ s, M.ReachableUnder G s → C.isClosed s → C.contents s = [])
    (honce : ∀ s, M.ReachableUnder G s → ((C.removed s).map Prod.fst).Nodup ∧
      ∀ c e, (c, e) ∈ C.removed s ↔ C.holds s c e) : C.Lossless M G := by
  refine ⟨?_, fun h => hempty _ h, ?_, fun h => honce _ h⟩
  · intro s t hs hclosed hpath
    refine hs.along (I := fun t => ¬ C.isOpen t ∧ C.stored t = C.stored s) hpath
      ⟨hclosed, rfl⟩ ?_
    rintro r a r' hr ⟨hrclosed, hrstored⟩ - hstep
    obtain ⟨hclosed', hstored'⟩ := hshut r a r' hr hrclosed hstep
    exact ⟨hclosed', hstored'.trans hrstored⟩
  · intro s hs hclosed
    rw [horder s hs, hempty s hs hclosed, List.append_nil]

end Channel

end Foundations
