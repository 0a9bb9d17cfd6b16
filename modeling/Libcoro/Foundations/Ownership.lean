import Mathlib

/-!
# Claims on resources

Every resource has at most one owner, and parties claim resources on account of what they are
doing.  `Owned owner claims` says that whoever claims a resource owns it.  The lemmas are the moves
that an operation can make: a party takes a free resource, gives one back or passes it on.  Each of
them asks for the claims after the move in terms of those before; that nobody else claims the
resource that changes hands follows from its owner.
-/

namespace Foundations

variable {ρ η : Type*}

/-- Whoever claims a resource owns it. -/
def Owned (owner : ρ → Option η) (claims : η → ρ → Prop) : Prop :=
  ∀ h m, claims h m → owner m = some h

namespace Owned

variable {owner : ρ → Option η} {claims claims' : η → ρ → Prop} {a b : η} {m : ρ}

/-- No claim is new. -/
lemma mono (h : Owned owner claims) (hsub : ∀ k n, claims' k n → claims k n) :
    Owned owner claims' :=
  fun k n hk => h k n (hsub k n hk)

variable [DecidableEq ρ]

/-- The resource `m` gets the owner `o`; nobody but `o` claims it afterwards. -/
lemma update (h : Owned owner claims) (o : Option η)
    (hsub : ∀ k n, claims' k n → (claims k n ∧ n ≠ m) ∨ (o = some k ∧ n = m)) :
    Owned (Function.update owner m o) claims' := by
  intro k n hk
  rcases hsub k n hk with ⟨hold, hne⟩ | ⟨ho, rfl⟩
  · rw [Function.update_of_ne hne]
    exact h k n hold
  · rw [Function.update_self, ho]

/-- The party `a` takes the free resource `m`, which is the only new claim. -/
lemma acquire (h : Owned owner claims) (hfree : owner m = none)
    (hsub : ∀ k n, claims' k n → claims k n ∨ (k = a ∧ n = m)) :
    Owned (Function.update owner m (some a)) claims' := by
  refine h.update (some a) ?_
  intro k n hk
  rcases hsub k n hk with hold | ⟨rfl, rfl⟩
  · refine Or.inl ⟨hold, ?_⟩
    rintro rfl
    rw [h k n hold] at hfree
    cases hfree
  · exact Or.inr ⟨rfl, rfl⟩

/-- The party `a` passes the resource `m` on to `b`, or back to nobody. -/
lemma pass (h : Owned owner claims) (hown : owner m = some a) (o : Option η)
    (hsub : ∀ k n, claims' k n → (claims k n ∧ (k = a → n ≠ m)) ∨ (o = some k ∧ n = m)) :
    Owned (Function.update owner m o) claims' := by
  refine h.update o ?_
  intro k n hk
  rcases hsub k n hk with ⟨hold, hne⟩ | hnew
  · refine Or.inl ⟨hold, ?_⟩
    rintro rfl
    have heq := h k n hold
    rw [hown] at heq
    exact hne (Option.some.inj heq).symm rfl
  · exact Or.inr hnew

/-- The party `a` gives the resource `m` back. -/
lemma release (h : Owned owner claims) (hown : owner m = some a)
    (hsub : ∀ k n, claims' k n → claims k n ∧ (k = a → n ≠ m)) :
    Owned (Function.update owner m none) claims' :=
  h.pass hown none fun k n hk => Or.inl (hsub k n hk)

end Owned

end Foundations
