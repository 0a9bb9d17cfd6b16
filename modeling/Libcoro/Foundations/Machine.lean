import Mathlib

/-!
# Machines, runs and invariants

A `Machine` is a start state together with a partial step function: a label says
who moves and how every free choice of that move is resolved, and `none` means
that the labelled move is not enabled.  An interleaving of concurrent agents is
then nothing but a list of labels, so a schedule can be executed (`Machine.run`)
and quantified over (`Machine.Path`) alike.

`Machine.Path G s t` carries a guard `G` on the steps of the run, read in the state
*before* each step.  The unguarded reachability of the system is the case where
the guard is trivial, and a guarded run is a run (`Path.mono`).

The rules below are the only places where a run is taken apart: an invariant is
proved for one step and lifted by `ReachableUnder.invariant`.
-/

namespace Foundations

/-! ## Small index types

Schedules name their agents by numerals of `Fin n`.  With these instances such a numeral refers to a
fact by name and carries no proof of its own. -/

instance neZeroOne : NeZero 1 := ⟨Nat.one_ne_zero⟩

instance neZeroTwo : NeZero 2 := ⟨Nat.succ_ne_zero 1⟩

instance neZeroThree : NeZero 3 := ⟨Nat.succ_ne_zero 2⟩

instance neZeroFour : NeZero 4 := ⟨Nat.succ_ne_zero 3⟩

/-! ## Machines and their runs -/

/-- A state machine with labelled steps; `step s a = none` when `a` is not enabled in `s`. -/
structure Machine (σ α : Type*) where
  -- The state in which every run begins.
  start : σ
  -- What the label `a` does in the state `s`.
  step : σ → α → Option σ

namespace Machine

variable {σ α : Type*} (M : Machine σ α)

/-- Executes a schedule, stopping with `none` at the first label that is not enabled or that the
guard `G` refuses. -/
def runUnder (G : σ → α → Prop) [∀ s a, Decidable (G s a)] : σ → List α → Option σ
  | s, [] => some s
  | s, a :: l => if G s a then (M.step s a).bind fun t => runUnder G t l else none

/-- Executes a schedule, stopping with `none` at the first label that is not enabled. -/
def run : σ → List α → Option σ :=
  M.runUnder fun _ _ => True

/-- `M.Path G s t`: some run leads from `s` to `t`, and each of its steps satisfies the
guard `G` in the state in which it is taken. -/
inductive Path (G : σ → α → Prop) : σ → σ → Prop
  | refl (s : σ) : Path G s s
  | tail {s t r : σ} {a : α} : Path G s t → G t a → M.step t a = some r → Path G s r

/-- The states that a run guarded by `G` can reach from the start. -/
def ReachableUnder (G : σ → α → Prop) (s : σ) : Prop :=
  M.Path G M.start s

/-- The states that some run reaches from the start. -/
def Reachable (s : σ) : Prop :=
  M.ReachableUnder (fun _ _ => True) s

variable {M}

namespace Path

variable {G H : σ → α → Prop} {s t r : σ}

/-- A guarded run meets every weaker guard. -/
lemma mono (h : M.Path G s t) (hGH : ∀ s a, G s a → H s a) : M.Path H s t := by
  induction h with
  | refl => exact .refl _
  | tail _ hG hstep ih => exact .tail ih (hGH _ _ hG) hstep

/-- Runs compose. -/
lemma trans (h : M.Path G s t) (h' : M.Path G t r) : M.Path G s r := by
  induction h' with
  | refl => exact h
  | tail _ hG hstep ih => exact .tail ih hG hstep

/-- A predicate that every guarded step preserves is preserved by every guarded run. -/
lemma invariant {I : σ → Prop} (h : M.Path G s t) (hs : I s)
    (hstep : ∀ s a t, I s → G s a → M.step s a = some t → I t) : I t := by
  induction h with
  | refl => exact hs
  | tail _ hG hst ih => exact hstep _ _ _ ih hG hst

end Path

namespace ReachableUnder

variable {G : σ → α → Prop} {s t : σ}

/-- A guarded run is a run. -/
lemma reachable (h : M.ReachableUnder G s) : M.Reachable s :=
  Path.mono h fun _ _ _ => trivial

/-- One more guarded step. -/
lemma tail {a : α} (h : M.ReachableUnder G s) (hG : G s a) (hstep : M.step s a = some t) :
    M.ReachableUnder G t :=
  Path.tail h hG hstep

/-- The invariant rule.  The step case may use that its source is itself reachable, and with
that every invariant established before. -/
lemma invariant {I : σ → Prop} (h : M.ReachableUnder G s) (h0 : I M.start)
    (hstep : ∀ s a t, M.ReachableUnder G s → I s → G s a → M.step s a = some t → I t) :
    I s := by
  induction h with
  | refl => exact h0
  | tail hp hG hst ih => exact hstep _ _ _ hp ih hG hst

/-- The invariant rule for the further course of a run. -/
lemma along {I : σ → Prop} (h : M.ReachableUnder G s) (hst : M.Path G s t) (hs : I s)
    (hstep : ∀ s a t, M.ReachableUnder G s → I s → G s a → M.step s a = some t → I t) : I t := by
  induction hst with
  | refl => exact hs
  | tail hp hG hst ih => exact hstep _ _ _ (h.trans hp) ih hG hst

end ReachableUnder

namespace Reachable

variable {s t : σ}

/-- The start state is reachable. -/
lemma start : M.Reachable M.start :=
  Path.refl _

/-- One more step. -/
lemma tail {a : α} (h : M.Reachable s) (hstep : M.step s a = some t) : M.Reachable t :=
  Path.tail h trivial hstep

/-- The invariant rule for unguarded runs. -/
lemma invariant {I : σ → Prop} (h : M.Reachable s) (h0 : I M.start)
    (hstep : ∀ s a t, M.Reachable s → I s → M.step s a = some t → I t) : I s :=
  ReachableUnder.invariant h h0 fun s a t hs hI _ hst => hstep s a t hs hI hst

/-- The invariant rule for the further course of an unguarded run. -/
lemma along {I : σ → Prop} (h : M.Reachable s) (hst : M.Path (fun _ _ => True) s t) (hs : I s)
    (hstep : ∀ s a t, M.Reachable s → I s → M.step s a = some t → I t) : I t :=
  ReachableUnder.along h hst hs fun s a t hs hI _ hst => hstep s a t hs hI hst

end Reachable

/-- The progress rule.  If from every state of `I` outside `Q` some step that meets the guard stays
in `I` and lowers the measure `μ`, then a guarded run leads from every state of `I` into `Q`. -/
lemma exists_path_of_measure {G : σ → α → Prop} {I Q : σ → Prop} (μ : σ → ℕ)
    (hstep : ∀ s, I s → ¬ Q s → ∃ a t, G s a ∧ M.step s a = some t ∧ I t ∧ μ t < μ s)
    {s : σ} (hs : I s) : ∃ t, M.Path G s t ∧ I t ∧ Q t := by
  induction hk : μ s using Nat.strong_induction_on generalizing s with
  | _ k ih =>
    by_cases hQ : Q s
    · exact ⟨s, .refl s, hs, hQ⟩
    · obtain ⟨a, t, hG, hst, ht, hlt⟩ := hstep s hs hQ
      obtain ⟨r, hpath, hr⟩ := ih (μ t) (hk ▸ hlt) ht rfl
      exact ⟨r, (Path.tail (.refl s) hG hst).trans hpath, hr⟩

/-! ## Executed schedules -/

variable {l : List α}

/-- An executed schedule is a run that meets its guard. -/
lemma path_of_runUnder {G : σ → α → Prop} [∀ s a, Decidable (G s a)] {s t : σ}
    (h : M.runUnder G s l = some t) : M.Path G s t := by
  induction l generalizing s with
  | nil =>
    obtain rfl : s = t := by simpa [runUnder] using h
    exact .refl _
  | cons a l ih =>
    by_cases hG : G s a
    · obtain ⟨r, hr, hrun⟩ : ∃ r, M.step s a = some r ∧ M.runUnder G r l = some t := by
        simpa [runUnder, hG, Option.bind_eq_some_iff] using h
      exact (Path.tail (.refl s) hG hr).trans (ih hrun)
    · simp [runUnder, hG] at h

/-- The empty schedule does nothing. -/
@[simp] lemma run_nil (s : σ) : M.run s [] = some s := rfl

/-- A schedule is executed from its first label on. -/
lemma run_cons {a : α} {s t : σ} :
    M.run s (a :: l) = some t ↔ ∃ r, M.step s a = some r ∧ M.run r l = some t := by
  simp [run, runUnder, Option.bind_eq_some_iff]

/-- Schedules are executed one after the other. -/
lemma run_append {l' : List α} {s r t : σ} (h : M.run s l = some r) (h' : M.run r l' = some t) :
    M.run s (l ++ l') = some t := by
  induction l generalizing s with
  | nil =>
    cases h
    exact h'
  | cons a l ih =>
    obtain ⟨q, hstep, hrun⟩ := run_cons.mp h
    exact run_cons.mpr ⟨q, hstep, ih hrun⟩

/-- Two machines with the same labels that answer each of them alike from related states run every
schedule alike. -/
lemma run_rel {τ : Type*} {N : Machine τ α} {R : σ → τ → Prop}
    (hstep : ∀ {s t} a, R s t → Option.Rel R (M.step s a) (N.step t a)) {s : σ} {t : τ}
    (hst : R s t) (l : List α) : Option.Rel R (M.run s l) (N.run t l) := by
  induction l generalizing s t with
  | nil => exact .some hst
  | cons a l ih =>
    have hrel := hstep a hst
    simp only [run, runUnder, if_true]
    generalize M.step s a = x at hrel ⊢
    generalize N.step t a = y at hrel ⊢
    cases hrel with
    | none => exact .none
    | some hst' => exact ih hst'

/-- What a guarded schedule executed from the start reaches is reachable under the guard. -/
lemma reachableUnder_of_run {G : σ → α → Prop} [∀ s a, Decidable (G s a)] {s : σ}
    (h : M.runUnder G M.start l = some s) : M.ReachableUnder G s :=
  path_of_runUnder h

/-- What a schedule executed from the start reaches is reachable. -/
lemma reachable_of_run {s : σ} (h : M.run M.start l = some s) : M.Reachable s :=
  path_of_runUnder h

/-! ## Simulation -/

/-- `R` simulates `M` by `N`: related states start together, and each step of `M` is answered
by `N` with one step or by standing still. -/
structure Simulation {τ β : Type*} (M : Machine σ α) (N : Machine τ β)
    (R : σ → τ → Prop) : Prop where
  -- The start states are related.
  start : R M.start N.start
  -- A step of `M` from a related pair leads to a related pair.
  step : ∀ {s : σ} {a : α} {s' : σ} {t : τ}, R s t → M.step s a = some s' →
    R s' t ∨ ∃ b t', N.step t b = some t' ∧ R s' t'

/-- Every state a simulated machine reaches is related to one the simulating machine reaches. -/
lemma Simulation.exists_reachable {τ β : Type*} {N : Machine τ β}
    {R : σ → τ → Prop} (hR : Simulation M N R) {s : σ} (h : M.Reachable s) :
    ∃ t, N.Reachable t ∧ R s t := by
  refine h.invariant (I := fun s => ∃ t, N.Reachable t ∧ R s t)
    ⟨N.start, Reachable.start, hR.start⟩ ?_
  rintro s a s' _ ⟨t, ht, hst⟩ hstep
  rcases hR.step hst hstep with hstay | ⟨b, t', hb, hst'⟩
  · exact ⟨t, ht, hstay⟩
  · exact ⟨t', ht.tail hb, hst'⟩

end Machine

end Foundations
