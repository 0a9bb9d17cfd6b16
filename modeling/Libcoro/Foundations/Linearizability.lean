import Libcoro.Foundations.Machine

/-!
# Linearizable objects

An `Object` says what its operations do when they are executed one after the other.  Agents call
operations at the same time; a history lists the calls and the returns in the order in which they
happen.  `Linearizes O H log` says that the history `H` can be explained by the sequential execution
`log`: it is one that the object allows, it has every operation once and with the result that it has
returned, and an operation that has returned before another one was called comes before it.

`Object.machine` executes the operations of any number of agents, each of them at one moment between
its call and its return.  The order of these moments explains every history of that machine
(`Recorded.linearizes`), and with it those of every machine that it simulates.
-/

namespace Foundations

open Function

/-- What the operations of an object do and return, one after the other. -/
structure Object (Op Res σ : Type*) where
  start : σ
  apply : σ → Op → σ × Res

/-- An operation is called, or it returns. -/
inductive Event (ι Op Res : Type*) where
  | call (i : ι) (op : Op)
  | ret (i : ι) (r : Res)
  deriving DecidableEq, Repr

/-- An operation in a sequential execution, with its result. -/
structure Entry (ι Op Res : Type*) where
  id : ι
  op : Op
  res : Res
  deriving DecidableEq, Repr

variable {Op Res σ ι τ : Type*}

/-- The object allows the sequential execution `log`, which leads to the value `z`. -/
inductive Object.Runs (O : Object Op Res σ) : List (Entry ι Op Res) → σ → Prop
  | nil : Runs O [] O.start
  | snoc {log : List (Entry ι Op Res)} {z : σ} {i : ι} {op : Op} : Runs O log z →
      Runs O (log ++ [⟨i, op, (O.apply z op).2⟩]) (O.apply z op).1

/-- The sequential execution `log` explains the history `H`. -/
structure Linearizes (O : Object Op Res σ) (H : List (Event ι Op Res))
    (log : List (Entry ι Op Res)) : Prop where
  -- The object allows it.
  legal : ∃ z, O.Runs log z
  -- Every operation takes effect once, after it has been called.
  once : (log.map Entry.id).Nodup
  called : ∀ e ∈ log, .call e.id e.op ∈ H
  -- Every operation that has returned has taken effect, with that result.
  returned : ∀ i r, .ret i r ∈ H → ∃ op, ⟨i, op, r⟩ ∈ log
  -- An operation that has returned before another one was called has taken effect before it.
  order : ∀ d ∈ log, ∀ e ∈ log, ∀ r op, List.Sublist [.ret d.id r, .call e.id op] H →
    List.Sublist [d, e] log

/-- Every operation that was called has returned. -/
def Completed (H : List (Event ι Op Res)) : Prop :=
  ∀ i op, .call i op ∈ H → ∃ r, .ret i r ∈ H

/-- No operation was called twice. -/
def CalledOnce (H : List (Event ι Op Res)) : Prop :=
  ∀ i op op', .call i op ∈ H → .call i op' ∈ H → op = op'

/-- A completed history and the execution that explains it have the same operations and results. -/
lemma Linearizes.mem_iff {O : Object Op Res σ} {H : List (Event ι Op Res)}
    {log : List (Entry ι Op Res)} (h : Linearizes O H log) (hH : Completed H) (honce : CalledOnce H)
    {i : ι} {op : Op} {r : Res} : ⟨i, op, r⟩ ∈ log ↔ .call i op ∈ H ∧ .ret i r ∈ H := by
  constructor
  · intro hmem
    have hcall := h.called _ hmem
    obtain ⟨r', hret⟩ := hH i op hcall
    obtain ⟨op', hmem'⟩ := h.returned i r' hret
    have heq := List.inj_on_of_nodup_map h.once hmem hmem' rfl
    obtain rfl : r = r' := congrArg Entry.res heq
    exact ⟨hcall, hret⟩
  · rintro ⟨hcall, hret⟩
    obtain ⟨op', hmem⟩ := h.returned i r hret
    obtain rfl := honce i op op' hcall (h.called _ hmem)
    exact hmem

/-! ## The object itself -/

/-- What an agent does: nothing, or it has called an operation, which has or has not taken effect.
-/
inductive Status (Op Res : Type*) where
  | idle
  | called (op : Op)
  | committed (op : Op) (r : Res)
  deriving DecidableEq, Repr

/-- The value of the object and its agents; the `k`-th operation of the agent `t` is named
`(t, k)`. -/
structure Atomic (τ Op Res σ : Type*) where
  value : σ
  status : τ → Status Op Res
  finished : τ → ℕ
  history : List (Event (τ × ℕ) Op Res)
  log : List (Entry (τ × ℕ) Op Res)

/-- An agent calls an operation, its operation takes effect, or it returns. -/
inductive AtomicAction (τ Op : Type*) where
  | call (t : τ) (op : Op)
  | commit (t : τ)
  | ret (t : τ)

namespace Object

variable (O : Object Op Res σ) [DecidableEq τ]

/-- One step of the object and its agents. -/
def step (s : Atomic τ Op Res σ) : AtomicAction τ Op → Option (Atomic τ Op Res σ)
  | .call t op =>
    match s.status t with
    | .idle =>
      some { s with
        status := update s.status t (.called op)
        history := s.history ++ [.call (t, s.finished t) op] }
    | _ => none
  | .commit t =>
    match s.status t with
    | .called op =>
      some { s with
        value := (O.apply s.value op).1
        status := update s.status t (.committed op (O.apply s.value op).2)
        log := s.log ++ [⟨(t, s.finished t), op, (O.apply s.value op).2⟩] }
    | _ => none
  | .ret t =>
    match s.status t with
    | .committed _ r =>
      some { s with
        status := update s.status t .idle
        finished := update s.finished t (s.finished t + 1)
        history := s.history ++ [.ret (t, s.finished t) r] }
    | _ => none

/-- An object that executes the operations of its agents, each at one moment. -/
def machine (τ : Type*) [DecidableEq τ] : Machine (Atomic τ Op Res σ) (AtomicAction τ Op) where
  start :=
    { value := O.start
      status := fun _ => .idle
      finished := fun _ => 0
      history := []
      log := [] }
  step := O.step

variable {O} {s s' : Atomic τ Op Res σ} {t : τ} {op : Op} {r : Res}

lemma step_call (h : s.status t = .idle) :
    O.step s (.call t op) = some { s with
      status := update s.status t (.called op)
      history := s.history ++ [.call (t, s.finished t) op] } := by
  simp only [step, h]

lemma step_commit (h : s.status t = .called op) :
    O.step s (.commit t) = some { s with
      value := (O.apply s.value op).1
      status := update s.status t (.committed op (O.apply s.value op).2)
      log := s.log ++ [⟨(t, s.finished t), op, (O.apply s.value op).2⟩] } := by
  simp only [step, h]

lemma step_ret (h : s.status t = .committed op r) :
    O.step s (.ret t) = some { s with
      status := update s.status t .idle
      finished := update s.finished t (s.finished t + 1)
      history := s.history ++ [.ret (t, s.finished t) r] } := by
  simp only [step, h]

end Object

/-! ## The log explains the history -/

/-- A pair of elements of a list in this order, when the list has grown by one. -/
lemma pair_sublist_concat {α : Type*} {a b c : α} {l : List α} :
    List.Sublist [a, b] (l ++ [c]) ↔ List.Sublist [a, b] l ∨ a ∈ l ∧ b = c := by
  constructor
  · intro h
    obtain ⟨l₁, l₂, heq, h₁, h₂⟩ := List.sublist_append_iff.mp h
    rcases List.sublist_singleton.mp h₂ with rfl | rfl
    · rw [List.append_nil] at heq
      exact Or.inl (heq ▸ h₁)
    · obtain ⟨rfl, hbc⟩ : l₁ = [a] ∧ c = b := by
        rw [show [a, b] = [a] ++ [b] from rfl] at heq
        simpa using (List.append_inj' heq rfl).imp Eq.symm fun h => by simpa using h.symm
      exact Or.inr ⟨List.singleton_sublist.mp h₁, hbc.symm⟩
  · rintro (h | ⟨ha, rfl⟩)
    · exact h.trans (List.sublist_append_left l [c])
    · exact List.Sublist.append (List.singleton_sublist.mpr ha) (List.Sublist.refl [b])

/-- The books of the object: what its agents are doing, the history and the log agree. -/
structure Recorded (O : Object Op Res σ) (s : Atomic τ Op Res σ) : Prop where
  runs : O.Runs s.log s.value
  calls : ∀ t k op, .call (t, k) op ∈ s.history →
    k < s.finished t ∨ k = s.finished t ∧
      (s.status t = .called op ∨ ∃ r, s.status t = .committed op r)
  called : ∀ t op, s.status t = .called op → .call (t, s.finished t) op ∈ s.history
  committed : ∀ t op r, s.status t = .committed op r → ⟨(t, s.finished t), op, r⟩ ∈ s.log
  logged : ∀ e ∈ s.log, .call e.id e.op ∈ s.history ∧ (e.id.2 < s.finished e.id.1 ∨
    e.id.2 = s.finished e.id.1 ∧ s.status e.id.1 = .committed e.op e.res)
  rets : ∀ t k r, .ret (t, k) r ∈ s.history → k < s.finished t ∧ ∃ op, ⟨(t, k), op, r⟩ ∈ s.log
  callsOnce : CalledOnce s.history
  once : (s.log.map Entry.id).Nodup
  order : ∀ d ∈ s.log, ∀ e ∈ s.log, ∀ r op,
    List.Sublist [.ret d.id r, .call e.id op] s.history → List.Sublist [d, e] s.log

namespace Recorded

variable {O : Object Op Res σ} {s : Atomic τ Op Res σ} {t : τ} {op : Op} {r : Res}

/-- What the log and the history say about the operation that an agent is in. -/
lemma not_logged (h : Recorded O s) (ht : ∀ op r, s.status t ≠ .committed op r)
    {e : Entry (τ × ℕ) Op Res} (he : e ∈ s.log) : e.id ≠ (t, s.finished t) := by
  intro hid
  obtain ⟨-, hlt | ⟨-, hc⟩⟩ := h.logged e he
  · simp [hid] at hlt
  · rw [hid] at hc
    exact ht _ _ hc

/-- The books explain the history. -/
lemma linearizes (h : Recorded O s) : Linearizes O s.history s.log :=
  ⟨⟨_, h.runs⟩, h.once, fun e he => (h.logged e he).1, fun i r hr => (h.rets i.1 i.2 r hr).2,
    h.order⟩

variable [DecidableEq τ]

/-- An agent calls an operation. -/
lemma call (h : Recorded O s) (ht : s.status t = .idle) (op : Op) :
    Recorded O { s with
      status := update s.status t (.called op)
      history := s.history ++ [.call (t, s.finished t) op] } := by
  have hidle : ∀ op r, s.status t ≠ .committed op r := by simp [ht]
  -- the operation is a new one
  have hnew : ∀ op', .call (t, s.finished t) op' ∉ s.history := by
    intro op' hmem
    rcases h.calls t _ op' hmem with hlt | ⟨-, hc | ⟨r, hc⟩⟩
    · exact lt_irrefl _ hlt
    · simp [ht] at hc
    · simp [ht] at hc
  refine ⟨h.runs, ?_, ?_, ?_, ?_, ?_, ?_, h.once, ?_⟩
  · intro t' k op' hmem
    rcases List.mem_append.mp hmem with hold | hlast
    · rcases eq_or_ne t' t with rfl | hne
      · rcases h.calls t' k op' hold with hlt | ⟨rfl, -⟩
        · exact Or.inl hlt
        · exact (hnew op' hold).elim
      · simpa [hne] using h.calls t' k op' hold
    · obtain ⟨⟨rfl, rfl⟩, rfl⟩ : (t' = t ∧ k = s.finished t) ∧ op' = op := by simpa using hlast
      exact Or.inr ⟨rfl, Or.inl (update_self ..)⟩
  · intro t' op' hc
    rcases eq_or_ne t' t with rfl | hne
    · obtain rfl : op = op' := by simpa using hc
      exact List.mem_append_right _ List.mem_cons_self
    · exact List.mem_append_left _ (h.called t' op' (by simpa [hne] using hc))
  · intro t' op' r' hc
    rcases eq_or_ne t' t with rfl | hne
    · simp at hc
    · exact h.committed t' op' r' (by simpa [hne] using hc)
  · intro e he
    obtain ⟨hcall, hstate⟩ := h.logged e he
    refine ⟨List.mem_append_left _ hcall, ?_⟩
    rcases eq_or_ne e.id.1 t with heq | hne
    · exact hstate.imp_right fun hc => (hidle _ _ (heq ▸ hc.2)).elim
    · simpa [hne] using hstate
  · intro t' k r' hmem
    exact h.rets t' k r' (by simpa using hmem)
  · intro i op₁ op₂ h₁ h₂
    rcases List.mem_append.mp h₁ with hold₁ | hlast₁ <;>
      rcases List.mem_append.mp h₂ with hold₂ | hlast₂
    · exact h.callsOnce i op₁ op₂ hold₁ hold₂
    · obtain ⟨rfl, -⟩ : i = (t, s.finished t) ∧ op₂ = op := by simpa using hlast₂
      exact (hnew op₁ hold₁).elim
    · obtain ⟨rfl, -⟩ : i = (t, s.finished t) ∧ op₁ = op := by simpa using hlast₁
      exact (hnew op₂ hold₂).elim
    · obtain ⟨-, h₁⟩ : i = (t, s.finished t) ∧ op₁ = op := by simpa using hlast₁
      obtain ⟨-, h₂⟩ : i = (t, s.finished t) ∧ op₂ = op := by simpa using hlast₂
      exact h₁.trans h₂.symm
  · intro d hd e he r' op' hsub
    rcases pair_sublist_concat.mp hsub with hold | ⟨-, hlast⟩
    · exact h.order d hd e he r' op' hold
    · obtain ⟨hid, -⟩ : e.id = (t, s.finished t) ∧ op' = op := by simpa using hlast
      exact (h.not_logged hidle he hid).elim

/-- The operation of an agent takes effect. -/
lemma commit (h : Recorded O s) (ht : s.status t = .called op) :
    Recorded O { s with
      value := (O.apply s.value op).1
      status := update s.status t (.committed op (O.apply s.value op).2)
      log := s.log ++ [⟨(t, s.finished t), op, (O.apply s.value op).2⟩] } := by
  have hopen : ∀ op r, s.status t ≠ .committed op r := by simp [ht]
  -- the operation has not returned
  have hnot : ∀ r', .ret (t, s.finished t) r' ∉ s.history := fun r' hmem =>
    lt_irrefl _ (h.rets t _ r' hmem).1
  refine ⟨.snoc h.runs, ?_, ?_, ?_, ?_, ?_, h.callsOnce, ?_, ?_⟩
  · intro t' k op' hmem
    have hold := h.calls t' k op' hmem
    rcases eq_or_ne t' t with rfl | hne
    · refine hold.imp_right fun hc => ⟨hc.1, Or.inr ?_⟩
      obtain rfl : op = op' := by simpa [ht] using hc.2
      exact ⟨_, update_self ..⟩
    · simpa [hne] using hold
  · intro t' op' hc
    rcases eq_or_ne t' t with rfl | hne
    · simp at hc
    · exact h.called t' op' (by simpa [hne] using hc)
  · intro t' op' r' hc
    rcases eq_or_ne t' t with rfl | hne
    · obtain ⟨rfl, rfl⟩ : op = op' ∧ (O.apply s.value op).2 = r' := by simpa using hc
      exact List.mem_append_right _ List.mem_cons_self
    · exact List.mem_append_left _ (h.committed t' op' r' (by simpa [hne] using hc))
  · intro e he
    rcases List.mem_append.mp he with hold | hlast
    · obtain ⟨hcall, hstate⟩ := h.logged e hold
      refine ⟨hcall, ?_⟩
      rcases eq_or_ne e.id.1 t with heq | hne
      · exact hstate.imp_right fun hc => (hopen _ _ (heq ▸ hc.2)).elim
      · simpa [hne] using hstate
    · obtain rfl := List.mem_singleton.mp hlast
      exact ⟨h.called t op ht, Or.inr ⟨rfl, update_self ..⟩⟩
  · intro t' k r' hmem
    obtain ⟨hlt, op', hop⟩ := h.rets t' k r' hmem
    exact ⟨hlt, op', List.mem_append_left _ hop⟩
  · rw [List.map_append, List.nodup_append']
    refine ⟨h.once, List.nodup_singleton _, fun i hi hi' => ?_⟩
    obtain ⟨e, he, rfl⟩ := List.mem_map.mp hi
    exact h.not_logged hopen he (by simpa using hi')
  · intro d hd e he r' op' hsub
    have hret : .ret d.id r' ∈ s.history := hsub.subset List.mem_cons_self
    rcases List.mem_append.mp hd with hd | hd
    · rcases List.mem_append.mp he with he | he
      · exact pair_sublist_concat.mpr (Or.inl (h.order d hd e he r' op' hsub))
      · exact pair_sublist_concat.mpr (Or.inr ⟨hd, List.mem_singleton.mp he⟩)
    · obtain rfl := List.mem_singleton.mp hd
      exact (hnot r' hret).elim

/-- An agent returns from its operation. -/
lemma ret (h : Recorded O s) (ht : s.status t = .committed op r) :
    Recorded O { s with
      status := update s.status t .idle
      finished := update s.finished t (s.finished t + 1)
      history := s.history ++ [.ret (t, s.finished t) r] } := by
  refine ⟨h.runs, ?_, ?_, ?_, ?_, ?_, ?_, h.once, ?_⟩
  · intro t' k op' hmem
    have hold := h.calls t' k op' (by simpa using hmem)
    rcases eq_or_ne t' t with rfl | hne
    · refine Or.inl ?_
      simp only [update_self]
      rcases hold with hlt | ⟨rfl, -⟩ <;> omega
    · simpa [hne] using hold
  · intro t' op' hc
    rcases eq_or_ne t' t with rfl | hne
    · simp at hc
    · have hcall := h.called t' op' (by simpa [hne] using hc)
      simpa [hne] using hcall
  · intro t' op' r' hc
    rcases eq_or_ne t' t with rfl | hne
    · simp at hc
    · simpa [hne] using h.committed t' op' r' (by simpa [hne] using hc)
  · intro e he
    obtain ⟨hcall, hstate⟩ := h.logged e he
    refine ⟨List.mem_append_left _ hcall, ?_⟩
    rcases eq_or_ne e.id.1 t with heq | hne
    · refine Or.inl ?_
      simp only [heq, update_self]
      rw [heq] at hstate
      rcases hstate with hlt | ⟨heq', -⟩ <;> omega
    · simpa [hne] using hstate
  · intro t' k r' hmem
    rcases List.mem_append.mp hmem with hold | hlast
    · obtain ⟨hlt, hop⟩ := h.rets t' k r' hold
      refine ⟨?_, hop⟩
      rcases eq_or_ne t' t with rfl | hne
      · simp only [update_self]
        omega
      · simpa [hne] using hlt
    · obtain ⟨⟨rfl, rfl⟩, rfl⟩ : (t' = t ∧ k = s.finished t) ∧ r' = r := by simpa using hlast
      exact ⟨by simp, op, h.committed t' op r' ht⟩
  · intro i op₁ op₂ h₁ h₂
    exact h.callsOnce i op₁ op₂ (by simpa using h₁) (by simpa using h₂)
  · intro d hd e he r' op' hsub
    rcases pair_sublist_concat.mp hsub with hold | ⟨-, hlast⟩
    · exact h.order d hd e he r' op' hold
    · cases hlast

end Recorded

/-- The books agree in every reachable state. -/
lemma Object.recorded_of_reachable {O : Object Op Res σ} [DecidableEq τ] {s : Atomic τ Op Res σ}
    (h : (O.machine τ).Reachable s) : Recorded O s := by
  refine h.invariant ?_ ?_
  · exact ⟨.nil, nofun, nofun, nofun, nofun, nofun, nofun, List.nodup_nil, nofun⟩
  · intro s a s' _ hs hstep
    cases a with
    | call t op =>
      simp only [machine, Object.step] at hstep
      split at hstep
      · next ht => exact Option.some.inj hstep ▸ hs.call ht op
      · cases hstep
    | commit t =>
      simp only [machine, Object.step] at hstep
      split at hstep
      · next ht => exact Option.some.inj hstep ▸ hs.commit ht
      · cases hstep
    | ret t =>
      simp only [machine, Object.step] at hstep
      split at hstep
      · next ht => exact Option.some.inj hstep ▸ hs.ret ht
      · cases hstep

end Foundations
