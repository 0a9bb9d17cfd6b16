import Libcoro.ThreadPool.Accounting

/-!
# Rejected submissions

A submission that the pool rejects gives back what it had in `m_size`, except that
`spawn_detached` counts its coroutine before it calls `resume` and does not undo this when
`resume` returns false.
-/

namespace Libcoro.ThreadPool

open Foundations

variable {κ ω : Type*}

/-- The submissions that a call is about. -/
def Action.calls : Action κ ω → List κ
  | .schedule k | .spawnDetached k | .resume k _ => [k]
  | .resumeRange _ handles => handles.map Prod.fst
  | _ => []

/-- The submission is rejected, or on its way to be unless the pool still accepts it. -/
def Pc.Doomed : Pc κ ω → Prop
  | .scheduleCheck | .scheduleUndo | .resumeUndo | .pendingNull _ | .rejected => True
  | _ => False

/-- The action does not call the submission `k` in a way that dooms it: not by `schedule()`, and
not with an invalid handle. -/
def Action.Sparing (k : κ) : Action κ ω → Prop
  | .schedule j => j ≠ k
  | .resume j h => j = k → h = .ready
  | .resumeRange _ handles => k ∉ nullsOf handles
  | _ => True

/-- No `spawn_detached` finds that a shutdown was requested when it calls `resume`. -/
def SpawnsInTime (s : State κ ω) : Action κ ω → Prop
  | .advance k => s.pc k = .resumeCheck → s.spawned k = true → s.mShutdownRequested = false
  | _ => True

instance [DecidableEq κ] [DecidableEq ω] (s : State κ ω) (a : Action κ ω) :
    Decidable (SpawnsInTime s a) := by
  unfold SpawnsInTime
  split <;> infer_instance

/-- Every accepted submission has been executed to its end and nothing is in progress. -/
def State.Settled (s : State κ ω) : Prop :=
  ∀ k, s.pc k = .idle ∨ s.pc k = .rejected ∨
    (s.pc k = .done ∧ (s.spawned k = true → s.finished k = true))

/-- What a step can do to one submission `k`. -/
inductive Move (s : State κ ω) (k : κ) (a : Action κ ω) : Pc κ ω → Pc κ ω → Prop
  | stay (c : Pc κ ω) : Move s k a c c
  | call {c : Pc κ ω} : k ∈ a.calls → (a.Sparing k → ¬ c.Doomed) → Move s k a .idle c
  | reject : a = .advance k → s.mShutdownRequested = true → Move s k a .resumeCheck .resumeUndo
  | doomed {c c' : Pc κ ω} : c.Doomed → Move s k a c c'
  | forward {c c' : Pc κ ω} : c ≠ .idle → ¬ c'.Doomed → Move s k a c c'

namespace Move

variable {s : State κ ω} {a : Action κ ω} {k : κ} {c c' : Pc κ ω}

/-- Nobody moves a submission that has not been called. -/
lemma eq_idle (h : Move s k a .idle c) (hk : k ∉ a.calls) : c = .idle := by
  cases h with
  | stay => rfl
  | call hcall _ => exact (hk hcall).elim
  | doomed hd => exact hd.elim
  | forward hne _ => exact (hne rfl).elim

/-- A submission is doomed only by its call, or because of a shutdown. -/
lemma not_doomed (h : Move s k a c c') (hc : ¬ c.Doomed) (hsparing : a.Sparing k)
    (hcheck : a = .advance k → c = .resumeCheck → s.mShutdownRequested = false) : ¬ c'.Doomed := by
  cases h with
  | stay => exact hc
  | call _ hd => exact hd hsparing
  | reject ha hf => simp [hcheck ha rfl] at hf
  | doomed hd => exact (hc hd).elim
  | forward _ hd => exact hd

variable [DecidableEq κ]

/-- Only the submission `j` moves. -/
lemma update {j : κ} (h : j = k → Move s k a (s.pc k) c) :
    Move s k a (s.pc k) (Function.update s.pc j c k) := by
  by_cases hkj : k = j
  · subst hkj
    simpa using h rfl
  · simpa [hkj] using stay (s.pc k)

/-- Only the submissions on the list move. -/
lemma updateAll {ks : List κ} (h : k ∈ ks → Move s k a (s.pc k) c) :
    Move s k a (s.pc k) (if k ∈ ks then c else s.pc k) := by
  split_ifs with hmem
  · exact h hmem
  · exact stay _

end Move

variable [DecidableEq κ] [DecidableEq ω]

/-- Every step is a move of each submission. -/
lemma Transition.move {s s' : State κ ω} {a : Action κ ω} (hcustody : s.Custody)
    (ht : Transition s a s') (k : κ) : Move s k a (s.pc k) (s'.pc k) := by
  cases ht with
  | @schedule j hj =>
    refine Move.update ?_
    rintro rfl
    exact hj ▸ .call (by simp [Action.calls]) fun hs => (hs rfl).elim
  | @scheduleAccept j hj _ | @scheduleReject j hj _ | @scheduleUndo j hj | @resumeUndo j hj =>
    refine Move.update ?_
    rintro rfl
    exact .doomed (by simp [hj, Pc.Doomed])
  | @await j hj | @spawnResume j hj | @resumeAccept j hj _ =>
    refine Move.update ?_
    rintro rfl
    exact .forward (by simp [hj]) (by simp [Pc.Doomed])
  | @spawnDetached j hj | @resume j hj =>
    refine Move.update ?_
    rintro rfl
    exact hj ▸ .call (by simp [Action.calls]) (by simp [Pc.Doomed])
  | @resumeInvalid j handle hj hh =>
    refine Move.update ?_
    rintro rfl
    exact hj ▸ .call (by simp [Action.calls]) fun hs => (hh (hs rfl)).elim
  | @resumeReject j hj hf =>
    refine Move.update ?_
    rintro rfl
    exact hj ▸ .reject rfl hf
  | @enqueue j hj =>
    refine Move.updateAll fun hmem => ?_
    obtain rfl := List.mem_singleton.mp hmem
    exact .forward (by simp [hj]) (by simp [Pc.Doomed])
  | @resumeRange r hs hr hnd hidle =>
    change Move s k _ (s.pc k)
      (if k ∈ nullsOf hs then .pendingNull r else if k ∈ handlesOf hs then .pending r else s.pc k)
    by_cases hnull : k ∈ nullsOf hs
    · have hmem : k ∈ hs.map Prod.fst := mem_map_fst_iff.mpr (Or.inr hnull)
      rw [if_pos hnull, hidle k hmem]
      exact .call hmem fun hsparing => (hsparing hnull).elim
    · rw [if_neg hnull]
      refine Move.updateAll fun hhandle => ?_
      have hmem : k ∈ hs.map Prod.fst := mem_map_fst_iff.mpr (Or.inl hhandle)
      rw [hidle k hmem]
      exact .call hmem (by simp [Pc.Doomed])
  | @emplaceRange r hs hr =>
    refine Move.updateAll fun hmem => .forward ?_ (by simp [Pc.Doomed])
    rw [hcustody.pc_eq (p := .pending r)
      (by simpa [State.contents, hr, RangePc.handles] using hmem)]
    simp [Place.pc]
  | @undoRange r hs hr =>
    refine Move.updateAll fun hmem => .doomed ?_
    rw [hcustody.pc_eq (p := .pendingNull r)
      (by simpa [State.contents, hr, RangePc.nulls] using hmem)]
    trivial
  | @take w j rest drain hw hq =>
    refine Move.update ?_
    rintro rfl
    refine .forward ?_ (by simp [Pc.Doomed])
    rw [hcustody.pc_eq (p := .queue) (by simp [State.contents, hq])]
    simp [Place.pc]
  | @run w j drain hw =>
    refine Move.update ?_
    rintro rfl
    refine .forward ?_ (by simp [Pc.Doomed])
    rw [hcustody.pc_eq (p := .taken w) (by simp [State.contents, hw, WorkerPc.hand])]
    simp [Place.pc]
  | @sub w j drain hw =>
    refine Move.update ?_
    rintro rfl
    refine .forward ?_ (by simp [Pc.Doomed])
    rw [hcustody.pc_eq (p := .executing w) (by simp [State.contents, hw, WorkerPc.executes])]
    simp [Place.pc]
  | _ => exact .stay _

/-- Only `spawn_detached` makes a spawned submission. -/
lemma Transition.spawned_eq {s s' : State κ ω} {a : Action κ ω} (ht : Transition s a s') {k : κ}
    (ha : a ≠ .spawnDetached k) : s'.spawned k = s.spawned k := by
  cases ht with
  | @spawnDetached j hj =>
    have hkj : k ≠ j := fun heq => ha (by rw [heq])
    simp [hkj]
  | _ => rfl

/-- Only calls increment `m_size`, `spawn_detached` for a second time when it calls `resume`. -/
lemma Transition.mSize_le {s s' : State κ ω} {a : Action κ ω} (ht : Transition s a s')
    (hcalls : a.calls = []) (hadvance : ∀ k, a = .advance k → s.pc k ≠ .spawnResume) :
    s'.mSize ≤ s.mSize := by
  cases ht with
  | schedule _ | spawnDetached _ | resume _ => simp [Action.calls] at hcalls
  | spawnResume hk => exact (hadvance _ rfl hk).elim
  | @resumeRange r hs _ _ _ =>
    have hnil : hs.map Prod.fst = [] := hcalls
    simp [hnil]
  | scheduleUndo _ | resumeUndo _ | undoRange _ | sub _ | finalSuspend _ _ _ => exact Nat.sub_le _ _
  | _ => exact le_rfl

/-- In a run without late calls of `spawn_detached` no spawned submission is doomed. -/
lemma not_doomed_of_reachable {s : State κ ω} (h : (machine κ ω).ReachableUnder SpawnsInTime s) :
    ∀ k, s.spawned k = true → ¬ (s.pc k).Doomed := by
  refine h.invariant (I := fun s => ∀ k, s.spawned k = true → ¬ (s.pc k).Doomed)
    (by simp [machine, start]) fun s a s' hreach hs hG hstep k hk => ?_
  obtain ⟨hcustody, hledger⟩ := accounts_of_reachable hreach.reachable
  have ht := step_transition hstep
  by_cases ha : a = .spawnDetached k
  · subst ha
    cases ht with
    | spawnDetached hj => simp [Pc.Doomed]
  · rw [ht.spawned_eq ha] at hk
    -- a spawned submission has been called before and is not called again
    have hcalled : s.pc k ≠ .idle := fun hidle => by simp [hledger.unspawned k hidle] at hk
    have hsparing : a.Sparing k := by
      cases ht with
      | schedule hj =>
        rintro rfl
        exact hcalled hj
      | resume hj => exact fun _ => rfl
      | resumeInvalid hj _ =>
        rintro rfl
        exact (hcalled hj).elim
      | resumeRange _ _ hidle =>
        exact fun hmem => hcalled (hidle k (mem_map_fst_iff.mpr (Or.inr hmem)))
      | _ => trivial
    refine (ht.move hcustody k).not_doomed (hs k hk) hsparing ?_
    rintro rfl hc
    exact hG hc hk

/-- A submission that is rejected, or executed to its end, has nothing in `m_size` if it was not
spawned or has finished. -/
lemma charge_eq_zero {s : State κ ω} (h : (machine κ ω).Reachable s) {k : κ}
    (hk : (s.pc k).units = 0) (hspawned : s.spawned k = true → s.finished k = true) :
    s.charge k = 0 := by
  rw [(accounts_of_reachable h).2.charge k, hk]
  cases hs : s.spawned k with
  | false => simp [hs]
  | true => simp [hspawned hs]

lemma charge_rejected {s : State κ ω} (h : (machine κ ω).ReachableUnder SpawnsInTime s) {k : κ}
    (hk : s.pc k = .rejected) : s.charge k = 0 := by
  refine charge_eq_zero h.reachable (by simp [hk, Pc.units]) fun hs => ?_
  exact (not_doomed_of_reachable h k hs (by simp [hk, Pc.Doomed])).elim

/-- Once every accepted submission has finished, nothing is left in `m_size`. -/
lemma mSize_settled {s : State κ ω} (h : (machine κ ω).ReachableUnder SpawnsInTime s)
    (hsettled : s.Settled) : s.mSize = 0 := by
  have hledger := (accounts_of_reachable h.reachable).2
  refine hledger.tally.of_eq_zero fun k => ?_
  rcases hsettled k with hidle | hrejected | ⟨hdone, hfinished⟩
  · exact charge_eq_zero h.reachable (by simp [hidle, Pc.units])
      fun hs => by simp [hledger.unspawned k hidle] at hs
  · exact charge_rejected h hrejected
  · exact charge_eq_zero h.reachable (by simp [hdone, Pc.units]) hfinished

end Libcoro.ThreadPool
