import Libcoro.ThreadPool.Model

/-!
# `resume` of a range and `resume` of its handles

Two ways to hand a list of coroutines to the pool, each executed without a step of anybody else in
between: one call of `resume(range)`, and a call of `resume(handle)` for each of them.  The first
one discards null handles only.  It does not look at handles that are done, nor at the shutdown
flag, and so the two agree exactly where nothing else than null handles is refused.
-/

namespace Libcoro.ThreadPool

open Foundations Function

variable {κ ω : Type*}

/-- A call of `resume(handle)`, which takes more than one step unless it finds the handle null or
done. -/
def resumeOne : κ × Handle → List (Action κ ω)
  | (k, .ready) => [.resume k .ready, .advance k, .advance k]
  | (k, .null) => [.resume k .null]
  | (k, .done) => [.resume k .done]

/-- A call of `resume(handle)` for each handle. -/
def resumeEach (handles : List (κ × Handle)) : List (Action κ ω) :=
  handles.flatMap resumeOne

/-- What `resume(range)` sees of the handles. -/
def asRange (handles : List (κ × Handle)) : List (κ × Bool) :=
  handles.map fun x => (x.1, decide (x.2 ≠ .null))

/-- The call `r` of `resume(range)`. -/
def resumeAll (r : κ) (handles : List (κ × Handle)) : List (Action κ ω) :=
  [.resumeRange r (asRange handles), .advanceRange r, .advanceRange r]

/-- A handle that `resume(handle)` takes in, depending on whether a shutdown was requested. -/
def Handle.Taken (shutdown : Bool) (h : Handle) : Prop :=
  h = .ready ∧ shutdown = false

instance (shutdown : Bool) (h : Handle) : Decidable (h.Taken shutdown) :=
  inferInstanceAs (Decidable (_ ∧ _))

/-- The names of the handles that `resume(handle)` takes in. -/
def takenOf (shutdown : Bool) (handles : List (κ × Handle)) : List κ :=
  (handles.filter fun x => x.2.Taken shutdown).map Prod.fst

/-- The handles `ks` have been put into the queue, and they have been counted. -/
structure Enqueues (s t : State κ ω) (ks : List κ) : Prop where
  mQueue : t.mQueue = s.mQueue ++ ks
  enqueued : t.enqueued = s.enqueued ++ ks
  mSize : t.mSize = s.mSize + ks.length

lemma Enqueues.trans {s t r : State κ ω} {ks ks' : List κ} (h : Enqueues s t ks)
    (h' : Enqueues t r ks') : Enqueues s r (ks ++ ks') := by
  refine ⟨?_, ?_, ?_⟩
  · rw [h'.mQueue, h.mQueue, List.append_assoc]
  · rw [h'.enqueued, h.enqueued, List.append_assoc]
  · rw [h'.mSize, h.mSize, List.length_append, Nat.add_assoc]

variable [DecidableEq κ] [DecidableEq ω] {s : State κ ω} {k r : κ} {h : Handle}
  {handles : List (κ × Handle)}

/-- A call of `resume(handle)` takes the handle in, or leaves the pool as it was. -/
lemma resumeOne_run (h : Handle) (hidle : s.pc k = .idle) :
    ∃ t, (machine κ ω).run s (resumeOne (k, h)) = some t ∧
      Enqueues s t (takenOf s.mShutdownRequested [(k, h)]) ∧
      t.mShutdownRequested = s.mShutdownRequested ∧
      (t.pc k = .rejected ↔ ¬ h.Taken s.mShutdownRequested) ∧ ∀ j, j ≠ k → t.pc j = s.pc j := by
  have hnone : Enqueues s s [] := ⟨(List.append_nil _).symm, (List.append_nil _).symm, rfl⟩
  cases h with
  | null | done =>
    refine ⟨s.goto k .rejected, Machine.run_cons.mpr ⟨_, ?_, rfl⟩, ?_, rfl, ?_, ?_⟩
    · simp [machine, step, hidle]
    · simpa [takenOf, Handle.Taken] using { hnone with }
    · simp [Handle.Taken]
    · intro j hj
      simp [hj]
  | ready =>
    have hcall : step s (.resume k .ready) = some ((s.fetchAdd [k]).goto k .resumeCheck) := by
      simp [step, hidle]
    cases hshut : s.mShutdownRequested with
    | true =>
      have hcheck : step ((s.fetchAdd [k]).goto k .resumeCheck) (.advance k) =
          some (((s.fetchAdd [k]).goto k .resumeCheck).goto k .resumeUndo) := by
        simp [step, advance, hshut]
      have hundo : step (((s.fetchAdd [k]).goto k .resumeCheck).goto k .resumeUndo)
          (.advance k) = some (((((s.fetchAdd [k]).goto k .resumeCheck).goto k
            .resumeUndo).fetchSub [k]).goto k .rejected) := by
        simp [step, advance]
      refine ⟨_, Machine.run_cons.mpr ⟨_, hcall, Machine.run_cons.mpr ⟨_, hcheck,
        Machine.run_cons.mpr ⟨_, hundo, rfl⟩⟩⟩, ?_, hshut, ?_, ?_⟩
      · exact ⟨hnone.mQueue, hnone.enqueued, Nat.add_sub_cancel _ _⟩
      · simp [Handle.Taken]
      · intro j hj
        simp [hj]
    | false =>
      have hcheck : step ((s.fetchAdd [k]).goto k .resumeCheck) (.advance k) =
          some (((s.fetchAdd [k]).goto k .resumeCheck).goto k .enqueue) := by
        simp [step, advance, hshut]
      have hput : step (((s.fetchAdd [k]).goto k .resumeCheck).goto k .enqueue) (.advance k) =
          some ((((s.fetchAdd [k]).goto k .resumeCheck).goto k .enqueue).emplace [k]) := by
        simp [step, advance]
      refine ⟨_, Machine.run_cons.mpr ⟨_, hcall, Machine.run_cons.mpr ⟨_, hcheck,
        Machine.run_cons.mpr ⟨_, hput, rfl⟩⟩⟩, ⟨rfl, rfl, rfl⟩, hshut, ?_, ?_⟩
      · simp [Handle.Taken]
      · intro j hj
        simp [hj]

/-- Calls of `resume(handle)` one after the other. -/
lemma resumeEach_run (hnodup : (handles.map Prod.fst).Nodup)
    (hidle : ∀ x ∈ handles, s.pc x.1 = .idle) :
    ∃ t, (machine κ ω).run s (resumeEach handles) = some t ∧
      Enqueues s t (takenOf s.mShutdownRequested handles) ∧
      (∀ x ∈ handles, t.pc x.1 = .rejected ↔ ¬ x.2.Taken s.mShutdownRequested) ∧
      ∀ j, j ∉ handles.map Prod.fst → t.pc j = s.pc j := by
  induction handles generalizing s with
  | nil =>
    exact ⟨s, rfl, ⟨(List.append_nil _).symm, (List.append_nil _).symm, rfl⟩, by simp, by simp⟩
  | cons x handles ih =>
    obtain ⟨k, h⟩ := x
    obtain ⟨hk, hnodup⟩ := List.nodup_cons.mp hnodup
    obtain ⟨t, hrun, henq, hshut, hreturn, hother⟩ :=
      resumeOne_run h (hidle (k, h) List.mem_cons_self)
    have hne : ∀ y ∈ handles, y.1 ≠ k := by
      intro y hy hyk
      exact hk (List.mem_map.mpr ⟨y, hy, hyk⟩)
    have hidle' : ∀ y ∈ handles, t.pc y.1 = .idle := by
      intro y hy
      rw [hother y.1 (hne y hy)]
      exact hidle y (List.mem_cons_of_mem _ hy)
    obtain ⟨t', hrun', henq', hreturn', hother'⟩ := ih hnodup hidle'
    rw [hshut] at henq' hreturn'
    have htaken : takenOf s.mShutdownRequested ((k, h) :: handles) =
        takenOf s.mShutdownRequested [(k, h)] ++ takenOf s.mShutdownRequested handles := by
      rw [takenOf, ← List.singleton_append, List.filter_append, List.map_append]
      rfl
    refine ⟨t', Machine.run_append hrun hrun', htaken ▸ henq.trans henq', ?_, ?_⟩
    · intro y hy
      rcases List.mem_cons.mp hy with rfl | hy
      · -- the later calls leave this one alone
        rw [hother' k hk]
        exact hreturn
      · exact hreturn' y hy
    · intro j hj
      rw [List.map_cons, List.mem_cons, not_or] at hj
      obtain ⟨hjk, hj⟩ := hj
      rw [hother' j hj, hother j hjk]

omit [DecidableEq κ] [DecidableEq ω] in
/-- Every handle of a range is null or not. -/
lemma length_handlesOf_add_nullsOf (handles : List (κ × Bool)) :
    handles.length = (handlesOf handles).length + (nullsOf handles).length := by
  rw [handlesOf, nullsOf, List.length_map, List.length_map]
  exact List.length_eq_length_filter_add fun x : κ × Bool => x.2

omit [DecidableEq κ] [DecidableEq ω] in
/-- The names in a range. -/
lemma map_fst_asRange (handles : List (κ × Handle)) :
    (asRange handles).map Prod.fst = handles.map Prod.fst := by
  simp [asRange]

/-- A call of `resume(range)`, which puts every handle into the queue that is not null. -/
lemma resumeAll_run (hr : s.range r = .idle) (hnodup : (handles.map Prod.fst).Nodup)
    (hidle : ∀ x ∈ handles, s.pc x.1 = .idle) :
    ∃ t, (machine κ ω).run s (resumeAll r handles) = some t ∧
      Enqueues s t (handlesOf (asRange handles)) ∧
      t.range r = .returned (handlesOf (asRange handles)).length := by
  have hcall : step s (.resumeRange r (asRange handles)) = some
      { ((s.fetchAdd ((asRange handles).map Prod.fst)).gotoAll (handlesOf (asRange handles))
          (.pending r)).gotoAll (nullsOf (asRange handles)) (.pendingNull r) with
        range := update s.range r (.lock (asRange handles)) } := by
    rw [step, if_pos]
    rw [map_fst_asRange]
    refine ⟨hr, hnodup, fun k hk => ?_⟩
    obtain ⟨x, hx, rfl⟩ := List.mem_map.mp hk
    exact hidle x hx
  have hlock : ∀ t : State κ ω, t.range r = .lock (asRange handles) →
      step t (.advanceRange r) = some { t.emplace (handlesOf (asRange handles)) with
        range := update t.range r (.undo (asRange handles)) } := by
    intro t ht
    simp only [step, advanceRange, ht]
  have hundo : ∀ t : State κ ω, t.range r = .undo (asRange handles) →
      step t (.advanceRange r) = some
        { (t.fetchSub (nullsOf (asRange handles))).gotoAll (nullsOf (asRange handles))
            .rejected with
          range := update t.range r
            (.returned (handlesOf (asRange handles)).length) } := by
    intro t ht
    simp only [step, advanceRange, ht]
  refine ⟨_, Machine.run_cons.mpr ⟨_, hcall, Machine.run_cons.mpr ⟨_, hlock _ ?_,
    Machine.run_cons.mpr ⟨_, hundo _ ?_, rfl⟩⟩⟩, ⟨rfl, rfl, ?_⟩, ?_⟩
  · exact update_self ..
  · exact update_self ..
  · have hlength := length_handlesOf_add_nullsOf (asRange handles)
    change s.mSize + ((asRange handles).map Prod.fst).length - (nullsOf (asRange handles)).length =
      s.mSize + (handlesOf (asRange handles)).length
    rw [List.length_map]
    omega
  · exact update_self ..

omit [DecidableEq κ] [DecidableEq ω] in
/-- `resume(range)` and `resume(handle)` take in the same handles if and only if the second one
refuses none but null handles. -/
lemma handlesOf_asRange_eq_iff (hnodup : (handles.map Prod.fst).Nodup) (shutdown : Bool) :
    handlesOf (asRange handles) = takenOf shutdown handles ↔
      ∀ x ∈ handles, x.2 = .null ∨ x.2.Taken shutdown := by
  have hrange : handlesOf (asRange handles) =
      (handles.filter fun x => x.2 ≠ .null).map Prod.fst := by
    simp [handlesOf, asRange, List.filter_map, Function.comp_def]
  rw [hrange]
  constructor
  · intro heq x hx
    refine or_iff_not_imp_left.mpr fun hnull => ?_
    have hmem : x.1 ∈ takenOf shutdown handles := by
      rw [← heq]
      exact List.mem_map_of_mem (List.mem_filter.mpr ⟨hx, by simpa using hnull⟩)
    obtain ⟨y, hy, hxy⟩ := List.mem_map.mp hmem
    obtain ⟨hy, htaken⟩ := List.mem_filter.mp hy
    rw [← List.inj_on_of_nodup_map hnodup hy hx hxy]
    simpa using htaken
  · intro hall
    refine congrArg (List.map Prod.fst) (List.filter_congr fun x hx => ?_)
    rcases hall x hx with hnull | htaken
    · simp [hnull, Handle.Taken]
    · simp [htaken.1, htaken.2, Handle.Taken]

/-- In every state of the pool, and for every list of handles: `resume(range)` puts the same handles
in the same order into the queue as calls of `resume(handle)` one after the other, leaves the same
`m_size` and returns the number of those calls that return true, if and only if every handle is
null, or can be resumed while no shutdown was requested. -/
theorem resume_range_agrees (hr : s.range r = .idle) (hnodup : (handles.map Prod.fst).Nodup)
    (hidle : ∀ x ∈ handles, s.pc x.1 = .idle) :
    ∃ t t', (machine κ ω).run s (resumeAll r handles) = some t ∧
      (machine κ ω).run s (resumeEach handles) = some t' ∧
      ((t.mQueue = t'.mQueue ∧ t.enqueued = t'.enqueued ∧ t.mSize = t'.mSize ∧
          t.range r = .returned (handles.countP fun x => t'.pc x.1 ≠ .rejected)) ↔
        ∀ x ∈ handles, x.2 = .null ∨ x.2 = .ready ∧ s.mShutdownRequested = false) := by
  obtain ⟨t, hrun, henq, hreturned⟩ := resumeAll_run hr hnodup hidle
  obtain ⟨t', hrun', henq', hreturn, -⟩ := resumeEach_run hnodup hidle
  have hsame := handlesOf_asRange_eq_iff hnodup s.mShutdownRequested
  refine ⟨t, t', hrun, hrun', fun hagree => hsame.mp ?_, fun hall => ?_⟩
  · have hqueue := hagree.1
    rw [henq.mQueue, henq'.mQueue] at hqueue
    exact List.append_cancel_left hqueue
  · rw [hsame.mpr hall] at henq hreturned
    refine ⟨?_, ?_, ?_, ?_⟩
    · rw [henq.mQueue, henq'.mQueue]
    · rw [henq.enqueued, henq'.enqueued]
    · rw [henq.mSize, henq'.mSize]
    · rw [hreturned, takenOf, List.length_map, ← List.countP_eq_length_filter]
      refine congrArg RangePc.returned (List.countP_congr fun x hx => ?_)
      simpa using (not_congr (hreturn x hx)).symm

/-- Two handles that can be resumed, with a null handle between them, in a pool that has taken in
another coroutine before. -/
theorem resume_range_agrees_mixed : ∃ s t t' : State (Fin 4) (Fin 1),
    (machine (Fin 4) (Fin 1)).run start [.resume 3 .ready, .advance 3, .advance 3] = some s ∧
    (machine (Fin 4) (Fin 1)).run s (resumeAll 0 [(0, .ready), (1, .null), (2, .ready)]) = some t ∧
    (machine (Fin 4) (Fin 1)).run s (resumeEach [(0, .ready), (1, .null), (2, .ready)]) = some t' ∧
    t'.mQueue = [3, 0, 2] ∧ t.mQueue = t'.mQueue ∧ t.mSize = t'.mSize := by
  have hrun : ∃ s : State (Fin 4) (Fin 1),
      (machine (Fin 4) (Fin 1)).run start [.resume 3 .ready, .advance 3, .advance 3] = some s ∧
      s.range 0 = .idle ∧
      (∀ x ∈ [((0 : Fin 4), Handle.ready), (1, .null), (2, .ready)], s.pc x.1 = .idle) ∧
      s.mShutdownRequested = false ∧
      ∀ t', (machine (Fin 4) (Fin 1)).run s
        (resumeEach [(0, .ready), (1, .null), (2, .ready)]) = some t' → t'.mQueue = [3, 0, 2] := by
    refine ⟨_, rfl, rfl, by decide, rfl, ?_⟩
    rintro t' ⟨⟩
    rfl
  obtain ⟨s, hs, hr, hidle, hopen, hqueue⟩ := hrun
  obtain ⟨t, t', hall, heach, hagree⟩ := resume_range_agrees hr (by decide) hidle
  obtain ⟨hsame, -, hsize, -⟩ := hagree.mpr (by simp [hopen])
  exact ⟨s, t, t', hs, hall, heach, hqueue t' heach, hsame, hsize⟩

/-- After a shutdown, `resume(range)` takes in a handle that `resume(handle)` refuses; and it takes
in a handle that is done, which `resume(handle)` refuses as well. -/
theorem resume_range_takes_in_more :
    (∃ s t t' : State (Fin 1) (Fin 1),
      (machine (Fin 1) (Fin 1)).run start [.shutdown] = some s ∧
      (machine (Fin 1) (Fin 1)).run s (resumeAll 0 [(0, .ready)]) = some t ∧
      (machine (Fin 1) (Fin 1)).run s (resumeEach [(0, .ready)]) = some t' ∧
      t.mQueue = [0] ∧ t.mSize = 1 ∧ t.range 0 = .returned 1 ∧
      t'.mQueue = [] ∧ t'.mSize = 0 ∧ t'.pc 0 = .rejected) ∧
    (∃ t t' : State (Fin 1) (Fin 1),
      (machine (Fin 1) (Fin 1)).run start (resumeAll 0 [(0, .done)]) = some t ∧
      (machine (Fin 1) (Fin 1)).run start (resumeEach [(0, .done)]) = some t' ∧
      t.mQueue = [0] ∧ t.mSize = 1 ∧ t.range 0 = .returned 1 ∧
      t'.mQueue = [] ∧ t'.mSize = 0 ∧ t'.pc 0 = .rejected) :=
  ⟨⟨_, _, _, rfl, rfl, rfl, rfl, rfl, rfl, rfl, rfl, rfl⟩,
    ⟨_, _, rfl, rfl, rfl, rfl, rfl, rfl, rfl, rfl⟩⟩

end Libcoro.ThreadPool
