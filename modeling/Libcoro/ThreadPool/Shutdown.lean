import Libcoro.ThreadPool.Accounting

/-!
# Everything accepted is run

`resume` and `schedule` look at `m_shutdown_requested` before they enqueue, and a worker leaves
its drain loop when it finds `m_queue` empty although `m_size` is not zero.  A submission that is
between its look and its critical section when the last worker leaves is accepted and never
resumed (`shutdown_forgets`).  As long as handles are enqueued while some worker is still in its
loops, every accepted handle has been resumed exactly once when all workers have left, and by a
single worker in the order of `m_queue` (`shutdown_runs_all`).
-/

namespace Libcoro.ThreadPool

open Foundations Function

variable {κ ω : Type*}

/-- The handle was put into `m_queue`: `resume` returned true, or the awaited `schedule()` did not
throw. -/
def Pc.Accepted : Pc κ ω → Prop
  | .queued | .taken _ | .executing _ | .done => True
  | _ => False

/-- Handles are enqueued only while some worker has not left its loops. -/
def WhileWorking (s : State κ ω) : Action κ ω → Prop
  | .advance k => s.pc k = .enqueue → ∃ w, s.worker w ≠ .left
  | .advanceRange r => (s.range r).handles ≠ [] → ∃ w, s.worker w ≠ .left
  | _ => True

instance [DecidableEq κ] [DecidableEq ω] [Fintype ω] (s : State κ ω) (a : Action κ ω) :
    Decidable (WhileWorking s a) :=
  match a with
  | .advance k => inferInstanceAs (Decidable (s.pc k = .enqueue → _))
  | .advanceRange r => inferInstanceAs (Decidable ((s.range r).handles ≠ [] → _))
  | .schedule _ | .await _ | .spawnDetached _ | .resume _ _ | .resumeRange _ _ | .worker _
  | .finalSuspend _ | .shutdown => isTrue trivial

/-- What has been resumed, and in which order. -/
structure State.History (s : State κ ω) : Prop where
  nodup : s.resumed.Nodup
  mem_iff : ∀ k, k ∈ s.resumed ↔ (s.pc k).Begun = true
  -- with a single worker: first what was resumed, then what it has in hand, then the queue
  order : ∀ w, (∀ v, v = w) → s.enqueued = s.resumed ++ (s.worker w).hand ++ s.mQueue

lemma history_start : (start : State κ ω).History where
  nodup := List.nodup_nil
  mem_iff := by simp [start, Pc.Begun]
  order := by simp [start, WorkerPc.hand]

namespace State.History

variable {s s' : State κ ω}

/-- A step in which nothing is enqueued, taken or resumed. -/
lemma keep (h : s.History) (hresumed : s'.resumed = s.resumed)
    (hpc : ∀ k, (s'.pc k).Begun = (s.pc k).Begun) (henqueued : s'.enqueued = s.enqueued)
    (hworker : ∀ w, (s'.worker w).hand = (s.worker w).hand) (hqueue : s'.mQueue = s.mQueue) :
    s'.History := by
  refine ⟨hresumed ▸ h.nodup, fun k => ?_, fun w hw => ?_⟩
  · rw [hresumed, hpc]
    exact h.mem_iff k
  · rw [henqueued, hresumed, hworker, hqueue]
    exact h.order w hw

/-- A worker that has no handle goes on without one. -/
lemma workerGoto [DecidableEq ω] (h : s.History) {w : ω} {c c' : WorkerPc κ} (hw : s.worker w = c)
    (hc : c.hand = c'.hand) : (s.workerGoto w c').History := by
  refine h.keep rfl (fun _ => rfl) rfl (fun v => ?_) rfl
  by_cases hv : v = w
  · subst hv
    simp [hw, hc]
  · simp [hv]

variable [DecidableEq κ]

/-- A submission goes on outside of the queue and the workers. -/
lemma goto (h : s.History) {k : κ} {c c' : Pc κ ω} (hk : s.pc k = c)
    (hpc : s'.pc = update s.pc k c') (hc : c.Begun = c'.Begun)
    (hresumed : s'.resumed = s.resumed)
    (henqueued : s'.enqueued = s.enqueued) (hworker : s'.worker = s.worker)
    (hqueue : s'.mQueue = s.mQueue) : s'.History := by
  refine h.keep hresumed (fun j => ?_) henqueued (fun w => by rw [hworker]) hqueue
  rw [hpc]
  by_cases hj : j = k
  · subst hj
    simp [hk, hc]
  · simp [hj]

/-- Submissions change their control point without being resumed. -/
lemma begun_gotoAll {ks : List κ} {c : Pc κ ω} (hks : ∀ k ∈ ks, (s.pc k).Begun = false)
    (hc : c.Begun = false) (k : κ) : ((s.gotoAll ks c).pc k).Begun = (s.pc k).Begun := by
  by_cases hk : k ∈ ks
  · simp [hk, hc, hks k hk]
  · simp [hk]

/-- Handles are enqueued. -/
lemma emplace (h : s.History) {ks : List κ} (hks : ∀ k ∈ ks, (s.pc k).Begun = false) :
    (s.emplace ks).History := by
  refine ⟨h.nodup, fun k => ?_, fun w hw => ?_⟩
  · change k ∈ s.resumed ↔ ((s.gotoAll ks .queued).pc k).Begun = true
    rw [begun_gotoAll hks rfl]
    exact h.mem_iff k
  · change s.enqueued ++ ks = s.resumed ++ (s.worker w).hand ++ (s.mQueue ++ ks)
    rw [h.order w hw]
    simp

variable [DecidableEq ω]

/-- Every step keeps the history. -/
lemma transition (h : s.History) (hcustody : s.Custody) {a : Action κ ω} (ht : Transition s a s') :
    s'.History := by
  cases ht with
  | schedule hk | scheduleAccept hk _ | scheduleReject hk _ | scheduleUndo hk | await hk
  | spawnDetached hk | spawnResume hk | resume hk | resumeInvalid hk _ | resumeAccept hk _
  | resumeReject hk _ | resumeUndo hk => exact h.goto hk rfl rfl rfl rfl rfl rfl
  | enqueue hk => exact h.emplace (by simp [hk, Pc.Begun])
  | @resumeRange r hs hr hnd hidle =>
    have hfirst : ∀ k ∈ handlesOf hs, (s.pc k).Begun = false := fun k hk => by
      rw [hidle k (mem_map_fst_iff.mpr (Or.inl hk))]
      rfl
    have hsecond : ∀ k ∈ nullsOf hs,
        ((s.gotoAll (handlesOf hs) (.pending r)).pc k).Begun = false := fun k hk => by
      rw [begun_gotoAll hfirst rfl, hidle k (mem_map_fst_iff.mpr (Or.inr hk))]
      rfl
    refine h.keep rfl (fun k => ?_) rfl (fun _ => rfl) rfl
    exact (begun_gotoAll hsecond rfl k).trans (begun_gotoAll hfirst rfl k)
  | @emplaceRange r hs hr =>
    have hemplace : (s.emplace (handlesOf hs)).History := h.emplace fun k hk => by
      rw [hcustody.pc_eq (p := .pending r)
        (by simpa [State.contents, hr, RangePc.handles] using hk)]
      rfl
    exact { hemplace with }
  | @undoRange r hs hr =>
    refine h.keep rfl (fun k => begun_gotoAll (fun j hj => ?_) rfl k) rfl (fun _ => rfl) rfl
    change (s.pc j).Begun = false
    rw [hcustody.pc_eq (p := .pendingNull r)
      (by simpa [State.contents, hr, RangePc.nulls] using hj)]
    rfl
  | beginDrain hw _ | beginWait hw _ | endWait hw _ _ | drain hw _ | leaveZero hw _
  | leaveEmpty hw _ => exact h.workerGoto hw rfl
  | @take w k rest drain hw hq =>
    have hk : s.pc k = .queued := hcustody.pc_eq (p := .queue) (by simp [State.contents, hq])
    refine ⟨h.nodup, fun j => ?_, fun v hv => ?_⟩
    · by_cases hj : j = k
      · subst hj
        simpa [hk, Pc.Begun] using h.mem_iff j
      · simpa [hj] using h.mem_iff j
    · obtain rfl := hv w
      have horder := h.order w hv
      cases drain <;> simpa [hw, hq, WorkerPc.hand] using horder
  | @run w k drain hw =>
    have hk : s.pc k = .taken w :=
      hcustody.pc_eq (p := .taken w) (by simp [State.contents, hw, WorkerPc.hand])
    have hnot : k ∉ s.resumed := by simp [h.mem_iff, hk, Pc.Begun]
    refine ⟨?_, fun j => ?_, fun v hv => ?_⟩
    · exact List.nodup_append'.mpr ⟨h.nodup, List.nodup_singleton k, by simpa using hnot⟩
    · by_cases hj : j = k
      · subst hj
        simp [Pc.Begun]
      · simpa [hj] using h.mem_iff j
    · obtain rfl := hv w
      simpa [hw, WorkerPc.hand] using h.order w hv
  | @sub w k drain hw =>
    have hk : s.pc k = .executing w :=
      hcustody.pc_eq (p := .executing w) (by simp [State.contents, hw, WorkerPc.executes])
    refine h.keep rfl (fun j => ?_) rfl (fun v => ?_) rfl
    · by_cases hj : j = k
      · subst hj
        simp [hk, Pc.Begun]
      · simp [hj]
    · by_cases hv : v = w
      · subst hv
        cases drain <;> simp [hw, WorkerPc.hand]
      · simp [hv]
  | finalSuspend _ _ _ | shutdown => exact { h with }

end State.History

variable [DecidableEq κ] [DecidableEq ω]

/-- Handles are resumed once, and by a single worker in the order of `m_queue`. -/
lemma history_of_reachable {s : State κ ω} (h : (machine κ ω).Reachable s) : s.History :=
  h.invariant history_start fun _ _ _ hreach hs hstep =>
    hs.transition (accounts_of_reachable hreach).1 (step_transition hstep)

/-- Once all workers have left, `m_queue` stays empty. -/
lemma drained_transition {s s' : State κ ω} {a : Action κ ω} (hreach : (machine κ ω).Reachable s)
    (h : (∀ w, s.worker w = .left) → s.mQueue = []) (hG : WhileWorking s a)
    (ht : Transition s a s') (hleft : ∀ w, s'.worker w = .left) : s'.mQueue = [] := by
  -- a step that moves a worker to anything but `left` is excluded by `hleft`
  have hworker : ∀ (w : ω) (c : WorkerPc κ), c ≠ .left →
      s'.worker = update s.worker w c → s'.mQueue = [] := by
    intro w c hc hw
    have := hleft w
    rw [hw, update_self] at this
    exact (hc this).elim
  cases ht with
  | enqueue hk =>
    obtain ⟨w, hw⟩ := hG hk
    exact (hw (hleft w)).elim
  | @emplaceRange r hs hr =>
    by_cases hnil : handlesOf hs = []
    · -- a range of null handles leaves the queue as it is
      change s.mQueue ++ handlesOf hs = []
      rw [hnil, List.append_nil]
      exact h hleft
    · obtain ⟨w, hw⟩ := hG (by simpa [hr, RangePc.handles] using hnil)
      exact (hw (hleft w)).elim
  | beginDrain hw _ => exact hworker _ .drainTest (by simp) rfl
  | beginWait hw _ => exact hworker _ .waitSection (by simp) rfl
  | endWait hw _ _ => exact hworker _ .loopTest (by simp) rfl
  | @take w k rest drain hw hq => exact hworker w (.run k drain) (by simp) rfl
  | @run w k drain hw => exact hworker w (.sub k drain) (by simp) rfl
  | @sub w k drain hw =>
    exact hworker w (if drain then .drainTest else .loopTest) (by cases drain <;> simp) rfl
  | drain hw _ => exact hworker _ .drainSection (by simp) rfl
  | leaveZero hw hsize => exact contents_eq_nil hreach hsize .queue
  | leaveEmpty hw hq => exact hq
  | _ => exact h hleft

lemma drained_of_reachable {s : State κ ω} (h : (machine κ ω).ReachableUnder WhileWorking s) :
    (∀ w, s.worker w = .left) → s.mQueue = [] :=
  h.invariant (I := fun s => (∀ w, s.worker w = .left) → s.mQueue = []) (fun _ => rfl)
    fun _ _ _ hreach hs hG hstep =>
      drained_transition hreach.reachable hs hG (step_transition hstep)

/-- **Everything accepted is run.**  In every run in which handles are enqueued while some worker
is still in its loops: when all workers have left, `m_queue` is empty, every accepted handle has
been resumed exactly once, and a single worker has resumed them in the order in which they were
enqueued. -/
theorem shutdown_runs_all {s : State κ ω} (h : (machine κ ω).ReachableUnder WhileWorking s)
    (hleft : ∀ w, s.worker w = .left) :
    s.mQueue = [] ∧ (∀ k, (s.pc k).Accepted → s.resumed.count k = 1) ∧
      ((∃ w : ω, ∀ v, v = w) → s.resumed = s.enqueued) := by
  have hqueue := drained_of_reachable h hleft
  have hhistory := history_of_reachable h.reachable
  have hcustody := (accounts_of_reachable h.reachable).1
  refine ⟨hqueue, fun k hk => ?_, ?_⟩
  · have hbegun : (s.pc k).Begun = true := by
      cases hc : s.pc k with
      | queued =>
        have hmem := (Housed.mem_iff hcustody .queue k).mpr (by simp [hc, Pc.place])
        simp [State.contents, hqueue] at hmem
      | taken w =>
        have hmem := (Housed.mem_iff hcustody (.taken w) k).mpr (by simp [hc, Pc.place])
        simp [State.contents, hleft w, WorkerPc.hand] at hmem
      | executing w => rfl
      | done => rfl
      | _ => simp [hc, Pc.Accepted] at hk
    exact List.count_eq_one_of_mem hhistory.nodup ((hhistory.mem_iff k).mpr hbegun)
  · rintro ⟨w, hw⟩
    have horder := hhistory.order w hw
    simpa [hleft w, hqueue, WorkerPc.hand] using horder.symm

/-- One worker, a scheduled coroutine and a resumed one, both enqueued before the shutdown. -/
def drainedTrace : List (Action (Fin 3) (Fin 1)) :=
  [.schedule 0, .advance 0, .resume 1 .ready, .advance 1, .await 0, .advance 0, .advance 1,
    .shutdown, .schedule 2, .advance 2, .advance 2] ++ List.replicate 10 (.worker 0)

/-- Both handles are resumed in their order, and the late call is rejected. -/
theorem shutdown_runs_all_drained : ∃ s,
    (machine (Fin 3) (Fin 1)).runUnder WhileWorking start drainedTrace = some s ∧
      s.mShutdownRequested = true ∧ (∀ w, s.worker w = .left) ∧ s.pc 2 = .rejected ∧
      s.enqueued = [0, 1] ∧ s.mQueue = [] ∧
      (∀ k, (s.pc k).Accepted → s.resumed.count k = 1) ∧
      ((∃ w : Fin 1, ∀ v, v = w) → s.resumed = s.enqueued) :=
  ⟨_, rfl, rfl, fun w => match w with | 0 => rfl, rfl, rfl,
    shutdown_runs_all
      (Machine.reachableUnder_of_run (M := machine (Fin 3) (Fin 1)) (l := drainedTrace) rfl)
      fun w => match w with | 0 => rfl⟩

/-- `resume` has seen no shutdown and is about to enqueue; the only worker drains and leaves. -/
def forgottenTrace : List (Action (Fin 1) (Fin 1)) :=
  [.resume 0 .ready, .advance 0, .shutdown, .worker 0, .worker 0, .worker 0, .advance 0]

/-- A handle for which `resume` has returned true is never resumed. -/
theorem shutdown_forgets : ∃ s, (machine (Fin 1) (Fin 1)).run start forgottenTrace = some s ∧
    (machine (Fin 1) (Fin 1)).Reachable s ∧ s.mShutdownRequested = true ∧
    (∀ w, s.worker w = .left) ∧ (s.pc 0).Accepted ∧ s.mQueue = [0] ∧ s.resumed.count 0 = 0 :=
  ⟨_, rfl, Machine.reachable_of_run (l := forgottenTrace) rfl, rfl,
    fun w => match w with | 0 => rfl, trivial, rfl, rfl⟩

end Libcoro.ThreadPool
