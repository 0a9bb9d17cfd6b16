import Libcoro.Scheduler.EventLoop
import Libcoro.ThreadPool.Rejection

/-!
# What the scheduler counts

`scheduler::m_size` is the sum of what the calls have in it, as in the pool, and the pool inside a
scheduler is a pool in every run, so that what holds of all pools holds of it.  Calls stand on
`m_scheduled_ops` or `m_handles_to_resume`, or have been passed on to the pool, which knows of no
others.
-/

namespace Libcoro.Scheduler.EventLoop

open Foundations Function

variable {κ ω : Type*}

/-- The lists on which a call can stand. -/
inductive Place
  | ops
  | handles

/-- The list on which a call stands, if any. -/
def Pc.place : Pc → Option Place
  | .scheduled => some .ops
  | .collected | .resumed => some .handles
  | _ => none

/-- The calls on each list. -/
def State.contents (s : State κ ω) : Place → List κ
  | .ops => s.mScheduledOps
  | .handles => s.mHandlesToResume

/-- The handles that the loop has left to resume itself. -/
@[simp] def LoopPc.remaining : LoopPc κ → List κ
  | .resume ks => ks
  | _ => []

/-- Every call stands on the list that its control point says, and the loop resumes what it has
collected. -/
structure State.Custody (s : State κ ω) : Prop where
  housed : Housed s.contents fun k => (s.pc k).place
  remaining : ∀ k ∈ s.loop.remaining, k ∈ s.mHandlesToResume

/-- The unit of `m_size` that belongs to the call itself. -/
def Pc.units : Pc → ℕ
  | .push | .scheduled | .register | .waiting | .collected | .resumed => 1
  | _ => 0

/-- The unit of `m_size` that belongs to `spawn_detached`. -/
def State.spawnUnits (s : State κ ω) (k : κ) : ℕ :=
  if s.spawned k && !s.finished k then 1 else 0

/-- `m_size` is the sum of the units of all calls. -/
structure State.Ledger (s : State κ ω) : Prop where
  tally : Tally s.charge s.mSize
  charge : ∀ k, s.charge k = (s.pc k).units + s.spawnUnits k
  unspawned : ∀ k, s.pc k = .idle → s.spawned k = false
  called : ∀ k, s.finished k = true → s.pc k ≠ .idle

/-- The call may have been passed on to the pool. -/
def Pc.Handed : Pc → Prop
  | .collected | .resumed | .inPool | .done => True
  | _ => False

/-- The pool knows only of calls that were passed on to it, and none of them is a
`spawn_detached` of its own. -/
structure State.Apart (s : State κ ω) : Prop where
  idle : ∀ k, ¬ (s.pc k).Handed → s.pool.pc k = .idle
  unspawned : ∀ k, s.pool.spawned k = false

lemma custody_start : (start : State κ ω).Custody := by
  refine ⟨⟨fun p => ?_, fun p k => ?_⟩, by simp [start]⟩
  · cases p <;> simp [State.contents, start]
  · cases p <;> simp [State.contents, start, Pc.place]

lemma ledger_start : (start : State κ ω).Ledger where
  tally := Tally.zero
  charge := by simp [start, Pc.units, State.spawnUnits]
  unspawned := by simp [start]
  called := by simp [start]

lemma apart_start : (start : State κ ω).Apart where
  idle := by simp [start, ThreadPool.start]
  unspawned := by simp [start, ThreadPool.start]

/-- The ledger as the books of `m_size`. -/
lemma State.ledger_iff {s : State κ ω} : s.Ledger ↔
    Books Pc.units .idle (· ≠ .idle) s.pc s.spawned s.finished s.charge s.mSize :=
  ⟨fun h => ⟨h.tally, h.charge, h.unspawned, h.called⟩,
    fun h => ⟨h.tally, h.units_eq, h.unspawned, h.begun⟩⟩

/-- A call with a unit of its own is counted, so `m_size` is not zero. -/
lemma State.Ledger.mSize_pos {s : State κ ω} (h : s.Ledger) {k : κ} (hk : (s.pc k).units = 1) :
    0 < s.mSize :=
  (State.ledger_iff.mp h).pos hk

/-- What the control point of a handle is that the loop has collected. -/
lemma State.Custody.collected_or_resumed {s : State κ ω} (h : s.Custody) {k : κ}
    (hk : k ∈ s.mHandlesToResume) : s.pc k = .collected ∨ s.pc k = .resumed := by
  have hplace := (h.housed.mem_iff .handles k).mp hk
  cases hc : s.pc k <;> simp_all [Pc.place]

/-- Nothing moves but the loop, the pool or the counters. -/
lemma State.Custody.keep {s s' : State κ ω} (h : s.Custody) (hpc : s'.pc = s.pc)
    (hcontents : s'.contents = s.contents)
    (hloop : ∀ j ∈ s'.loop.remaining, j ∈ s.mHandlesToResume) : s'.Custody := by
  have hhandles : s'.mHandlesToResume = s.mHandlesToResume := congrFun hcontents .handles
  exact ⟨h.housed.congr (fun p => by rw [hcontents]) fun j => by rw [hpc],
    fun j hj => hhandles ▸ hloop j hj⟩

variable [DecidableEq κ]

namespace State.Custody

variable {s s' : State κ ω}

/-- A call moves without touching a list. -/
lemma goto (h : s.Custody) {k : κ} {c c' : Pc} (hk : s.pc k = c)
    (hpc : s'.pc = update s.pc k c') (hplace : c'.place = c.place)
    (hcontents : s'.contents = s.contents)
    (hloop : ∀ j ∈ s'.loop.remaining, j ∈ s.loop.remaining) : s'.Custody := by
  refine ⟨h.housed.congr (fun p => by rw [hcontents]) fun j => ?_, fun j hj => ?_⟩
  · rw [hpc]
    by_cases hjk : j = k
    · subst hjk
      simp [hk, hplace]
    · simp [hjk]
  · have hhandles : s'.mHandlesToResume = s.mHandlesToResume := congrFun hcontents .handles
    rw [hhandles]
    exact h.remaining j (hloop j hj)

variable [DecidableEq ω] {strategy : ExecutionStrategy}

/-- Every step keeps the lists in order. -/
lemma transition (h : s.Custody) {a : Action κ ω} (ht : Transition strategy s a s') :
    s'.Custody := by
  cases ht with
  | spawnDetached hk | schedule hk | wait hk | resumeAccept hk _ | resumeReject hk _
  | awaitInline _ hk | awaitPool _ hk _ | register hk => exact h.goto hk rfl rfl rfl fun _ hj => hj
  | @resume k handle hk =>
    exact h.goto hk rfl (by split_ifs <;> rfl) rfl fun _ hj => hj
  | @push k hk =>
    refine ⟨h.housed.move [k] none (some .ops) (by simp) (List.nodup_singleton k) (fun j hj => ?_)
      (fun j hj => ?_) (fun j hj => ?_) (by simp) (fun p hp => ?_) (fun p _ hp => ?_), h.remaining⟩
    · rw [List.mem_singleton.mp hj, hk]
      rfl
    · rw [List.mem_singleton.mp hj]
      simp [Pc.place]
    · have hjk : j ≠ k := by simpa using hj
      simp [hjk]
    · obtain rfl : Place.ops = p := by simpa using hp
      exact (List.perm_append_singleton k s.mScheduledOps).symm
    · cases p with
      | ops => exact (hp rfl).elim
      | handles => rfl
  | @resumeHandle first k ks hl =>
    have hmem : k ∈ s.mHandlesToResume := h.remaining k (by simp [hl])
    have hplace := (h.housed.mem_iff .handles k).mp hmem
    exact h.goto rfl rfl (by rw [hplace]; rfl) rfl (by simp_all)
  | beginResume _ hl _ => exact h.keep rfl rfl fun _ hj => hj
  | sub hl =>
    refine ⟨h.housed.move s.mHandlesToResume (some .handles) none (by simp)
      (h.housed.nodup .handles) (fun j hj => (h.housed.mem_iff .handles j).mp hj) (fun j hj => ?_)
      (fun j hj => ?_) (fun p hp => ?_) (by simp) (fun p hp _ => ?_), by simp⟩
    · cases strategy <;> simp [hj, Pc.place]
    · simp [State.fetchSub, hj]
    · obtain rfl : Place.handles = p := by simpa using hp
      simp [State.contents]
    · cases p with
      | ops => rfl
      | handles => exact (hp rfl).elim
  | @collect ks hl hnd hwaiting =>
    refine ⟨h.housed.move ks none (some .handles) (by simp) hnd (fun j hj => ?_) (fun j hj => ?_)
      (fun j hj => ?_) (by simp) (fun p hp => ?_) (fun p _ hp => ?_), ?_⟩
    · rw [hwaiting j hj]
      rfl
    · simp [hj, Pc.place]
    · simp [hj]
    · obtain rfl : Place.handles = p := by simpa using hp
      exact .refl _
    · cases p with
      | ops => rfl
      | handles => exact (hp rfl).elim
    · simp [hl]
  | collectScheduled hl =>
    refine ⟨h.housed.move s.mScheduledOps (some .ops) (some .handles) (by simp)
      (h.housed.nodup .ops) (fun j hj => (h.housed.mem_iff .ops j).mp hj) (fun j hj => ?_)
      (fun j hj => ?_) (fun p hp => ?_) (fun p hp => ?_) (fun p hp hp' => ?_), ?_⟩
    · simp [hj, Pc.place]
    · simp [hj]
    · obtain rfl : Place.ops = p := by simpa using hp
      simp [State.contents]
    · obtain rfl : Place.handles = p := by simpa using hp
      exact (List.reverse_perm _).append_left _
    · cases p with
      | ops => exact (hp rfl).elim
      | handles => exact (hp' rfl).elim
    · simp [hl]
  | shutdown | finalSuspend _ _ _ | poolAdvance _ | poolWorker _
  | poolShutdown _ _ => exact h.keep rfl rfl h.remaining
  | test hl | sizeInline _ hl
  | sizeSecond hl => exact h.keep rfl rfl (by split_ifs <;> simp)
  | _ => exact h.keep rfl rfl (by simp)

end State.Custody

lemma gotoAll_singleton (s : State κ ω) (k : κ) (c : Pc) : s.gotoAll [k] c = s.goto k c := by
  rw [State.gotoAll, State.goto, ite_mem_singleton]

namespace State.Ledger

variable {s s' : State κ ω}

/-- Calls go on while their units stay the same. -/
lemma gotoAll (h : s.Ledger) {ks : List κ} {c : Pc} (hc : c ≠ .idle)
    (hunits : ∀ k ∈ ks, (s.pc k).units = c.units) : (s.gotoAll ks c).Ledger :=
  State.ledger_iff.mpr ((State.ledger_iff.mp h).moveAll hc (fun _ _ _ => hc) hunits)

lemma goto (h : s.Ledger) {k : κ} {c c' : Pc} (hk : s.pc k = c) (hc' : c' ≠ .idle)
    (hunits : c.units = c'.units) : (s.goto k c').Ledger := by
  rw [← gotoAll_singleton]
  exact h.gotoAll hc' (by simpa [hk] using hunits)

/-- A call is counted. -/
lemma add (h : s.Ledger) {k : κ} {c c' : Pc} (hk : s.pc k = c) (hc : c.units = 0)
    (hc' : c'.units = 1) : ((s.fetchAdd k).goto k c').Ledger := by
  have hidle : c' ≠ .idle := by
    rintro rfl
    simp [Pc.units] at hc'
  rw [← gotoAll_singleton]
  refine State.ledger_iff.mpr ((State.ledger_iff.mp h).creditAll (List.nodup_singleton k) hidle
    (fun _ _ _ => hidle) fun j hj => ?_)
  rw [List.mem_singleton.mp hj, hk, hc, hc']

/-- Calls are not counted any longer. -/
lemma subAll (h : s.Ledger) {ks : List κ} {c : Pc} (hks : ks.Nodup) (hidle : c ≠ .idle)
    (hc : c.units = 0) (hunits : ∀ k ∈ ks, (s.pc k).units = 1) :
    ((s.fetchSub ks).gotoAll ks c).Ledger :=
  State.ledger_iff.mpr ((State.ledger_iff.mp h).debitAll hks hidle (fun _ _ _ => hidle)
    fun k hk => by rw [hunits k hk, hc])

/-- `spawn_detached` counts its coroutine before `resume` is called. -/
lemma spawnDetached (h : s.Ledger) {k : κ} (hk : s.pc k = .idle) :
    State.Ledger { (s.fetchAdd k).goto k .resume with
      spawned := update s.spawned k true } :=
  State.ledger_iff.mpr ((State.ledger_iff.mp h).spawn hk (by simp) (by simp) rfl)

/-- The callback of `spawn_detached`. -/
lemma finalSuspend (h : s.Ledger) {k : κ} (hspawned : s.spawned k = true)
    (hfinished : s.finished k = false) (hk : s.pc k ≠ .idle) :
    State.Ledger { s.fetchSub [k] with finished := update s.finished k true } :=
  State.ledger_iff.mpr ((State.ledger_iff.mp h).finish hspawned hfinished hk)

variable [DecidableEq ω] {strategy : ExecutionStrategy}

/-- Every step keeps the ledger. -/
lemma transition (h : s.Ledger) (hcustody : s.Custody) (hapart : s.Apart) {a : Action κ ω}
    (ht : Transition strategy s a s') : s'.Ledger := by
  cases ht with
  | spawnDetached hk => exact h.spawnDetached hk
  | @resume k handle hk => split_ifs <;> exact h.goto hk (by simp) rfl
  | schedule hk | resumeAccept hk _ | resumeReject hk _
  | register hk => exact h.goto hk (by simp) rfl
  | wait hk | awaitInline _ hk => exact h.add hk rfl rfl
  | @awaitPool k p _ hk _ =>
    have hgoto : (s.goto k .inPool).Ledger := h.goto hk (by simp) rfl
    exact { hgoto with }
  | @push k hk =>
    have hgoto : (s.goto k .scheduled).Ledger := h.goto hk (by simp) rfl
    exact { hgoto with }
  | @resumeHandle first k ks hl =>
    have hunits : (s.pc k).units = Pc.resumed.units := by
      rcases hcustody.collected_or_resumed (hcustody.remaining k (by simp [hl])) with
        hk | hk <;> simp [hk, Pc.units]
    have hgoto : (s.goto k .resumed).Ledger := h.goto rfl (by simp) hunits
    exact { hgoto with }
  | sub hl =>
    have hunits : ∀ k ∈ s.mHandlesToResume, (s.pc k).units = 1 := by
      intro k hk
      rcases hcustody.collected_or_resumed hk with hk | hk <;> simp [hk, Pc.units]
    have hnd : s.mHandlesToResume.Nodup := hcustody.housed.nodup .handles
    cases strategy with
    | processTasksInline =>
      exact { h.subAll (c := .done) hnd (by simp) rfl hunits with }
    | processTasksOnThreadPool =>
      exact { h.subAll (c := .inPool) hnd (by simp) rfl hunits with }
  | @collect ks hl hnd hwaiting =>
    have hgoto : (s.gotoAll ks .collected).Ledger :=
      h.gotoAll (by simp) fun k hk => by rw [hwaiting k hk]; rfl
    exact { hgoto with }
  | collectScheduled hl =>
    have hgoto : (s.gotoAll s.mScheduledOps .collected).Ledger := by
      refine h.gotoAll (by simp) fun k hk => ?_
      have hplace := (hcustody.housed.mem_iff .ops k).mp hk
      cases hc : s.pc k <;> simp_all [Pc.place, Pc.units]
    exact { hgoto with }
  | @finalSuspend k hs hf hb =>
    refine h.finalSuspend hs hf fun hidle => ?_
    -- a call that has not been made is not known to the pool either
    have hpool := hapart.idle k (by simp [hidle, Pc.Handed])
    simp [State.begun, hidle, hpool, ThreadPool.Pc.Begun] at hb
  | _ => exact { h with }

end State.Ledger

/-! ## The pool inside the scheduler -/

variable [DecidableEq ω] {strategy : ExecutionStrategy} {s s' : State κ ω} {a : Action κ ω}

/-- What the scheduler lets its pool do: a call is one that the scheduler passes on, with a valid
handle and never as a `spawn_detached` of the pool. -/
structure Passed (s : State κ ω) (a : Action κ ω) (b : ThreadPool.Action κ ω) : Prop where
  calls : ∀ k ∈ b.calls, (s.pc k).Handed
  sparing : ∀ k, b.Sparing k
  not_spawn : ∀ k, b ≠ .spawnDetached k
  advance : ∀ k, b = .advance k → a = .poolAdvance k

/-- A step of the scheduler leaves the pool alone or is a step of it. -/
lemma Transition.pool_step (hcustody : s.Custody) (ht : Transition strategy s a s') :
    s'.pool = s.pool ∨ ∃ b, ThreadPool.step s.pool b = some s'.pool ∧ Passed s' a b := by
  cases ht with
  | @awaitPool k p _ hk hp =>
    refine Or.inr ⟨_, hp, ⟨fun j hj => ?_, fun j _ => rfl, by simp, by simp⟩⟩
    obtain rfl : j = k := by simpa [ThreadPool.Action.calls] using hj
    simp [Pc.Handed]
  | @beginRange first r p _ hl hr hp =>
    refine Or.inr ⟨_, hp, ⟨fun j hj => ?_, fun j => ?_, by simp, by simp⟩⟩
    · have hmem : j ∈ s.mHandlesToResume := by
        simpa [ThreadPool.Action.calls, Function.comp_def] using hj
      rcases hcustody.collected_or_resumed hmem with hj | hj <;> simp [hj, Pc.Handed]
    · simp [ThreadPool.Action.Sparing, ThreadPool.mem_nullsOf]
  | lockRange _ hp | undoRange _ hp | poolAdvance hp | poolWorker hp | poolShutdown _ hp =>
    -- the pool goes on by itself, without a call
    exact Or.inr ⟨_, hp, ⟨by simp [ThreadPool.Action.calls], fun _ => trivial, by simp, by simp⟩⟩
  | _ => exact Or.inl rfl

/-- What was passed on to the pool is not taken back. -/
lemma Transition.handed (ht : Transition strategy s a s') {k : κ}
    (hk : (s.pc k).Handed) : (s'.pc k).Handed := by
  -- a call that is not handed over yet may go anywhere
  have hother : ∀ {j : κ} {c : Pc}, ¬ (s.pc j).Handed → (update s.pc j c k).Handed := by
    intro j c hj
    have hkj : k ≠ j := fun heq => hj (heq ▸ hk)
    simpa [hkj] using hk
  cases ht with
  | spawnDetached hj | resume hj | schedule hj | wait hj | resumeAccept hj _ | resumeReject hj _
  | awaitInline _ hj | awaitPool _ hj _ | push hj
  | register hj => exact hother (by simp [hj, Pc.Handed])
  | @resumeHandle first j ks hl =>
    by_cases hkj : k = j
    · subst hkj
      simp [Pc.Handed]
    · simpa [hkj] using hk
  | sub hl =>
    by_cases hmem : k ∈ s.mHandlesToResume
    · cases strategy <;> simp [hmem, Pc.Handed]
    · simpa [State.fetchSub, hmem] using hk
  | @collect ks hl hnd hwaiting =>
    by_cases hmem : k ∈ ks
    · simp [hmem, Pc.Handed]
    · simpa [hmem] using hk
  | collectScheduled hl =>
    by_cases hmem : k ∈ s.mScheduledOps
    · simp [hmem, Pc.Handed]
    · simpa [hmem] using hk
  | _ => exact hk

/-- The pool inside a scheduler is a pool. -/
lemma pool_reachable (h : (machine strategy κ ω).Reachable s) :
    s.Custody ∧ (ThreadPool.machine κ ω).Reachable s.pool := by
  refine h.invariant (I := fun s => s.Custody ∧ (ThreadPool.machine κ ω).Reachable s.pool)
    ⟨custody_start, Machine.Reachable.start⟩ fun s a s' _ hs hstep => ?_
  have ht := step_transition hstep
  refine ⟨hs.1.transition ht, ?_⟩
  rcases ht.pool_step hs.1 with hpool | ⟨b, hb, -⟩
  · rw [hpool]
    exact hs.2
  · exact hs.2.tail hb

/-- Every step keeps the pool apart from what was not passed on to it. -/
lemma State.Apart.transition (h : s.Apart) (hcustody : s.Custody)
    (hpool : (ThreadPool.machine κ ω).Reachable s.pool) (ht : Transition strategy s a s') :
    s'.Apart := by
  have hkeep : ∀ k, ¬ (s'.pc k).Handed → s.pool.pc k = .idle := fun k hk =>
    h.idle k fun hk' => hk (ht.handed hk')
  rcases ht.pool_step hcustody with heq | ⟨b, hb, hpassed⟩
  · exact ⟨fun k hk => heq ▸ hkeep k hk, fun k => heq ▸ h.unspawned k⟩
  · have hbt := ThreadPool.step_transition hb
    refine ⟨fun k hk => ?_, fun k => ?_⟩
    · have hmove := hbt.move (ThreadPool.accounts_of_reachable hpool).1 k
      rw [hkeep k hk] at hmove
      exact hmove.eq_idle fun hcall => hk (hpassed.calls k hcall)
    · rw [hbt.spawned_eq (hpassed.not_spawn k)]
      exact h.unspawned k

/-- In every state the counter of the scheduler is the sum of its units, and the pool knows only
of what was passed on to it. -/
lemma accounts_of_reachable (h : (machine strategy κ ω).Reachable s) : s.Apart ∧ s.Ledger :=
  h.invariant (I := fun s => s.Apart ∧ s.Ledger) ⟨apart_start, ledger_start⟩
    fun _ _ _ hreach hs hstep =>
      have hpool := pool_reachable hreach
      ⟨hs.1.transition hpool.1 hpool.2 (step_transition hstep),
        hs.2.transition hpool.1 hs.1 (step_transition hstep)⟩

end Libcoro.Scheduler.EventLoop
