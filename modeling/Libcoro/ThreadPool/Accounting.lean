import Libcoro.Foundations.Placement
import Libcoro.ThreadPool.Model

/-!
# What the pool counts

`m_size` is the sum of what the submissions have in it: one unit from the increment of a call
until its undoing or until the worker that executed the handle decrements, and another one for
`spawn_detached` until the coroutine has run to its end.  This needs to know in whose custody a
handle is, so that nobody else decrements for it: in `m_queue`, with one worker, or in the range
of one call.
-/

namespace Libcoro.ThreadPool

open Foundations Function

variable {κ ω : Type*}

/-- The places in which a submission can be in custody. -/
inductive Place (κ ω : Type*)
  | queue
  | taken (w : ω)
  | executing (w : ω)
  | pending (r : κ)
  | pendingNull (r : κ)

/-- The place of a submission, if it is in custody. -/
def Pc.place : Pc κ ω → Option (Place κ ω)
  | .queued => some .queue
  | .taken w => some (.taken w)
  | .executing w => some (.executing w)
  | .pending r => some (.pending r)
  | .pendingNull r => some (.pendingNull r)
  | _ => none

/-- The control point of the submissions in a place. -/
def Place.pc : Place κ ω → Pc κ ω
  | .queue => .queued
  | .taken w => .taken w
  | .executing w => .executing w
  | .pending r => .pending r
  | .pendingNull r => .pendingNull r

lemma Pc.eq_of_place {c : Pc κ ω} {p : Place κ ω} (h : c.place = some p) : c = p.pc := by
  cases c <;> cases p <;> simp_all [Pc.place, Place.pc]

/-- The handle that a worker has taken and not resumed yet. -/
def WorkerPc.hand : WorkerPc κ → List κ
  | .run k _ => [k]
  | _ => []

/-- The handle that a worker executes. -/
def WorkerPc.executes : WorkerPc κ → List κ
  | .sub k _ => [k]
  | _ => []

/-- The handles that a call of `resume(range)` is about to enqueue. -/
def RangePc.handles : RangePc κ → List κ
  | .lock hs => handlesOf hs
  | _ => []

/-- The null handles for which a call of `resume(range)` has not decremented yet. -/
def RangePc.nulls : RangePc κ → List κ
  | .lock hs => nullsOf hs
  | .undo hs => nullsOf hs
  | _ => []

/-- The submissions in each place. -/
def State.contents (s : State κ ω) : Place κ ω → List κ
  | .queue => s.mQueue
  | .taken w => (s.worker w).hand
  | .executing w => (s.worker w).executes
  | .pending r => (s.range r).handles
  | .pendingNull r => (s.range r).nulls

/-- Every submission is in the custody that its control point says. -/
def State.Custody (s : State κ ω) : Prop :=
  Housed s.contents fun k => (s.pc k).place

variable {k : κ}

/-- The submissions in a place are where their control point says. -/
lemma State.Custody.pc_eq {s : State κ ω} (h : s.Custody) {p : Place κ ω}
    (hk : k ∈ s.contents p) : s.pc k = p.pc :=
  Pc.eq_of_place ((Housed.mem_iff h p k).mp hk)

/-- The units of `m_size` that belong to the call itself. -/
def Pc.units : Pc κ ω → ℕ
  | .idle | .spawnResume | .done | .rejected => 0
  | _ => 1

/-- The unit of `m_size` that belongs to `spawn_detached`. -/
@[simp] def State.spawnUnits (s : State κ ω) (k : κ) : ℕ :=
  if s.spawned k && !s.finished k then 1 else 0

/-- `m_size` is the sum of the units of all submissions. -/
structure State.Ledger (s : State κ ω) : Prop where
  tally : Tally s.charge s.mSize
  charge : ∀ k, s.charge k = (s.pc k).units + s.spawnUnits k
  unspawned : ∀ k, s.pc k = .idle → s.spawned k = false
  begun : ∀ k, s.finished k = true → (s.pc k).Begun = true

/-- The ledger as the books of `m_size`. -/
lemma State.ledger_iff {s : State κ ω} : s.Ledger ↔
    Books Pc.units .idle (fun c => c.Begun = true) s.pc s.spawned s.finished s.charge s.mSize :=
  ⟨fun h => ⟨h.tally, h.charge, h.unspawned, h.begun⟩,
    fun h => ⟨h.tally, h.units_eq, h.unspawned, h.begun⟩⟩

/-- A submission with a unit of its own is counted, so `m_size` is not zero. -/
lemma State.Ledger.mSize_pos {s : State κ ω} (h : s.Ledger) (hk : (s.pc k).units = 1) :
    0 < s.mSize :=
  (State.ledger_iff.mp h).pos hk

variable {hs : List (κ × Bool)}

lemma mem_handlesOf : k ∈ handlesOf hs ↔ (k, true) ∈ hs := by
  simp [handlesOf]

lemma mem_nullsOf : k ∈ nullsOf hs ↔ (k, false) ∈ hs := by
  simp [nullsOf]

lemma mem_map_fst_iff :
    k ∈ hs.map Prod.fst ↔ k ∈ handlesOf hs ∨ k ∈ nullsOf hs := by
  rw [mem_handlesOf, mem_nullsOf]
  simp [or_comm]

lemma nodup_handlesOf (h : (hs.map Prod.fst).Nodup) :
    (handlesOf hs).Nodup :=
  h.sublist (List.filter_sublist.map Prod.fst)

lemma nodup_nullsOf (h : (hs.map Prod.fst).Nodup) : (nullsOf hs).Nodup :=
  h.sublist (List.filter_sublist.map Prod.fst)

/-- A range names every handle once, so none is null and not null. -/
lemma not_mem_nullsOf (h : (hs.map Prod.fst).Nodup)
    (hk : k ∈ handlesOf hs) : k ∉ nullsOf hs := by
  intro hk'
  rw [mem_handlesOf] at hk
  rw [mem_nullsOf] at hk'
  have := List.inj_on_of_nodup_map h hk hk' rfl
  simp at this

lemma custody_start : (start : State κ ω).Custody := by
  refine ⟨fun p => ?_, fun p k => ?_⟩
  · cases p <;> simp [State.contents, start, WorkerPc.hand, WorkerPc.executes, RangePc.handles,
      RangePc.nulls]
  · cases p <;> simp [State.contents, start, WorkerPc.hand, WorkerPc.executes, RangePc.handles,
      RangePc.nulls, Pc.place]

lemma ledger_start : (start : State κ ω).Ledger where
  tally := Tally.zero
  charge := by simp [start, Pc.units]
  unspawned := by simp [start]
  begun := by simp [start]

/-- A worker moves without a handle. -/
lemma State.Custody.workerGoto [DecidableEq ω] {s : State κ ω} (h : s.Custody) {w : ω}
    {c c' : WorkerPc κ} (hw : s.worker w = c) (hc : c.hand = [] ∧ c.executes = [])
    (hc' : c'.hand = [] ∧ c'.executes = []) : (s.workerGoto w c').Custody := by
  refine h.congr (fun p => ?_) fun _ => rfl
  cases p with
  | taken v =>
    by_cases hv : v = w
    · subst hv
      simp [State.contents, hw, hc.1, hc'.1]
    · simp [State.contents, hv]
  | executing v =>
    by_cases hv : v = w
    · subst hv
      simp [State.contents, hw, hc.2, hc'.2]
    · simp [State.contents, hv]
  | _ => rfl

variable [DecidableEq κ]

namespace State.Custody

variable {s s' : State κ ω}

variable {c : Pc κ ω}

/-- A submission moves outside of all custody. -/
lemma goto (h : s.Custody) {k : κ} (hk : (s.pc k).place = none)
    (hc : c.place = none) (hpc : s'.pc = update s.pc k c)
    (hcontents : s'.contents = s.contents) : s'.Custody := by
  refine h.congr (fun p => by rw [hcontents]) fun j => ?_
  rw [hpc]
  by_cases hjk : j = k
  · subst hjk
    simp [hk, hc]
  · simp [hjk]

/-- Submissions enter `m_queue` from `src`, which gives them away. -/
lemma emplace (h : s.Custody) {ks : List κ} (src : Option (Place κ ω)) (hks : ks.Nodup)
    (hsrc : ∀ k ∈ ks, (s.pc k).place = src) (hne : src ≠ some .queue)
    (hpc : s'.pc = (s.emplace ks).pc) (hqueue : s'.mQueue = s.mQueue ++ ks)
    (hleave : ∀ p, src = some p → (s.contents p).Perm (ks ++ s'.contents p))
    (hother : ∀ p, src ≠ some p → p ≠ .queue → s'.contents p = s.contents p) : s'.Custody := by
  refine Housed.move h ks src _ hne hks hsrc (fun k hk => ?_) (fun k hk => ?_) hleave
    (fun p hp => ?_) (fun p hp hq => hother p hp fun heq => hq (by rw [heq]))
  · simp [hpc, hk, Pc.place]
  · simp [hpc, hk]
  · obtain rfl : Place.queue = p := by simpa using hp
    exact .of_eq hqueue

/-- Submissions that were called come into the custody of a call of `resume(range)`. -/
lemma enterRange (h : s.Custody) {ks : List κ} {q : Place κ ω} (hks : ks.Nodup)
    (hidle : ∀ k ∈ ks, (s.pc k).place = none) (hc : c.place = some q)
    (hpc : s'.pc = (s.gotoAll ks c).pc) (hq : s'.contents q = s.contents q ++ ks)
    (hother : ∀ p, p ≠ q → s'.contents p = s.contents p) : s'.Custody := by
  refine Housed.move h ks none (some q) (by simp) hks hidle (fun k hk => ?_) (fun k hk => ?_)
    (by simp) (fun p hp => ?_) (fun p _ hp => hother p fun heq => hp (by rw [heq]))
  · simp [hpc, hk, hc]
  · simp [hpc, hk]
  · obtain rfl : q = p := by simpa using hp
    exact .of_eq hq

/-- The elements of a range come into the custody of the call. -/
lemma resumeRange (h : s.Custody) {r : κ} {hs : List (κ × Bool)} (hr : s.range r = .idle)
    (hnd : (hs.map Prod.fst).Nodup) (hidle : ∀ k ∈ hs.map Prod.fst, s.pc k = .idle) :
    State.Custody { ((s.fetchAdd (hs.map Prod.fst)).gotoAll (handlesOf hs)
        (.pending r)).gotoAll (nullsOf hs) (.pendingNull r) with
      range := update s.range r (.lock hs) } := by
  -- first the handles, as if the range had no others, then the null handles
  have hfirst : State.Custody { s.gotoAll (handlesOf hs) (.pending r) with
      range := update s.range r (.lock (hs.filter (·.2))) } := by
    refine h.enterRange (nodup_handlesOf hnd) (fun k hk => ?_) rfl rfl ?_ (fun p hp => ?_)
    · rw [hidle k (mem_map_fst_iff.mpr (Or.inl hk))]
      rfl
    · simp [State.contents, hr, RangePc.handles, handlesOf]
    · cases p with
      | pending j =>
        have hj : j ≠ r := fun heq => hp (by rw [heq])
        simp [State.contents, hj]
      | pendingNull j =>
        by_cases hj : j = r
        · subst hj
          simp [State.contents, hr, RangePc.nulls, nullsOf]
        · simp [State.contents, hj]
      | _ => rfl
  refine hfirst.enterRange (nodup_nullsOf hnd) (fun k hk => ?_) rfl rfl ?_ (fun p hp => ?_)
  · have hnot : k ∉ handlesOf hs := fun hk' => not_mem_nullsOf hnd hk' hk
    simp [hnot, hidle k (mem_map_fst_iff.mpr (Or.inr hk)), Pc.place]
  · simp [State.contents, RangePc.nulls, nullsOf]
  · cases p with
    | pending j =>
      by_cases hj : j = r
      · subst hj
        simp [State.contents, RangePc.handles, handlesOf]
      · simp [State.contents, hj]
    | pendingNull j =>
      have hj : j ≠ r := fun heq => hp (by rw [heq])
      simp [State.contents, hj]
    | _ => rfl

/-- The critical section of `resume(range)`. -/
lemma emplaceRange (h : s.Custody) {r : κ} {hs : List (κ × Bool)} (hr : s.range r = .lock hs) :
    State.Custody { s.emplace (handlesOf hs) with
      range := update s.range r (.undo hs) } := by
  have hnd : (handlesOf hs).Nodup := by
    simpa [State.contents, hr, RangePc.handles] using Housed.nodup h (.pending r)
  refine h.emplace (some (.pending r)) hnd (fun k hk => ?_) (by simp) rfl rfl
    (fun p hp => ?_) (fun p hp hq => ?_)
  · rw [← Housed.mem_iff h]
    simpa [State.contents, hr, RangePc.handles] using hk
  · obtain rfl : Place.pending r = p := by simpa using hp
    simp [State.contents, hr, RangePc.handles]
  · cases p with
    | queue => exact (hq rfl).elim
    | pending j =>
      have hj : j ≠ r := fun heq => hp (by rw [heq])
      simp [State.contents, hj]
    | pendingNull j =>
      by_cases hj : j = r
      · subst hj
        simp [State.contents, hr, RangePc.nulls]
      · simp [State.contents, hj]
    | _ => rfl

/-- The null handles of a range are given up. -/
lemma undoRange (h : s.Custody) {r : κ} {hs : List (κ × Bool)} {n : ℕ}
    (hr : s.range r = .undo hs) :
    State.Custody { (s.fetchSub (nullsOf hs)).gotoAll (nullsOf hs) .rejected with
      range := update s.range r (.returned n) } := by
  have hnd : (nullsOf hs).Nodup := by
    simpa [State.contents, hr, RangePc.nulls] using Housed.nodup h (.pendingNull r)
  refine Housed.move h _ (some (.pendingNull r)) none (by simp) hnd
    (fun k hk => ?_) (fun k hk => ?_) (fun k hk => ?_) (fun p hp => ?_) (by simp)
    (fun p hp _ => ?_)
  · rw [← Housed.mem_iff h]
    simpa [State.contents, hr, RangePc.nulls] using hk
  · simp [hk, Pc.place]
  · simp [hk]
  · obtain rfl : Place.pendingNull r = p := by simpa using hp
    simp [State.contents, hr, RangePc.nulls]
  · cases p with
    | pending j =>
      by_cases hj : j = r
      · subst hj
        simp [State.contents, hr, RangePc.handles]
      · simp [State.contents, hj]
    | pendingNull j =>
      have hj : j ≠ r := fun heq => hp (by rw [heq])
      simp [State.contents, hj]
    | _ => rfl

/-- A handle passes from one place to another, or out of custody. -/
lemma pass (h : s.Custody) {k : κ} {src : Option (Place κ ω)}
    (hne : src ≠ c.place) (hk : (s.pc k).place = src) (hpc : s'.pc = update s.pc k c)
    (hleave : ∀ p, src = some p → (s.contents p).Perm (k :: s'.contents p))
    (henter : ∀ p, c.place = some p → s'.contents p = s.contents p ++ [k])
    (hother : ∀ p, src ≠ some p → c.place ≠ some p → s'.contents p = s.contents p) :
    s'.Custody := by
  refine Housed.move h [k] src _ hne (List.nodup_singleton k) (fun j hj => ?_) (fun j hj => ?_)
    (fun j hj => ?_) hleave (fun p hp => .of_eq (henter p hp)) hother
  · rw [List.mem_singleton.mp hj]
    exact hk
  · rw [List.mem_singleton.mp hj, hpc]
    simp
  · have : j ≠ k := by simpa using hj
    simp [hpc, this]

variable [DecidableEq ω]

/-- Every step respects the custody of the others. -/
lemma transition (h : s.Custody) {a : Action κ ω} (ht : Transition s a s') : s'.Custody := by
  cases ht with
  | schedule hk | scheduleAccept hk _ | scheduleReject hk _ | scheduleUndo hk | await hk
  | spawnDetached hk | spawnResume hk | resume hk | resumeInvalid hk _ | resumeAccept hk _
  | resumeReject hk _ | resumeUndo hk => exact h.goto (by simp [hk, Pc.place]) rfl rfl rfl
  | @enqueue k hk =>
    refine h.emplace none (List.nodup_singleton k) (fun j hj => ?_) (by simp) rfl rfl
      (by simp) (fun p _ hq => ?_)
    · rw [List.mem_singleton.mp hj, hk]
      rfl
    · cases p with
      | queue => exact (hq rfl).elim
      | _ => rfl
  | resumeRange hr hnd hidle => exact h.resumeRange hr hnd hidle
  | emplaceRange hr => exact h.emplaceRange hr
  | undoRange hr => exact h.undoRange hr
  | beginDrain hw _ | beginWait hw _ | endWait hw _ _ | drain hw _ | leaveZero hw _
  | leaveEmpty hw _ => exact h.workerGoto hw ⟨rfl, rfl⟩ ⟨rfl, rfl⟩
  | @take w k rest drain hw hq =>
    have hk : (s.pc k).place = some .queue := by
      rw [← Housed.mem_iff h]
      simp [State.contents, hq]
    refine h.pass (c := .taken w) (by simp [Pc.place]) hk rfl (fun p hp => ?_)
      (fun p hp => ?_) (fun p hp hp' => ?_)
    · obtain rfl : Place.queue = p := by simpa using hp
      simp [State.contents, hq]
    · obtain rfl : Place.taken w = p := by simpa [Pc.place] using hp
      cases drain <;> simp [State.contents, WorkerPc.hand, hw]
    · cases p with
      | queue => exact (hp rfl).elim
      | taken v =>
        have hv : v ≠ w := fun heq => hp' (by rw [heq]; rfl)
        simp [State.contents, hv]
      | executing v =>
        by_cases hv : v = w
        · subst hv
          cases drain <;> simp [State.contents, WorkerPc.executes, hw]
        · simp [State.contents, hv]
      | _ => rfl
  | @run w k drain hw =>
    have hk : (s.pc k).place = some (.taken w) := by
      rw [← Housed.mem_iff h]
      simp [State.contents, hw, WorkerPc.hand]
    refine h.pass (c := .executing w) (by simp [Pc.place]) hk rfl (fun p hp => ?_)
      (fun p hp => ?_) (fun p hp hp' => ?_)
    · obtain rfl : Place.taken w = p := by simpa using hp
      simp [State.contents, WorkerPc.hand, hw]
    · obtain rfl : Place.executing w = p := by simpa [Pc.place] using hp
      simp [State.contents, WorkerPc.executes, hw]
    · cases p with
      | taken v =>
        have hv : v ≠ w := fun heq => hp (by rw [heq])
        simp [State.contents, hv]
      | executing v =>
        have hv : v ≠ w := fun heq => hp' (by rw [heq]; rfl)
        simp [State.contents, hv]
      | _ => rfl
  | @sub w k drain hw =>
    have hk : (s.pc k).place = some (.executing w) := by
      rw [← Housed.mem_iff h]
      simp [State.contents, hw, WorkerPc.executes]
    refine h.pass (c := .done) (by simp [Pc.place]) hk rfl (fun p hp => ?_)
      (by simp [Pc.place]) (fun p hp _ => ?_)
    · obtain rfl : Place.executing w = p := by simpa using hp
      cases drain <;> simp [State.contents, WorkerPc.executes, hw]
    · cases p with
      | taken v =>
        by_cases hv : v = w
        · subst hv
          cases drain <;> simp [State.contents, WorkerPc.hand, hw]
        · simp [State.contents, hv]
      | executing v =>
        have hv : v ≠ w := fun heq => hp (by rw [heq])
        simp [State.contents, hv]
      | _ => rfl
  | finalSuspend _ _ _ | shutdown => exact h.congr (fun p => by cases p <;> rfl) fun _ => rfl

end State.Custody

lemma gotoAll_singleton (s : State κ ω) (k : κ) (c : Pc κ ω) : s.gotoAll [k] c = s.goto k c := by
  rw [State.gotoAll, State.goto, ite_mem_singleton]

namespace State.Ledger

variable {s s' : State κ ω}

variable {c : Pc κ ω} {ks : List κ}

/-- Submissions go on while their units stay the same. -/
lemma gotoAll (h : s.Ledger) (hc : c ≠ .idle)
    (hunits : ∀ k ∈ ks, (s.pc k).units = c.units)
    (hbegun : ∀ k ∈ ks, (s.pc k).Begun = true → c.Begun = true) : (s.gotoAll ks c).Ledger :=
  State.ledger_iff.mpr ((State.ledger_iff.mp h).moveAll hc hbegun hunits)

/-- Submissions are counted. -/
lemma addAll (h : s.Ledger) (hks : ks.Nodup) (hc : c.units = 1)
    (hunits : ∀ k ∈ ks, (s.pc k).units = 0) (hbegun : ∀ k ∈ ks, (s.pc k).Begun = false) :
    ((s.fetchAdd ks).gotoAll ks c).Ledger := by
  have hidle : c ≠ .idle := by
    rintro rfl
    simp [Pc.units] at hc
  refine State.ledger_iff.mpr ((State.ledger_iff.mp h).creditAll hks hidle (fun k hk hb => ?_)
    fun k hk => ?_)
  · simp [hbegun k hk] at hb
  · rw [hunits k hk, hc]

/-- Submissions are not counted any longer. -/
lemma subAll (h : s.Ledger) (hks : ks.Nodup) (hidle : c ≠ .idle)
    (hc : c.units = 0) (hunits : ∀ k ∈ ks, (s.pc k).units = 1)
    (hbegun : ∀ k ∈ ks, (s.pc k).Begun = true → c.Begun = true) :
    ((s.fetchSub ks).gotoAll ks c).Ledger :=
  State.ledger_iff.mpr ((State.ledger_iff.mp h).debitAll hks hidle hbegun fun k hk => by
    rw [hunits k hk, hc])

variable {c' : Pc κ ω}

lemma goto (h : s.Ledger) {k : κ} (hk : s.pc k = c) (hc' : c' ≠ .idle)
    (hunits : c.units = c'.units) (hbegun : c.Begun = true → c'.Begun = true) :
    (s.goto k c').Ledger := by
  rw [← gotoAll_singleton]
  exact h.gotoAll hc' (by simpa [hk] using hunits) (by simpa [hk] using hbegun)

lemma add (h : s.Ledger) {k : κ} (hk : s.pc k = c) (hc' : c'.units = 1)
    (hc : c.units = 0) (hbegun : c.Begun = false) : ((s.fetchAdd [k]).goto k c').Ledger := by
  rw [← gotoAll_singleton]
  exact h.addAll (List.nodup_singleton k) hc' (by simpa [hk] using hc) (by simpa [hk] using hbegun)

lemma sub (h : s.Ledger) {k : κ} (hk : s.pc k = c) (hidle : c' ≠ .idle)
    (hc' : c'.units = 0) (hc : c.units = 1) (hbegun : c.Begun = true → c'.Begun = true) :
    ((s.fetchSub [k]).goto k c').Ledger := by
  rw [← gotoAll_singleton]
  exact h.subAll (List.nodup_singleton k) hidle hc' (by simpa [hk] using hc)
    (by simpa [hk] using hbegun)

/-- The elements of a range are counted all at once. -/
lemma resumeRange (h : s.Ledger) {r : κ} {hs : List (κ × Bool)} (hnd : (hs.map Prod.fst).Nodup)
    (hidle : ∀ k ∈ hs.map Prod.fst, s.pc k = .idle) :
    (((s.fetchAdd (hs.map Prod.fst)).gotoAll (handlesOf hs) (.pending r)).gotoAll (nullsOf hs)
      (.pendingNull r)).Ledger := by
  have hall : ((s.fetchAdd (hs.map Prod.fst)).gotoAll (hs.map Prod.fst) (.pending r)).Ledger :=
    h.addAll hnd rfl (fun k hk => by rw [hidle k hk]; rfl) (fun k hk => by rw [hidle k hk]; rfl)
  have hnulls : (((s.fetchAdd (hs.map Prod.fst)).gotoAll (hs.map Prod.fst) (.pending r)).gotoAll
      (nullsOf hs) (.pendingNull r)).Ledger :=
    hall.gotoAll (by simp)
      (fun k hk => by simp [mem_map_fst_iff, hk, Pc.units])
      (fun k hk => by simp [mem_map_fst_iff, hk, Pc.Begun])
  -- the null handles may be taken for handles in between
  have hpc : (((s.fetchAdd (hs.map Prod.fst)).gotoAll (handlesOf hs) (.pending r)).gotoAll
      (nullsOf hs) (.pendingNull r)).pc = (((s.fetchAdd (hs.map Prod.fst)).gotoAll
      (hs.map Prod.fst) (.pending r)).gotoAll (nullsOf hs) (.pendingNull r)).pc := by
    funext k
    by_cases hk : k ∈ nullsOf hs
    · simp [hk]
    · simp only [State.gotoAll, hk, mem_map_fst_iff, or_false]
  refine ⟨hnulls.tally, fun k => ?_, fun k hk => ?_, fun k hk => ?_⟩
  · rw [hpc]
    exact hnulls.charge k
  · rw [hpc] at hk
    exact hnulls.unspawned k hk
  · rw [hpc]
    exact hnulls.begun k hk

/-- `spawn_detached` counts its coroutine before `resume` does. -/
lemma spawnDetached (h : s.Ledger) {k : κ} (hk : s.pc k = .idle) :
    State.Ledger { (s.fetchAdd [k]).goto k .spawnResume with
      spawned := update s.spawned k true } :=
  State.ledger_iff.mpr ((State.ledger_iff.mp h).spawn hk (by simp [Pc.Begun]) (by simp) rfl)

/-- The callback of `spawn_detached`. -/
lemma finalSuspend (h : s.Ledger) {k : κ} (hspawned : s.spawned k = true)
    (hfinished : s.finished k = false) (hbegun : (s.pc k).Begun = true) :
    State.Ledger { s.fetchSub [k] with finished := update s.finished k true } :=
  State.ledger_iff.mpr ((State.ledger_iff.mp h).finish hspawned hfinished hbegun)

variable [DecidableEq ω]

/-- Every step keeps the ledger. -/
lemma transition (h : s.Ledger) (hcustody : s.Custody) {a : Action κ ω} (ht : Transition s a s') :
    s'.Ledger := by
  cases ht with
  | schedule hk | spawnResume hk | resume hk => exact h.add hk rfl rfl rfl
  | scheduleAccept hk _ | scheduleReject hk _ | await hk | resumeInvalid hk _ | resumeAccept hk _
  | resumeReject hk _ => exact h.goto hk (by simp) rfl (by simp [Pc.Begun])
  | scheduleUndo hk | resumeUndo hk => exact h.sub hk (by simp) rfl rfl (by simp [Pc.Begun])
  | spawnDetached hk => exact h.spawnDetached hk
  | @enqueue k hk =>
    have hgoto : (s.gotoAll [k] .queued).Ledger :=
      h.gotoAll (by simp) (by simp [hk, Pc.units]) (by simp [hk, Pc.Begun])
    exact { hgoto with }
  | @resumeRange r hs hr hnd hidle =>
    exact { h.resumeRange (r := r) hnd hidle with }
  | @emplaceRange r hs hr =>
    have hpc : ∀ k ∈ handlesOf hs, s.pc k = .pending r := fun k hk =>
      hcustody.pc_eq (p := .pending r) (by simpa [State.contents, hr, RangePc.handles] using hk)
    have hgoto : (s.gotoAll (handlesOf hs) .queued).Ledger :=
      h.gotoAll (by simp) (fun k hk => by rw [hpc k hk]; rfl)
        (fun k hk => by simp [hpc k hk, Pc.Begun])
    exact { hgoto with }
  | @undoRange r hs hr =>
    have hpc : ∀ k ∈ nullsOf hs, s.pc k = .pendingNull r := fun k hk =>
      hcustody.pc_eq (p := .pendingNull r) (by simpa [State.contents, hr, RangePc.nulls] using hk)
    have hnd : (nullsOf hs).Nodup := by
      simpa [State.contents, hr, RangePc.nulls] using Housed.nodup hcustody (.pendingNull r)
    have hsub : ((s.fetchSub (nullsOf hs)).gotoAll (nullsOf hs) .rejected).Ledger :=
      h.subAll hnd (by simp) rfl (fun k hk => by rw [hpc k hk]; rfl)
        (fun k hk => by simp [hpc k hk, Pc.Begun])
    exact { hsub with }
  | @take w k rest drain hw hq =>
    have hk : s.pc k = .queued := hcustody.pc_eq (p := .queue) (by simp [State.contents, hq])
    have hgoto : (s.goto k (.taken w)).Ledger := h.goto hk (by simp) rfl (by simp [Pc.Begun])
    exact { hgoto with }
  | @run w k drain hw =>
    have hk : s.pc k = .taken w :=
      hcustody.pc_eq (p := .taken w) (by simp [State.contents, hw, WorkerPc.hand])
    have hgoto : (s.goto k (.executing w)).Ledger := h.goto hk (by simp) rfl (by simp [Pc.Begun])
    exact { hgoto with }
  | @sub w k drain hw =>
    have hk : s.pc k = .executing w :=
      hcustody.pc_eq (p := .executing w) (by simp [State.contents, hw, WorkerPc.executes])
    have hsub : ((s.fetchSub [k]).goto k .done).Ledger :=
      h.sub hk (by simp) rfl rfl (by simp [Pc.Begun])
    exact { hsub with }
  | finalSuspend hs hf hb => exact h.finalSuspend hs hf hb
  | _ => exact { h with }

end State.Ledger

variable [DecidableEq ω]

/-- In every state, handles are in custody and `m_size` is the sum of the units. -/
lemma accounts_of_reachable {s : State κ ω} (h : (machine κ ω).Reachable s) :
    s.Custody ∧ s.Ledger :=
  h.invariant (I := fun s => s.Custody ∧ s.Ledger) ⟨custody_start, ledger_start⟩
    fun _ _ _ _ hs hstep =>
    ⟨hs.1.transition (step_transition hstep), hs.2.transition hs.1 (step_transition hstep)⟩

/-- If `m_size` is zero, then nothing is queued, taken or executed. -/
lemma contents_eq_nil {s : State κ ω} (h : (machine κ ω).Reachable s) (hsize : s.mSize = 0)
    (p : Place κ ω) : s.contents p = [] := by
  obtain ⟨hcustody, hledger⟩ := accounts_of_reachable h
  refine List.eq_nil_iff_forall_not_mem.mpr fun k hk => ?_
  have hunits : (s.pc k).units = 1 := by
    rw [hcustody.pc_eq hk]
    cases p <;> rfl
  have := hledger.mSize_pos hunits
  omega

end Libcoro.ThreadPool
