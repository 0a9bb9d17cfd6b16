import Libcoro.Foundations.Placement
import Libcoro.SharedMutex.Model

/-!
# The books of a shared mutex

The three accounts that each elementary operation keeps: the list of waiters with the order of
arrival (`Lined`), the number of shared users (`Counted`), and the handles of the waiters that
have the lock and do not run yet (`Handled`).
-/

namespace Libcoro.SharedMutex

open Foundations Function

variable {κ : Type*}

/-- The shared holders, with those that have been granted the lock and do not run yet. -/
def Pc.Shares : Pc κ → Prop
  | .granted e => e = false
  | .holding e => e = false
  | .unlocking e => e = false
  | _ => False

/-- The exclusive holders, with those that have been granted the lock and do not run yet. -/
def Pc.Owns : Pc κ → Prop
  | .granted e => e = true
  | .holding e => e = true
  | .unlocking e => e = true
  | _ => False

/-- The waiters that have been granted the lock and do not run yet. -/
def Pc.Granted : Pc κ → Prop
  | .granted _ => True
  | _ => False

/-- The waiter whose resumption is the next step. -/
def Pc.inHand : Pc κ → List κ
  | .resuming w => [w]
  | _ => []

/-- The acquisitions that have not reached the mutex, or were turned away. -/
def Pc.Coming : Pc κ → Prop
  | .idle => True
  | .locking _ => True
  | .trying _ => True
  | .refused => True
  | _ => False

/-- The waiters are `q`, oldest first.  Whoever has reached the mutex has been let in or is one
of them, and those let in came first. -/
structure Lined (s : State κ) (q : List κ) : Prop where
  holds : s.waiters.Holds q
  suspended : ∀ c, c ∈ q ↔ s.pc c = .suspended
  exclusive : s.mExclusiveWaiters = q.countP s.mExclusive
  reached : s.reached = s.grants ++ q
  nodup : s.reached.Nodup
  arrived : ∀ c, c ∈ s.reached ↔ ¬ (s.pc c).Coming

/-- `m_shared_users` counts the shared holders. -/
def Counted (s : State κ) : Prop :=
  {c | (s.pc c).Shares}.encard = s.mSharedUsers

/-- The handle of a granted waiter is with the executor or in the hands of one call, and the
waiter has been granted the lock once. -/
structure Handled (s : State κ) : Prop where
  handles : Parked Pc.inHand Pc.Granted s.executor s.pc
  modes : ∀ c e, s.pc c = .granted e → s.mExclusive c = e
  counts : ∀ c, s.resumed c ≤ s.woken c ∧ s.woken c ≤ 1
  early : ∀ c, (s.pc c).Coming ∨ s.pc c = .suspended → s.woken c = 0
  granted : ∀ c, (s.pc c).Granted → s.woken c = 1 ∧ s.resumed c = 0

/-- Nobody who is coming is on the list or has been let in. -/
lemma Lined.notMem_of_coming {s : State κ} {q : List κ} {c : κ} (h : Lined s q)
    (hc : (s.pc c).Coming) : c ∉ s.reached ∧ c ∉ q := by
  have hreached : c ∉ s.reached := fun hmem => (h.arrived c).mp hmem hc
  refine ⟨hreached, fun hq => hreached ?_⟩
  rw [h.reached]
  exact List.mem_append_right _ hq

/-! ## Shared users -/

section Users

variable [DecidableEq κ] {pc : κ → Pc κ} {c : κ} {p : Pc κ} {n : ℕ}

/-- The shared holders after a move of `c` that does not concern them. -/
lemma shares_update (hp : p.Shares ↔ (pc c).Shares) :
    {d | (update pc c p d).Shares} = {d | (pc d).Shares} := by
  ext d
  rcases eq_or_ne d c with rfl | hd
  · simp [hp]
  · simp [hd]

/-- One more shared holder. -/
lemma encard_shares_enter (h : {d | (pc d).Shares}.encard = n) (hc : ¬ (pc c).Shares)
    (hp : p.Shares) : {d | (update pc c p d).Shares}.encard = (n + 1 : ℕ) := by
  have hset : {d | (update pc c p d).Shares} = insert c {d | (pc d).Shares} := by
    ext d
    rcases eq_or_ne d c with rfl | hd
    · simp [hp]
    · simp [hd]
  have hnot : c ∉ {d | (pc d).Shares} := hc
  rw [hset, Set.encard_insert_of_notMem hnot, h]
  rfl

/-- One shared holder less. -/
lemma encard_shares_leave (h : {d | (pc d).Shares}.encard = n) (hc : (pc c).Shares)
    (hp : ¬ p.Shares) :
    0 < n ∧ {d | (update pc c p d).Shares}.encard = (n - 1 : ℕ) := by
  have hset : {d | (update pc c p d).Shares} = {d | (pc d).Shares} \ {c} := by
    ext d
    rcases eq_or_ne d c with rfl | hd
    · simp [hp]
    · simp [hd]
  have hmem : c ∈ {d | (pc d).Shares} := hc
  have hsum := Set.encard_sdiff_singleton_add_one hmem
  rw [← hset, h] at hsum
  have hfin : {d | (update pc c p d).Shares}.encard ≠ ⊤ := by
    intro htop
    rw [htop] at hsum
    simp at hsum
  obtain ⟨m, hm⟩ := ENat.ne_top_iff_exists.mp hfin
  rw [← hm] at hsum ⊢
  have hmn : m + 1 = n := by exact_mod_cast hsum
  constructor
  · omega
  · have hm' : m = n - 1 := by omega
    rw [hm']

end Users

/-! ## The elementary operations -/

variable [DecidableEq κ] {s : State κ} {q : List κ} {c w : κ} {p : Pc κ}

@[simp] lemma State.goto_pc : (s.goto c p).pc = update s.pc c p := rfl

namespace Lined

/-- A move of `c` that does not concern the waiters. -/
lemma goto (h : Lined s q) (hsusp : p = .suspended ↔ s.pc c = .suspended)
    (hcoming : p.Coming ↔ (s.pc c).Coming) : Lined (s.goto c p) q := by
  refine ⟨h.holds, ?_, h.exclusive, h.reached, h.nodup, ?_⟩
  · intro d
    rw [h.suspended]
    rcases eq_or_ne d c with rfl | hd
    · simp [hsusp]
    · simp [hd]
  · intro d
    have harrived := h.arrived d
    rcases eq_or_ne d c with rfl | hdc
    · simpa [State.goto, hcoming] using harrived
    · simpa [State.goto, hdc] using harrived

/-- A new operation is constructed. -/
lemma construct (h : Lined s q) (hc : (s.pc c).Coming) (e : Bool) :
    Lined (s.construct c e) q := by
  have hq := (h.notMem_of_coming hc).2
  refine ⟨h.holds.alloc hq, h.suspended, ?_, h.reached, h.nodup, h.arrived⟩
  rw [State.construct, h.exclusive]
  apply List.countP_congr
  intro d hd
  have hdc : d ≠ c := fun hdc => hq (hdc ▸ hd)
  simp [hdc]

/-- `c` is let in without waiting, which happens only if nobody waits. -/
lemma letIn (h : Lined s []) (hc : (s.pc c).Coming) (e : Bool) : Lined (s.letIn c e) [] := by
  have hnew := (h.notMem_of_coming hc).1
  refine ⟨h.holds, ?_, h.exclusive, ?_, ?_, ?_⟩
  · intro d
    have hsusp := h.suspended d
    rcases eq_or_ne d c with rfl | hd
    · simp [State.letIn]
    · simpa [State.letIn, hd] using hsusp
  · have hreached := h.reached
    simp only [List.append_nil] at hreached
    simp [State.letIn, hreached]
  · change (s.reached ++ [c]).Nodup
    exact (List.nodup_append_comm.mp (List.nodup_cons.mpr ⟨hnew, h.nodup⟩))
  · intro d
    rcases eq_or_ne d c with rfl | hd
    · simp [State.letIn, Pc.Coming]
    · simpa [State.letIn, hd] using h.arrived d

/-- `c` becomes the last waiter. -/
lemma awaitSuspend (h : Lined s q) (hc : (s.pc c).Coming) (hnext : s.waiters.next c = none) :
    Lined (awaitSuspend s c) (q ++ [c]) := by
  obtain ⟨hnew, hq⟩ := h.notMem_of_coming hc
  refine ⟨h.holds.enqueue hq hnext, ?_, ?_, ?_, ?_, ?_⟩
  · intro d
    rcases eq_or_ne d c with rfl | hd
    · simp [SharedMutex.awaitSuspend]
    · simp [SharedMutex.awaitSuspend, hd, h.suspended]
  · rw [SharedMutex.awaitSuspend, List.countP_append, h.exclusive]
    cases he : s.mExclusive c
    · simp [State.goto, he]
    · simp [State.goto, he]
  · simp [SharedMutex.awaitSuspend, State.goto, h.reached]
  · change (s.reached ++ [c]).Nodup
    exact (List.nodup_append_comm.mp (List.nodup_cons.mpr ⟨hnew, h.nodup⟩))
  · intro d
    rcases eq_or_ne d c with rfl | hd
    · simp [SharedMutex.awaitSuspend, Pc.Coming]
    · simpa [SharedMutex.awaitSuspend, hd] using h.arrived d

/-- What becomes of the list when the first waiter is let in. -/
lemma grant_queue (h : Lined s (w :: q)) (e : Bool) :
    (s.grant w e).waiters.Holds q ∧ (∀ d, d ∈ q ↔ (s.grant w e).pc d = .suspended) ∧
      (s.grant w e).reached = (s.grant w e).grants ++ q ∧
      (∀ d, d ∈ (s.grant w e).reached ↔ ¬ ((s.grant w e).pc d).Coming) := by
  have hnodup := List.nodup_cons.mp h.holds.nodup
  refine ⟨h.holds.dequeue, ?_, ?_, ?_⟩
  · intro d
    rcases eq_or_ne d w with rfl | hd
    · simpa [State.grant] using hnodup.1
    · have hmem := h.suspended d
      simpa [State.grant, hd] using hmem
  · have hreached := h.reached
    simpa [State.grant, State.goto] using hreached
  · intro d
    have harrived := h.arrived d
    rcases eq_or_ne d w with rfl | hdw
    · have hsusp := (h.suspended d).mp List.mem_cons_self
      simpa [State.grant, State.goto, hsusp, Pc.Coming] using harrived
    · simpa [State.grant, State.goto, hdw] using harrived

/-- The first waiter, a shared one, is let in. -/
lemma grantShared (h : Lined s (w :: q)) (he : s.mExclusive w = false) :
    Lined (s.grant w false) q := by
  obtain ⟨hholds, hsusp, hreached, harrived⟩ := h.grant_queue false
  refine ⟨hholds, hsusp, ?_, hreached, h.nodup, harrived⟩
  have hcount := h.exclusive
  rw [List.countP_cons, he] at hcount
  simpa [State.grant, State.goto] using hcount

/-- The first waiter, an exclusive one, is let in. -/
lemma grantExclusive (h : Lined s (w :: q)) (he : s.mExclusive w = true) :
    Lined { s.grant w true with mExclusiveWaiters := s.mExclusiveWaiters - 1 } q := by
  obtain ⟨hholds, hsusp, hreached, harrived⟩ := h.grant_queue true
  refine ⟨hholds, hsusp, ?_, hreached, h.nodup, harrived⟩
  have hcount := h.exclusive
  rw [List.countP_cons, he] at hcount
  simp only [State.grant, State.goto]
  rw [hcount]
  simp

end Lined

namespace Handled

/-- A move of `c`, which neither holds a handle nor is granted the lock. -/
lemma goto (h : Handled s) (hold : ¬ (s.pc c).Granted) (hnew : ¬ p.Granted)
    (hhand : p.inHand = (s.pc c).inHand)
    (hearly : p.Coming ∨ p = .suspended → (s.pc c).Coming ∨ s.pc c = .suspended) :
    Handled (s.goto c p) := by
  refine ⟨?_, ?_, h.counts, ?_, ?_⟩
  · apply Parked.congr h.handles
    intro d
    rcases eq_or_ne d c with rfl | hd
    · simp [hhand, hold, hnew]
    · simp [hd]
  · intro d e hd
    rcases eq_or_ne d c with rfl | hdc
    · have hp : p = .granted e := by simpa using hd
      simp [hp, Pc.Granted] at hnew
    · exact h.modes d e (by simpa [hdc] using hd)
  · intro d hd
    rcases eq_or_ne d c with rfl | hdc
    · exact h.early d (hearly (by simpa using hd))
    · exact h.early d (by simpa [hdc] using hd)
  · intro d hd
    rcases eq_or_ne d c with rfl | hdc
    · simp [hnew] at hd
    · exact h.granted d (by simpa [hdc] using hd)

/-- A new operation is constructed. -/
lemma construct (h : Handled s) (hc : (s.pc c).Coming) (e : Bool) : Handled (s.construct c e) := by
  refine ⟨h.handles, ?_, h.counts, h.early, h.granted⟩
  intro d e' hd
  have hdc : d ≠ c := by
    rintro rfl
    have hpc : s.pc d = .granted e' := hd
    simp [hpc, Pc.Coming] at hc
  simpa [State.construct, hdc] using h.modes d e' hd

/-- Granting the lock to the suspended `w` leaves the counts right. -/
lemma grant_counts (h : Handled s) (hw : s.pc w = .suspended) (e : Bool) :
    (∀ d, s.resumed d ≤ (s.grant w e).woken d ∧ (s.grant w e).woken d ≤ 1) ∧
      (∀ d, ((s.grant w e).pc d).Coming ∨ (s.grant w e).pc d = .suspended →
        (s.grant w e).woken d = 0) ∧
      (∀ d, ((s.grant w e).pc d).Granted → (s.grant w e).woken d = 1 ∧ s.resumed d = 0) := by
  have hwoken := h.early w (Or.inr hw)
  have hresumed : s.resumed w = 0 := by
    have := (h.counts w).1
    omega
  refine ⟨?_, ?_, ?_⟩
  · intro d
    rcases eq_or_ne d w with rfl | hd
    · simp [State.grant, hwoken, hresumed]
    · simpa [State.grant, hd] using h.counts d
  · intro d hd
    rcases eq_or_ne d w with rfl | hdw
    · simp [State.grant, Pc.Coming] at hd
    · simpa [State.grant, hdw] using h.early d (by simpa [State.grant, hdw] using hd)
  · intro d hd
    rcases eq_or_ne d w with rfl | hdw
    · simp [State.grant, hwoken, hresumed]
    · simpa [State.grant, hdw] using h.granted d (by simpa [State.grant, hdw] using hd)

/-- A granted waiter has the mode of its operation. -/
lemma grant_modes (h : Handled s) {e : Bool} (he : s.mExclusive w = e) :
    ∀ d e', (s.grant w e).pc d = .granted e' → s.mExclusive d = e' := by
  intro d e' hd
  rcases eq_or_ne d w with rfl | hdw
  · have hee : e = e' := by simpa [State.grant] using hd
    rw [he, hee]
  · exact h.modes d e' (by simpa [State.grant, hdw] using hd)

/-- A shared waiter is handed to the executor. -/
lemma grantShared (h : Handled s) (hw : s.pc w = .suspended) (he : s.mExclusive w = false)
    (n : ℕ) : Handled { s.grant w false with mSharedUsers := n, executor := w :: s.executor } := by
  obtain ⟨hcounts, hearly, hgranted⟩ := h.grant_counts hw false
  refine ⟨?_, h.grant_modes he, hcounts, hearly, hgranted⟩
  exact Parked.park h.handles (by simp [hw, Pc.Granted]) trivial (by simp [hw, Pc.inHand])

/-- An exclusive waiter is granted the lock by `c`, which is to resume it. -/
lemma grantExclusive (h : Handled s) (hw : s.pc w = .suspended) (he : s.mExclusive w = true)
    (hc : s.pc c = .released) (m : LockState) (n : ℕ) :
    Handled { (s.grant w true).goto c (.resuming w) with mState := m, mExclusiveWaiters := n } := by
  obtain ⟨hcounts, hearly, hgranted⟩ := h.grant_counts hw true
  have hmodes := h.grant_modes he
  have hcw : c ≠ w := by
    rintro rfl
    simp [hw] at hc
  have hpc : (s.grant w true).pc c = .released := by simp [State.grant, hcw, hc]
  have hparked : Parked Pc.inHand Pc.Granted (w :: s.executor) (s.grant w true).pc :=
    Parked.park h.handles (by simp [hw, Pc.Granted]) trivial (by simp [hw, Pc.inHand])
  refine ⟨?_, ?_, hcounts, ?_, ?_⟩
  · refine Parked.exchange hparked ?_ (by simp [hpc, Pc.Granted])
    rw [hpc]
    change (s.executor ++ [w]).Perm (w :: s.executor ++ [])
    rw [List.append_nil]
    exact List.perm_append_singleton w s.executor
  · intro d e hd
    rcases eq_or_ne d c with rfl | hdc
    · simp at hd
    · exact hmodes d e (by simpa [hdc] using hd)
  · intro d hd
    rcases eq_or_ne d c with rfl | hdc
    · simp [Pc.Coming] at hd
    · exact hearly d (by simpa [hdc] using hd)
  · intro d hd
    rcases eq_or_ne d c with rfl | hdc
    · simp [Pc.Granted] at hd
    · exact hgranted d (by simpa [hdc] using hd)

/-- Running a granted waiter leaves the counts right. -/
lemma resume_counts (h : Handled s) (hw : (s.pc w).Granted) :
    (∀ d, (s.resume w).resumed d ≤ s.woken d ∧ s.woken d ≤ 1) ∧
      (∀ d, ((s.resume w).pc d).Coming ∨ (s.resume w).pc d = .suspended → s.woken d = 0) ∧
      (∀ d, ((s.resume w).pc d).Granted → s.woken d = 1 ∧ (s.resume w).resumed d = 0) := by
  obtain ⟨hwoken, hresumed⟩ := h.granted w hw
  refine ⟨?_, ?_, ?_⟩
  · intro d
    rcases eq_or_ne d w with rfl | hd
    · simp [State.resume, hwoken, hresumed]
    · simpa [State.resume, hd] using h.counts d
  · intro d hd
    rcases eq_or_ne d w with rfl | hdw
    · simp [State.resume, Pc.Coming] at hd
    · exact h.early d (by simpa [State.resume, hdw] using hd)
  · intro d hd
    rcases eq_or_ne d w with rfl | hdw
    · simp [State.resume, Pc.Granted] at hd
    · simpa [State.resume, hdw] using h.granted d (by simpa [State.resume, hdw] using hd)

/-- Whoever is still granted after a resumption was so before. -/
lemma resume_modes (h : Handled s) :
    ∀ d e, (s.resume w).pc d = .granted e → s.mExclusive d = e := by
  intro d e hd
  rcases eq_or_ne d w with rfl | hdw
  · simp [State.resume] at hd
  · exact h.modes d e (by simpa [State.resume, hdw] using hd)

/-- The executor runs a handle. -/
lemma execute (h : Handled s) (hw : w ∈ s.executor) :
    Handled { s.resume w with executor := s.executor.erase w } := by
  have hgranted := Parked.of_mem_list h.handles hw
  obtain ⟨hcounts, hearly, hrest⟩ := h.resume_counts hgranted
  refine ⟨?_, h.resume_modes, hcounts, hearly, hrest⟩
  apply Parked.unpark h.handles hw id
  cases hpc : s.pc w with
  | granted e => rfl
  | _ => simp [hpc, Pc.Granted] at hgranted

/-- A call resumes the exclusive waiter that it has granted the lock. -/
lemma resume (h : Handled s) (hc : s.pc c = .resuming w) :
    Handled ((s.resume w).goto c .released) := by
  have hmem : w ∈ (s.pc c).inHand := by simp [hc, Pc.inHand]
  have hgranted := Parked.of_mem_hand h.handles hmem
  have hcw : c ≠ w := by
    rintro rfl
    simp [hc, Pc.Granted] at hgranted
  obtain ⟨hcounts, hearly, hrest⟩ := h.resume_counts hgranted
  refine ⟨?_, ?_, hcounts, ?_, ?_⟩
  · refine Parked.wake h.handles ?_ (by simp [hc, Pc.inHand]) id id rfl
    intro p hp
    cases p with
    | granted e => rfl
    | _ => exact hp.elim
  · intro d e hd
    rcases eq_or_ne d c with rfl | hdc
    · simp at hd
    · exact h.resume_modes d e (by simpa [hdc] using hd)
  · intro d hd
    rcases eq_or_ne d c with rfl | hdc
    · simp [Pc.Coming] at hd
    · exact hearly d (by simpa [hdc] using hd)
  · intro d hd
    rcases eq_or_ne d c with rfl | hdc
    · simp [Pc.Granted] at hd
    · exact hrest d (by simpa [hdc] using hd)

end Handled

end Libcoro.SharedMutex
