import Libcoro.SharedMutex.Transitions
import Libcoro.SharedMutex.Waiters

/-!
# Exclusion in a shared mutex

In every reachable state `m_state`, the two counters and the list of waiters agree with who
holds the lock and who waits for it (`exclusion`).
-/

namespace Libcoro.SharedMutex

open Foundations Function

variable {κ : Type*} {s t : State κ} {q : List κ}

/-- `m_state` says who holds the lock.  An unlocked mutex has no waiters, and the first waiter of
a mutex locked in shared mode is an exclusive one. -/
def Moded (s : State κ) (q : List κ) : Prop :=
  match s.mState with
  | .unlocked => q = [] ∧ ∀ c, ¬ (s.pc c).Shares ∧ ¬ (s.pc c).Owns
  | .lockedShared => (∃ c, (s.pc c).Shares) ∧ (∀ c, ¬ (s.pc c).Owns) ∧
      ∀ w ∈ q.head?, s.mExclusive w = true
  | .lockedExclusive => (∃ c, (s.pc c).Owns ∧ ∀ d, (s.pc d).Owns → d = c) ∧
      ∀ c, ¬ (s.pc c).Shares

variable {p : Pc κ}

/-- Whoever is coming holds nothing. -/
lemma Pc.Coming.holds_nothing (h : p.Coming) :
    ¬ p.Shares ∧ ¬ p.Owns ∧ ¬ p.Granted ∧ p.inHand = [] ∧ p ≠ .suspended := by
  cases p <;> simp_all [Pc.Coming, Pc.Shares, Pc.Owns, Pc.Granted, Pc.inHand]

/-- Nobody gets or loses the lock. -/
lemma Moded.congr (h : Moded s q) (hstate : t.mState = s.mState)
    (hexcl : ∀ w ∈ q, t.mExclusive w = s.mExclusive w)
    (hpc : ∀ c, ((t.pc c).Shares ↔ (s.pc c).Shares) ∧ ((t.pc c).Owns ↔ (s.pc c).Owns)) :
    Moded t q := by
  have hfirst : (∀ w ∈ q.head?, s.mExclusive w = true) → ∀ w ∈ q.head?, t.mExclusive w = true := by
    intro hs w hw
    rw [hexcl w (List.mem_of_head? hw)]
    exact hs w hw
  unfold Moded at h ⊢
  rw [hstate]
  simp only [hpc]
  cases hm : s.mState with
  | unlocked | lockedExclusive => simpa [hm] using h
  | lockedShared =>
    rw [hm] at h
    exact ⟨h.1, h.2.1, hfirst h.2.2⟩

variable {e : Bool}

/-- Nobody waits when a try succeeds. -/
lemma Moded.queue_eq_nil (h : Moded s q) (hlined : Lined s q)
    (htry : tryMode s e = (true, t)) : q = [] := by
  rcases tryMode_true htry with ⟨hun, -⟩ | ⟨hun, -⟩ | ⟨hsh, -, hzero, -⟩
  · rw [Moded, hun] at h
    exact h.1
  · rw [Moded, hun] at h
    exact h.1
  · rw [Moded, hsh] at h
    rw [hlined.exclusive, List.countP_eq_zero] at hzero
    cases q with
    | nil => rfl
    | cons w q => exact (hzero w List.mem_cons_self (h.2.2 w rfl)).elim

variable {c : κ}

/-- A shared holder holds a lock in shared mode. -/
lemma Moded.lockedShared_of_shares (h : Moded s q) (hc : (s.pc c).Shares) :
    s.mState = .lockedShared ∧ ∀ d, ¬ (s.pc d).Owns := by
  unfold Moded at h
  cases hm : s.mState with
  | unlocked =>
    rw [hm] at h
    exact ((h.2 c).1 hc).elim
  | lockedShared =>
    rw [hm] at h
    exact ⟨rfl, h.2.1⟩
  | lockedExclusive =>
    rw [hm] at h
    exact (h.2 c hc).elim

/-- An exclusive holder is the only holder. -/
lemma Moded.lockedExclusive_of_owns (h : Moded s q) (hc : (s.pc c).Owns) :
    s.mState = .lockedExclusive ∧ (∀ d, (s.pc d).Owns → d = c) ∧ ∀ d, ¬ (s.pc d).Shares := by
  unfold Moded at h
  cases hm : s.mState with
  | unlocked =>
    rw [hm] at h
    exact ((h.2 c).2 hc).elim
  | lockedShared =>
    rw [hm] at h
    exact (h.2.1 c hc).elim
  | lockedExclusive =>
    rw [hm] at h
    obtain ⟨⟨o, -, honly⟩, hnone⟩ := h
    refine ⟨rfl, ?_, hnone⟩
    intro d hd
    rw [honly d hd, honly c hc]

variable [DecidableEq κ]

/-! ## The loop of `wake_waiters` -/

/-- The books of a mutex whose waiters are `q`. -/
structure Books (s : State κ) (q : List κ) : Prop where
  lined : Lined s q
  counted : Counted s
  handled : Handled s

omit [DecidableEq κ] in
/-- The books do not depend on the mode. -/
lemma Books.setState (h : Books s q) (m : LockState) : Books { s with mState := m } q :=
  ⟨{ h.lined with }, h.counted, { h.handled with }⟩

/-- One round of the loop. -/
lemma Books.grantShared {w : κ} (h : Books s (w :: q)) (he : s.mExclusive w = false) :
    Books { s.grant w false with
      mSharedUsers := s.mSharedUsers + 1
      executor := w :: s.executor } q := by
  have hw : s.pc w = .suspended := (h.lined.suspended w).mp List.mem_cons_self
  have hlined := h.lined.grantShared he
  refine ⟨{ hlined with }, ?_, ?_⟩
  · exact encard_shares_enter h.counted (by simp [hw, Pc.Shares]) rfl
  · exact h.handled.grantShared hw he _

/-- The loop lets in the shared waiters at the front of the list and stops before the first
exclusive one. -/
lemma wakeShared_books {n : ℕ} (h : Books s q) (hloop : wakeShared n s = some t) :
    ∃ run rest, q = run ++ rest ∧ Books t rest ∧ (∀ w ∈ rest.head?, t.mExclusive w = true) ∧
      t.grants = s.grants ++ run ∧ t.mSharedUsers = s.mSharedUsers + run.length ∧
      t.mState = s.mState ∧ t.mExclusive = s.mExclusive ∧ t.reached = s.reached ∧
      (∀ c, (t.pc c).Owns → (s.pc c).Owns) := by
  induction n generalizing s q with
  | zero => simp [wakeShared] at hloop
  | succ n ih =>
    have hhead := h.lined.holds.head_eq
    simp only [wakeShared] at hloop
    split at hloop <;> rename_i hw
    · cases hloop
      refine ⟨[], q, rfl, h, ?_, by simp, rfl, rfl, rfl, rfl, fun _ => id⟩
      rw [← hhead, hw]
      simp
    · rename_i w
      obtain ⟨q, rfl⟩ : ∃ q', q = w :: q' := by
        rw [hhead] at hw
        exact List.head?_eq_some_iff.mp hw
      split_ifs at hloop with he
      · cases hloop
        refine ⟨[], w :: q, rfl, h, ?_, by simp, rfl, rfl, rfl, rfl, fun _ => id⟩
        simpa using he
      · obtain ⟨run, rest, rfl, hbooks, hfirst, hgrants, husers, hstate, hexcl, hreached, howns⟩ :=
          ih (h.grantShared (by simpa using he)) hloop
        refine ⟨w :: run, rest, rfl, hbooks, hfirst, ?_, ?_, hstate, hexcl, hreached, ?_⟩
        · rw [hgrants]
          simp [State.grant, State.goto]
        · rw [husers, List.length_cons]
          change s.mSharedUsers + 1 + run.length = s.mSharedUsers + (run.length + 1)
          omega
        · intro c hc
          have hc' := howns c hc
          rcases eq_or_ne c w with rfl | hcw
          · simp [State.grant, Pc.Owns] at hc'
          · simpa [State.grant, hcw] using hc'

/-- The loop ends. -/
lemma exists_wakeShared (h : Books s q) : ∃ n t, wakeShared n s = some t := by
  induction q generalizing s with
  | nil =>
    have hhead := h.lined.holds.head_eq
    exact ⟨1, s, by simp [wakeShared, hhead]⟩
  | cons w q ih =>
    have hhead := h.lined.holds.head_eq
    cases he : s.mExclusive w with
    | true => exact ⟨1, s, by simp [wakeShared, hhead, he]⟩
    | false =>
      obtain ⟨n, t, hloop⟩ := ih (h.grantShared he)
      refine ⟨n + 1, t, ?_⟩
      rw [wakeShared, hhead]
      simpa [he] using hloop

/-! ## Who holds the lock -/

/-- A move of `c` that does not concern who holds the lock. -/
lemma Moded.goto (h : Moded s q) (hshares : p.Shares ↔ (s.pc c).Shares)
    (howns : p.Owns ↔ (s.pc c).Owns) : Moded (s.goto c p) q := by
  refine h.congr rfl (fun _ _ => rfl) ?_
  intro d
  rcases eq_or_ne d c with rfl | hd
  · simp [hshares, howns]
  · simp [hd]

/-- A try that succeeds lets `c` in. -/
lemma Books.letIn (h : Books s []) (hm : Moded s []) (hc : (s.pc c).Coming)
    (htry : tryMode s e = (true, t)) : Books (t.letIn c e) [] ∧ Moded (t.letIn c e) [] := by
  obtain ⟨hshares, howns, hgranted, hhand, hsusp⟩ := hc.holds_nothing
  have hlined := h.lined.letIn hc e
  have hhandled : Handled (s.goto c (.holding e)) := by
    apply h.handled.goto hgranted id
    · rw [hhand]
      rfl
    · rintro (hp | hp)
      · exact hp.elim
      · simp at hp
  -- the control points are those of `s` with `c` holding the lock in each case
  have hpc : t.pc = s.pc := by
    rcases tryMode_true htry with ⟨-, -, rfl⟩ | ⟨-, -, rfl⟩ | ⟨-, -, -, rfl⟩ <;> rfl
  have hother : ∀ d, d ≠ c → (t.letIn c e).pc d = s.pc d := by
    intro d hd
    simp [State.letIn, hd, hpc]
  have hself : (t.letIn c e).pc c = .holding e := by simp [State.letIn]
  rcases tryMode_true htry with ⟨hun, rfl, rfl⟩ | ⟨hun, rfl, rfl⟩ | ⟨hsh, rfl, -, rfl⟩
  · rw [Moded, hun] at hm
    refine ⟨⟨{ hlined with }, ?_,
      { hhandled with }⟩, ?_, ?_⟩
    · have hset : {d | (update s.pc c (.holding true) d).Shares} = {d | (s.pc d).Shares} :=
        shares_update (iff_of_false (by simp [Pc.Shares]) hshares)
      have hcounted := h.counted
      unfold Counted at hcounted ⊢
      rw [← hset] at hcounted
      exact hcounted
    · refine ⟨c, by rw [hself]; rfl, ?_⟩
      intro d hd
      by_contra hdc
      rw [hother d hdc] at hd
      exact (hm.2 d).2 hd
    · intro d hd
      rcases eq_or_ne d c with rfl | hdc
      · simp [hself, Pc.Shares] at hd
      · rw [hother d hdc] at hd
        exact (hm.2 d).1 hd
  · rw [Moded, hun] at hm
    refine ⟨⟨{ hlined with }, ?_,
      { hhandled with }⟩, ?_, ?_, by simp⟩
    · exact encard_shares_enter h.counted hshares rfl
    · exact ⟨c, by rw [hself]; rfl⟩
    · intro d hd
      rcases eq_or_ne d c with rfl | hdc
      · simp [hself, Pc.Owns] at hd
      · rw [hother d hdc] at hd
        exact (hm.2 d).2 hd
  · have hmode : ({ s with mSharedUsers := s.mSharedUsers + 1 }.letIn c false).mState =
        .lockedShared := hsh
    rw [Moded, hsh] at hm
    refine ⟨⟨{ hlined with }, ?_,
      { hhandled with }⟩, ?_⟩
    · exact encard_shares_enter h.counted hshares rfl
    · rw [Moded, hmode]
      refine ⟨⟨c, by rw [hself]; rfl⟩, ?_, by simp⟩
      intro d hd
      rcases eq_or_ne d c with rfl | hdc
      · simp [hself, Pc.Owns] at hd
      · rw [hother d hdc] at hd
        exact hm.2.1 d hd

/-- A lock that cannot be had makes `c` the last waiter. -/
lemma Books.awaitSuspend (h : Books s q) (hm : Moded s q) (hc : (s.pc c).Coming)
    (hnext : s.waiters.next c = none)
    (htry : tryMode s (s.mExclusive c) = (false, s)) :
    Books (awaitSuspend s c) (q ++ [c]) ∧ Moded (awaitSuspend s c) (q ++ [c]) := by
  obtain ⟨hshares, howns, hgranted, hhand, hsusp⟩ := hc.holds_nothing
  obtain ⟨-, hlocked, hwriters⟩ := tryMode_false htry
  have hlined := h.lined.awaitSuspend hc hnext
  have hhandled : Handled (s.goto c .suspended) := by
    apply h.handled.goto hgranted id
    · rw [hhand]
      rfl
    · exact fun _ => Or.inl hc
  have hset : {d | (update s.pc c .suspended d).Shares} = {d | (s.pc d).Shares} :=
    shares_update (iff_of_false id hshares)
  have hgoto : Moded (s.goto c .suspended) q :=
    hm.goto (iff_of_false id hshares) (iff_of_false id howns)
  refine ⟨⟨hlined, ?_, { hhandled with }⟩, ?_⟩
  · have hcounted := h.counted
    unfold Counted at hcounted ⊢
    rw [← hset] at hcounted
    exact hcounted
  · have hstate : (SharedMutex.awaitSuspend s c).mState = s.mState := rfl
    have hstate' : (s.goto c .suspended).mState = s.mState := rfl
    rw [Moded, hstate'] at hgoto
    rw [Moded, hstate]
    cases hmode : s.mState with
    | unlocked => exact (hlocked hmode).elim
    | lockedShared =>
      rw [hmode] at hgoto
      refine ⟨hgoto.1, hgoto.2.1, ?_⟩
      -- `c` is the first waiter only if it is exclusive: a shared one would have been let in
      cases q with
      | cons w q => exact hgoto.2.2
      | nil =>
        intro w hw
        obtain rfl : c = w := by simpa using hw
        by_contra he
        apply hwriters (by simpa [SharedMutex.awaitSuspend, State.goto] using he) hmode
        rw [h.lined.exclusive]
        rfl
    | lockedExclusive =>
      rw [hmode] at hgoto
      exact hgoto

/-- The last user wakes the waiters of a lock that nobody holds any more. -/
lemma Books.release {n : ℕ} (h : Books s q)
    (hvacant : ∀ d, ¬ (s.pc d).Shares ∧ ¬ (s.pc d).Owns) (hc : s.pc c = .released)
    (hrel : release s c n = some t) :
    ∃ run rest, q = run ++ rest ∧ t.grants = s.grants ++ run ∧ t.reached = s.reached ∧
      Books t rest ∧ Moded t rest := by
  have hhead := h.lined.holds.head_eq
  unfold SharedMutex.release at hrel
  split at hrel <;> rename_i hw
  · rename_i w
    obtain ⟨q, rfl⟩ : ∃ q', q = w :: q' := by
      rw [hhead] at hw
      exact List.head?_eq_some_iff.mp hw
    have hsusp : s.pc w = .suspended := (h.lined.suspended w).mp List.mem_cons_self
    have hcw : c ≠ w := by
      rintro rfl
      simp [hsusp] at hc
    unfold wakeWaiters at hrel
    split_ifs at hrel with he
    · cases hrel
      have hlined := (h.lined.grantExclusive he).goto (c := c) (p := .resuming w)
        (by simp [State.grant, hcw, hc]) (by simp [State.grant, hcw, hc, Pc.Coming])
      have hset : {d | (update (s.grant w true).pc c (.resuming w) d).Shares} =
          {d | (s.pc d).Shares} := by
        rw [shares_update (by simp [State.grant, hcw, hc, Pc.Shares])]
        exact shares_update (by simp [hsusp, Pc.Shares])
      refine ⟨[w], q, rfl, rfl, rfl, ⟨?_, ?_, ?_⟩, ?_, ?_⟩
      · exact { hlined with }
      · have hcounted := h.counted
        unfold Counted at hcounted ⊢
        rw [← hset] at hcounted
        exact hcounted
      · exact h.handled.grantExclusive hsusp he hc _ _
      · refine ⟨w, by simp [State.grant, hcw.symm, Pc.Owns], ?_⟩
        intro d hd
        by_contra hdw
        rcases eq_or_ne d c with rfl | hdc
        · simp [Pc.Owns] at hd
        · apply (hvacant d).2
          simpa [State.grant, hdc, hdw] using hd
      · intro d hd
        apply (hvacant d).1
        have hmem : d ∈ {d | (update (s.grant w true).pc c (.resuming w) d).Shares} := hd
        rw [hset] at hmem
        exact hmem
    · obtain ⟨run, rest, hq, hb, hfirst, hgrants, husers, hstate, hexcl, hreached, howns⟩ :=
        wakeShared_books (h.setState .lockedShared) hrel
      refine ⟨run, rest, hq, hgrants, hreached, hb, ?_⟩
      rw [Moded, hstate]
      refine ⟨?_, ?_, hfirst⟩
      · -- the first waiter was a shared one, so the loop has let somebody in
        have hrun : run ≠ [] := by
          rintro rfl
          rw [List.nil_append] at hq
          apply he
          rw [← hq, hexcl] at hfirst
          exact hfirst w rfl
        have hpos : 0 < run.length := List.length_pos_of_ne_nil hrun
        have hcard : {d | (t.pc d).Shares}.encard ≠ 0 := by
          rw [hb.counted, husers]
          exact_mod_cast (by omega : s.mSharedUsers + run.length ≠ 0)
        obtain ⟨d, hd⟩ := Set.encard_ne_zero.mp hcard
        exact ⟨d, hd⟩
      · intro d hd
        exact (hvacant d).2 (howns d hd)
  · cases hrel
    have hq : q = [] := by
      rw [hhead] at hw
      exact List.head?_eq_none_iff.mp hw
    refine ⟨[], q, rfl, by simp, rfl, ?_, ?_⟩
    · exact h.setState _
    · exact ⟨hq, hvacant⟩

/-- A shared holder leaves the lock. -/
lemma Books.leaveShared (h : Books s q) (hc : s.pc c = .unlocking false) :
    0 < s.mSharedUsers ∧
      Books { s.goto c .released with mSharedUsers := s.mSharedUsers - 1 } q := by
  have hlined := h.lined.goto (c := c) (p := .released) (by simp [hc])
    (by simp [hc, Pc.Coming])
  have hhandled := h.handled.goto (c := c) (p := .released) (by simp [hc, Pc.Granted]) id
    (by simp [hc, Pc.inHand]) (by simp [Pc.Coming])
  obtain ⟨hpos, hcard⟩ := encard_shares_leave (c := c) (p := .released) h.counted
    (by simp [hc, Pc.Shares]) id
  refine ⟨hpos, ⟨?_, hcard, ?_⟩⟩
  · exact { hlined with }
  · exact { hhandled with }

/-- A move of `c` that does not concern the books. -/
lemma Books.goto (h : Books s q)
    (hsusp : p = .suspended ↔ s.pc c = .suspended) (hcoming : p.Coming ↔ (s.pc c).Coming)
    (hshares : p.Shares ↔ (s.pc c).Shares) (hold : ¬ (s.pc c).Granted) (hnew : ¬ p.Granted)
    (hhand : p.inHand = (s.pc c).inHand) : Books (s.goto c p) q := by
  refine ⟨h.lined.goto hsusp hcoming, ?_, h.handled.goto hold hnew hhand ?_⟩
  · have hcounted := h.counted
    unfold Counted at hcounted ⊢
    rw [State.goto_pc, shares_update hshares]
    exact hcounted
  · rintro (hp | hp)
    · exact Or.inl (hcoming.mp hp)
    · exact Or.inr (hsusp.mp hp)

/-- Running a granted waiter leaves it the lock it has been granted. -/
lemma Handled.resume_holds {w : κ} (h : Handled s) (hw : (s.pc w).Granted) :
    ∀ d, (((s.resume w).pc d).Shares ↔ (s.pc d).Shares) ∧
      (((s.resume w).pc d).Owns ↔ (s.pc d).Owns) ∧
      ((s.resume w).pc d = .suspended ↔ s.pc d = .suspended) ∧
      (((s.resume w).pc d).Coming ↔ (s.pc d).Coming) := by
  intro d
  rcases eq_or_ne d w with rfl | hd
  · cases hpc : s.pc d with
    | granted e => simp [State.resume, h.modes d e hpc, Pc.Shares, Pc.Owns, Pc.Coming]
    | _ => simp [hpc, Pc.Granted] at hw
  · simp [State.resume, hd]

/-- The lists and the counters do not notice a resumption. -/
lemma Books.resume_lined {w : κ} (h : Books s q) (hw : (s.pc w).Granted) :
    Lined (s.resume w) q ∧ Counted (s.resume w) := by
  have hpc := h.handled.resume_holds hw
  refine ⟨⟨h.lined.holds, ?_, h.lined.exclusive, h.lined.reached, h.lined.nodup, ?_⟩, ?_⟩
  · intro d
    rw [(hpc d).2.2.1]
    exact h.lined.suspended d
  · intro d
    rw [(hpc d).2.2.2]
    exact h.lined.arrived d
  · have hcounted := h.counted
    unfold Counted at hcounted ⊢
    simp only [(hpc _).1]
    exact hcounted

/-- The operation of a call on its way is constructed. -/
lemma Books.construct (h : Books s q) (hm : Moded s q) (hc : (s.pc c).Coming) (e : Bool) :
    Books (s.construct c e) q ∧ Moded (s.construct c e) q := by
  refine ⟨⟨h.lined.construct hc e, h.counted, h.handled.construct hc e⟩, ?_⟩
  refine hm.congr rfl ?_ fun _ => ⟨Iff.rfl, Iff.rfl⟩
  intro w hw
  have hwc : w ≠ c := by
    rintro rfl
    exact (h.lined.notMem_of_coming hc).2 hw
  simp [State.construct, hwc]

/-- After the last shared holder has left, nobody holds the lock. -/
lemma Books.vacant_of_last (h : Books s q) (hm : Moded s q)
    (hc : s.pc c = .unlocking false) (hone : s.mSharedUsers = 1) :
    ∀ d, ¬ ((s.goto c .released).pc d).Shares ∧ ¬ ((s.goto c .released).pc d).Owns := by
  obtain ⟨-, howns⟩ := hm.lockedShared_of_shares (c := c) (by simp [hc, Pc.Shares])
  obtain ⟨-, hbooks⟩ := h.leaveShared hc
  have hcard : {d | ((s.goto c .released).pc d).Shares}.encard = 0 := by
    have hcounted : {d | ((s.goto c .released).pc d).Shares}.encard =
        ((s.mSharedUsers - 1 : ℕ) : ℕ∞) := hbooks.counted
    rw [hcounted, hone]
    rfl
  intro d
  constructor
  · intro hd
    have hmem : d ∈ {d | ((s.goto c .released).pc d).Shares} := hd
    rw [Set.encard_eq_zero.mp hcard] at hmem
    exact hmem
  · rcases eq_or_ne d c with rfl | hdc
    · simp [Pc.Owns]
    · simpa [hdc] using howns d

/-- The exclusive holder leaves the lock. -/
lemma Books.leaveExclusive (h : Books s q) (hc : s.pc c = .unlocking true) :
    Books (s.goto c .released) q := by
  apply h.goto
  all_goals simp [hc, Pc.Coming, Pc.Shares, Pc.Granted, Pc.inHand]

/-- After the exclusive holder has left, nobody holds the lock. -/
lemma Moded.vacant_of_exclusive (hm : Moded s q) (hc : s.pc c = .unlocking true) :
    ∀ d, ¬ ((s.goto c .released).pc d).Shares ∧ ¬ ((s.goto c .released).pc d).Owns := by
  obtain ⟨-, honly, hshares⟩ := hm.lockedExclusive_of_owns (c := c) (by simp [hc, Pc.Owns])
  intro d
  rcases eq_or_ne d c with rfl | hdc
  · simp [Pc.Shares, Pc.Owns]
  · simpa [hdc] using ⟨hshares d, fun hd => hdc (honly d hd)⟩

/-- Every transition keeps the books, and `m_state` in agreement with them. -/
lemma Books.transition {a : Action κ} (h : Books s q) (hm : Moded s q) (ht : Transition s a t) :
    ∃ q', Books t q' ∧ Moded t q' := by
  cases ht with
  | @call c f hc =>
    refine ⟨q, h.goto ?_ ?_ ?_ ?_ ?_ ?_, hm.goto ?_ ?_⟩
    all_goals
      cases f <;> simp [hc, Call.entry, Pc.Coming, Pc.Shares, Pc.Owns, Pc.Granted, Pc.inHand]
  | beginUnlock hc | busy hc | tryRefused hc _ =>
    refine ⟨q, h.goto ?_ ?_ ?_ ?_ ?_ ?_, hm.goto ?_ ?_⟩
    all_goals simp [hc, Pc.Coming, Pc.Shares, Pc.Owns, Pc.Granted, Pc.inHand]
  | execute hw =>
    have hgranted := Parked.of_mem_list h.handled.handles hw
    obtain ⟨hlined, hcounted⟩ := h.resume_lined hgranted
    have hpc := h.handled.resume_holds hgranted
    refine ⟨q, ⟨?_, hcounted, h.handled.execute hw⟩, ?_⟩
    · exact { hlined with }
    · exact hm.congr rfl (fun _ _ => rfl) fun d => ⟨(hpc d).1, (hpc d).2.1⟩
  | @lockDirect c e n r hc htry =>
    have hcoming : (s.pc c).Coming := by simp [hc, Pc.Coming]
    obtain ⟨hbooks, hmoded⟩ := h.construct hm hcoming e
    obtain rfl := hmoded.queue_eq_nil hbooks.lined htry
    exact ⟨[], hbooks.letIn hmoded hcoming htry⟩
  | @lockSuspend c e n hc htry =>
    have hcoming : (s.pc c).Coming := by simp [hc, Pc.Coming]
    obtain ⟨hbooks, hmoded⟩ := h.construct hm hcoming e
    have hmode : (s.construct c e).mExclusive c = e := by simp [State.construct]
    refine ⟨q ++ [c], hbooks.awaitSuspend hmoded hcoming ?_ ?_⟩
    · simp [State.construct, LinkedQueue.alloc]
    · rw [hmode]
      exact htry
  | @tryDirect c e n r hc htry =>
    obtain rfl := hm.queue_eq_nil h.lined htry
    exact ⟨[], h.letIn hm (by simp [hc, Pc.Coming]) htry⟩
  | @unlockOther c n hc hne =>
    obtain ⟨hpos, hbooks⟩ := h.leaveShared hc
    obtain ⟨hmode, howns⟩ := hm.lockedShared_of_shares (c := c) (by simp [hc, Pc.Shares])
    refine ⟨q, hbooks, ?_⟩
    have hmode' : ({ s.goto c .released with
      mSharedUsers := s.mSharedUsers - 1 } : State κ).mState = .lockedShared := hmode
    rw [Moded, hmode] at hm
    rw [Moded, hmode']
    refine ⟨?_, ?_, hm.2.2⟩
    · have hcard : {d | ((s.goto c .released).pc d).Shares}.encard ≠ 0 := by
        have hcounted : {d | ((s.goto c .released).pc d).Shares}.encard =
            ((s.mSharedUsers - 1 : ℕ) : ℕ∞) := hbooks.counted
        rw [hcounted]
        exact_mod_cast (by omega : s.mSharedUsers - 1 ≠ 0)
      exact Set.encard_ne_zero.mp hcard
    · intro d
      rcases eq_or_ne d c with rfl | hdc
      · simp [Pc.Owns]
      · simpa [hdc] using howns d
  | @unlockLast c n s' hc hone hrel =>
    obtain ⟨-, hbooks⟩ := h.leaveShared hc
    obtain ⟨run, rest, -, -, -, hb, hmoded⟩ :=
      hbooks.release (h.vacant_of_last hm hc hone) (by simp) hrel
    exact ⟨rest, hb, hmoded⟩
  | @unlock c n s' hc hrel =>
    obtain ⟨run, rest, -, -, -, hb, hmoded⟩ :=
      (h.leaveExclusive hc).release (hm.vacant_of_exclusive hc) (by simp) hrel
    exact ⟨rest, hb, hmoded⟩
  | @resume c w n hc =>
    have hmem : w ∈ (s.pc c).inHand := by simp [hc, Pc.inHand]
    have hgranted := Parked.of_mem_hand h.handled.handles hmem
    have hcw : c ≠ w := by
      rintro rfl
      simp [hc, Pc.Granted] at hgranted
    have hpc : (s.resume w).pc c = .resuming w := by simp [State.resume, hcw, hc]
    obtain ⟨hlined, hcounted⟩ := h.resume_lined hgranted
    have hholds := h.handled.resume_holds hgranted
    have hmoded : Moded (s.resume w) q :=
      hm.congr rfl (fun _ _ => rfl) fun d => ⟨(hholds d).1, (hholds d).2.1⟩
    refine ⟨q, ⟨?_, ?_, h.handled.resume hc⟩, ?_⟩
    · exact hlined.goto (by simp [hpc]) (by simp [hpc, Pc.Coming])
    · unfold Counted at hcounted ⊢
      rw [State.goto_pc, shares_update (by simp [hpc, Pc.Shares])]
      exact hcounted
    · exact hmoded.goto (by simp [hpc, Pc.Shares]) (by simp [hpc, Pc.Owns])

/-- The books are right in every reachable state. -/
theorem books_of_reachable (h : (machine κ).Reachable s) : ∃ q, Books s q ∧ Moded s q := by
  refine h.invariant (I := fun s => ∃ q, Books s q ∧ Moded s q) ⟨[], ⟨?_, ?_, ?_⟩, ?_⟩ ?_
  · refine ⟨LinkedQueue.Holds.empty, ?_, rfl, rfl, List.nodup_nil, ?_⟩
    · simp [machine, start]
    · simp [machine, start, Pc.Coming]
  · simp [Counted, machine, start, Pc.Shares]
  · refine ⟨Parked.nil rfl id, ?_, ?_, ?_, ?_⟩
    all_goals simp [machine, start, Pc.Granted]
  · simp [Moded, machine, start, Pc.Shares, Pc.Owns]
  · rintro s a s' - ⟨q, hbooks, hmoded⟩ hstep
    exact hbooks.transition hmoded (step_transition hstep)

/-! ## Unlocking completes -/

/-- More rounds than needed make no difference to the loop. -/
lemma wakeShared_mono {n m : ℕ} (h : wakeShared n s = some t) (hnm : n ≤ m) :
    wakeShared m s = some t := by
  induction n generalizing s m with
  | zero => simp [wakeShared] at h
  | succ n ih =>
    obtain ⟨m, rfl⟩ : ∃ k, m = k + 1 := ⟨m - 1, by omega⟩
    simp only [wakeShared] at h ⊢
    split at h
    · exact h
    · split_ifs at h with he
      · simpa [he] using h
      · simp only [he]
        exact ih h (by omega)

/-- The last user of the lock is never stuck in its critical section. -/
lemma Books.exists_release (h : Books s q) (c : κ) :
    ∃ n t, ∀ m, n ≤ m → SharedMutex.release s c m = some t := by
  unfold SharedMutex.release
  split <;> rename_i hw
  · unfold wakeWaiters
    split_ifs with he
    · exact ⟨0, _, fun _ _ => rfl⟩
    · obtain ⟨n, t, hloop⟩ := exists_wakeShared (h.setState .lockedShared)
      exact ⟨n, t, fun m hm => wakeShared_mono hloop hm⟩
  · exact ⟨0, _, fun _ _ => rfl⟩

/-- A call of `unlock` or `unlock_shared` that has `m_mutex` completes its critical section, and
the number of rounds in the label decides nothing but that it is large enough. -/
lemma exists_unlock (h : (machine κ).Reachable s)
    (hc : s.pc c = .unlocking e) :
    ∃ n t, ∀ m, n ≤ m → (machine κ).step s (.advance c m) = some t := by
  obtain ⟨q, hbooks, hmoded⟩ := books_of_reachable h
  cases e with
  | true =>
    obtain ⟨n, t, hrel⟩ := (hbooks.leaveExclusive hc).exists_release c
    refine ⟨n, t, ?_⟩
    intro m hm
    simpa [machine, step, advance, hc, unlock] using hrel m hm
  | false =>
    obtain ⟨-, hleave⟩ := hbooks.leaveShared hc
    by_cases hone : s.mSharedUsers = 1
    · obtain ⟨n, t, hrel⟩ := hleave.exists_release c
      refine ⟨n, t, ?_⟩
      intro m hm
      simpa [machine, step, advance, hc, unlockShared, hone] using hrel m hm
    · refine ⟨0, { s.goto c .released with mSharedUsers := s.mSharedUsers - 1 }, ?_⟩
      intro m _
      simp only [machine, step, advance, hc, unlockShared, hone, if_false]

/-- In every reachable state of a shared mutex, for any number of users:
* an exclusive holder is the only holder, and `m_state` says who holds the lock;
* `m_shared_users` is the number of shared holders, granted waiters that do not run yet
  included, and `m_exclusive_waiters` the number of exclusive operations on the list;
* the list from `m_head_waiter` to `m_tail_waiter` is well formed, has each suspended operation
  on it once and nobody else, and is empty when the mutex is unlocked;
* each waiter has been granted the lock at most once and resumed at most as often, and no
  suspended one has been granted it;
* a call of `unlock` or `unlock_shared` completes its critical section. -/
theorem exclusion (h : (machine κ).Reachable s) :
    (∀ c d, (s.pc c).Owns → (s.pc d).Owns ∨ (s.pc d).Shares → d = c) ∧
    ((s.mState = .unlocked ↔ ∀ c, ¬ (s.pc c).Owns ∧ ¬ (s.pc c).Shares) ∧
      (s.mState = .lockedShared ↔ ∃ c, (s.pc c).Shares) ∧
      (s.mState = .lockedExclusive ↔ ∃ c, (s.pc c).Owns)) ∧
    {c | (s.pc c).Shares}.encard = s.mSharedUsers ∧
    (∃ q, s.waiters.Holds q ∧ q.Nodup ∧ (∀ c, c ∈ q ↔ s.pc c = .suspended) ∧
      s.mExclusiveWaiters = q.countP s.mExclusive ∧
      (s.mState = .unlocked → q = [] ∧ s.waiters.head = none ∧ s.waiters.tail = none)) ∧
    (∀ c, s.woken c ≤ 1 ∧ s.resumed c ≤ s.woken c ∧ (s.pc c = .suspended → s.woken c = 0)) ∧
    (∀ c e, s.pc c = .unlocking e →
      ∃ n t, ∀ m, n ≤ m → (machine κ).step s (.advance c m) = some t) := by
  obtain ⟨q, hbooks, hmoded⟩ := books_of_reachable h
  refine ⟨?_, ⟨?_, ?_, ?_⟩, hbooks.counted, ?_, ?_, fun c e hc => exists_unlock h hc⟩
  · intro c d hc hd
    obtain ⟨-, honly, hshares⟩ := hmoded.lockedExclusive_of_owns hc
    rcases hd with hd | hd
    · exact honly d hd
    · exact (hshares d hd).elim
  · constructor
    · intro hun c
      rw [Moded, hun] at hmoded
      exact (hmoded.2 c).symm
    · intro hnone
      unfold Moded at hmoded
      cases hm : s.mState with
      | unlocked => rfl
      | lockedShared =>
        rw [hm] at hmoded
        obtain ⟨c, hc⟩ := hmoded.1
        exact ((hnone c).2 hc).elim
      | lockedExclusive =>
        rw [hm] at hmoded
        obtain ⟨⟨c, hc, -⟩, -⟩ := hmoded
        exact ((hnone c).1 hc).elim
  · constructor
    · intro hsh
      rw [Moded, hsh] at hmoded
      exact hmoded.1
    · rintro ⟨c, hc⟩
      exact (hmoded.lockedShared_of_shares hc).1
  · constructor
    · intro hex
      rw [Moded, hex] at hmoded
      obtain ⟨⟨c, hc, -⟩, -⟩ := hmoded
      exact ⟨c, hc⟩
    · rintro ⟨c, hc⟩
      exact (hmoded.lockedExclusive_of_owns hc).1
  · have hlined := hbooks.lined
    refine ⟨q, hlined.holds, hlined.holds.nodup, hlined.suspended, hlined.exclusive, ?_⟩
    intro hun
    rw [Moded, hun] at hmoded
    obtain ⟨rfl, -⟩ := hmoded
    exact ⟨rfl, hlined.holds.head_eq, hlined.holds.tail_eq⟩
  · intro c
    obtain ⟨hresumed, hwoken⟩ := hbooks.handled.counts c
    exact ⟨hwoken, hresumed, fun hc => hbooks.handled.early c (Or.inr hc)⟩

/-- A writer holds the lock; two readers, a second writer and a third reader queue up behind it,
and the first writer unlocks. -/
def readersTrace : List (Action ℕ) :=
  [.call 0 .lock, .advance 0 0, .call 1 .lockShared, .advance 1 0, .call 2 .lockShared,
    .advance 2 0, .call 3 .lock, .advance 3 0, .call 4 .lockShared, .advance 4 0, .unlock 0,
    .advance 0 3, .execute 2]

/-- After the run above two readers share the lock, one of which runs already, and the second
writer heads the list. -/
theorem exclusion_readers : ∃ s : State ℕ,
    (machine ℕ).run start readersTrace = some s ∧ s.pc 1 = .granted false ∧
    s.pc 2 = .holding false ∧ s.mSharedUsers = 2 ∧ s.mExclusiveWaiters = 1 ∧
    s.waiters.head = some 3 ∧ s.waiters.tail = some 4 ∧
    {c | (s.pc c).Shares}.encard = 2 :=
  ⟨_, rfl, rfl, rfl, rfl, rfl, rfl, rfl,
    (exclusion (Machine.reachable_of_run (l := readersTrace) rfl)).2.2.1⟩

end Libcoro.SharedMutex
