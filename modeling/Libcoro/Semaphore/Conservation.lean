import Libcoro.Semaphore.Waiters

/-!
# The permits of a semaphore

The log of the calls that got a permit agrees with the calls in progress (`Granted`), and so does
the log of the releases (`Released`).  With the bounds of the counter this makes up the
conservation law of the semaphore (`permits_conserved`).
-/

namespace Libcoro.Semaphore

open Foundations Function

variable {κ : Type*} [DecidableEq κ] {max : ℤ} {s t : State κ} {c w : κ} {p : Pc κ}

/-! ## Who got a permit -/

/-- What the control point of a call says about its being `granted` a permit, when the flag
`m_shutdown` is `flag`. -/
@[simp] def Pc.Accounts (granted : Prop) (flag : Bool) : Pc κ → Prop
  | .tryReturned b => b = true ↔ granted
  | .acquireSuspend => True
  | .suspended => True
  | .acquireUnlock => granted ∨ flag = true
  | .acquireResume => granted ∨ flag = true
  | .acquireReturned r => r = .acquired → granted
  | _ => ¬ granted

/-- The `shutdown` call that has set the flag. -/
def Pc.Stopping : Pc κ → Prop
  | .shutdownPopAll => True
  | .shutdownUnlock _ => True
  | .shutdownResume _ => True
  | _ => False

/-- The log of the permits agrees with the calls in progress. -/
structure Granted (s : State κ) : Prop where
  nodup : s.grants.Nodup
  waiting : ∀ w ∈ s.mAcquireWaiters, w ∉ s.grants
  handed : ∀ c, ∀ w ∈ (s.pc c).toGrant, w ∈ s.grants
  detached : ∀ c, ∀ w ∈ (s.pc c).toStop, w ∉ s.grants
  accounts : ∀ c, (s.pc c).Accounts (c ∈ s.grants) s.mShutdown
  stopping : ∀ c, (s.pc c).Stopping → s.mShutdown = true

omit [DecidableEq κ] in
/-- A quiet move does not concern the permits. -/
lemma Quiet.accounts {q : Pc κ} {granted : Prop} (h : Quiet max s q p)
    (hq : q.Accounts granted s.mShutdown) : p.Accounts granted s.mShutdown := by
  cases h with
  | @call f => cases f <;> exact hq
  | @loadFail k _
  | @reloadFail k x _ => rcases k with _ | _ | _ <;> simpa using hq
  | isShutdown hflag => exact Or.inr hflag
  | resume =>
    change _ = AcquireResult.acquired → granted
    intro hres
    cases hflag : s.mShutdown with
    | true => simp [hflag] at hres
    | false => simpa [hflag] using hq
  | _ => exact hq

omit [DecidableEq κ] in
/-- Only a `shutdown` that has found the flag set goes on quietly. -/
lemma Quiet.stopping {q : Pc κ} (h : Quiet max s q p) (hp : p.Stopping) : s.mShutdown = true := by
  cases h with
  | @call f => cases f <;> exact hp.elim
  | @loadFail k _ | @reloadFail k x _ => rcases k with _ | _ | _ <;> exact hp.elim
  | shutdownLate hflag => exact hflag
  | _ => exact hp.elim

omit [DecidableEq κ] in
/-- The flag is never taken back. -/
lemma Pc.Accounts.stop {granted : Prop} {flag : Bool} (h : p.Accounts granted flag) :
    p.Accounts granted true := by
  cases p with
  | acquireUnlock | acquireResume => exact Or.inr rfl
  | _ => exact h

namespace Granted

/-- A move of `c` by which nobody gets a permit. -/
lemma goto (h : Granted s) (hgrant : ∀ x ∈ p.toGrant, x ∈ (s.pc c).toGrant)
    (hstop : ∀ x ∈ p.toStop, x ∈ (s.pc c).toStop)
    (haccounts : p.Accounts (c ∈ s.grants) s.mShutdown)
    (hstopping : p.Stopping → s.mShutdown = true) : Granted (s.goto c p) := by
  refine ⟨h.nodup, h.waiting, ?_, ?_, ?_, ?_⟩
  · exact (forall_update_iff s.pc fun _ q => ∀ w ∈ q.toGrant, w ∈ s.grants).mpr
      ⟨fun x hx => h.handed c x (hgrant x hx), fun d _ => h.handed d⟩
  · exact (forall_update_iff s.pc fun _ q => ∀ w ∈ q.toStop, w ∉ s.grants).mpr
      ⟨fun x hx => h.detached c x (hstop x hx), fun d _ => h.detached d⟩
  · exact (forall_update_iff s.pc fun d q => q.Accounts (d ∈ s.grants) s.mShutdown).mpr
      ⟨haccounts, fun d _ => h.accounts d⟩
  · exact (forall_update_iff s.pc fun _ q => q.Stopping → s.mShutdown = true).mpr
      ⟨hstopping, fun d _ => h.stopping d⟩

/-- `c` resumes the suspended `w`, which has a permit or learns of the shutdown. -/
lemma wake (h : Granted s) (hcw : c ≠ w)
    (hpermit : w ∈ s.grants ∨ s.mShutdown = true)
    (hgrant : ∀ x ∈ p.toGrant, x ∈ (s.pc c).toGrant) (hstop : ∀ x ∈ p.toStop, x ∈ (s.pc c).toStop)
    (haccounts : p.Accounts (c ∈ s.grants) s.mShutdown)
    (hstopping : p.Stopping → s.mShutdown = true) :
    Granted ((s.goto w .acquireResume).goto c p) := by
  have hfirst : Granted (s.goto w .acquireResume) := by
    apply h.goto
    · simp [Pc.toGrant]
    · simp [Pc.toStop]
    · exact hpermit
    · exact False.elim
  have hpc : (s.goto w .acquireResume).pc c = s.pc c := by simp [hcw]
  exact hfirst.goto (hpc ▸ hgrant) (hpc ▸ hstop) haccounts hstopping

/-- `c` logs a permit for `x`, which is not going to be on the list and was not detached from it. -/
lemma log (h : Granted s) {x : κ} {ws releases : List κ} {n : ℤ} (hx : x ∉ s.grants)
    (hws : ∀ w ∈ ws, w ∈ s.mAcquireWaiters ∧ w ≠ x) (hstop : ∀ d, x ∉ (s.pc d).toStop)
    (hgrant : ∀ w ∈ p.toGrant, w = x) (hpstop : p.toStop = []) (hstopping : ¬ p.Stopping)
    (hself : p.Accounts (c ∈ x :: s.grants) s.mShutdown)
    (hparked : x ≠ c → (s.pc x).Accounts True s.mShutdown) :
    Granted { s.goto c p with
      mCounter := n
      mAcquireWaiters := ws
      grants := x :: s.grants
      releases := releases } := by
  refine ⟨List.nodup_cons.mpr ⟨hx, h.nodup⟩, ?_, ?_, ?_, ?_, ?_⟩
  · intro w hw hmem
    obtain ⟨hlist, hwx⟩ := hws w hw
    exact h.waiting w hlist ((List.mem_cons.mp hmem).resolve_left hwx)
  · intro d w hw
    rcases eq_or_ne d c with rfl | hd
    · rw [hgrant w (by simpa using hw)]
      exact List.mem_cons_self
    · exact List.mem_cons_of_mem x (h.handed d w (by simpa [hd] using hw))
  · intro d w hw hmem
    rcases eq_or_ne d c with rfl | hd
    · simp [hpstop] at hw
    · have hw' : w ∈ (s.pc d).toStop := by simpa [hd] using hw
      rcases List.mem_cons.mp hmem with rfl | hmem
      · exact hstop d hw'
      · exact h.detached d w hw' hmem
  · intro d
    rcases eq_or_ne d c with rfl | hd
    · simpa using hself
    · rcases eq_or_ne d x with rfl | hdx
      · simpa [hd] using hparked hd
      · simpa [hd, hdx] using h.accounts d
  · intro d hd
    rcases eq_or_ne d c with rfl | hdc
    · exact (hstopping (by simpa using hd)).elim
    · exact h.stopping d (by simpa [hdc] using hd)

/-- Every transition keeps the log of the permits. -/
lemma transition (h : Granted s) (hs : Sound max s) (ht : Transition max s c t) : Granted t := by
  have hown := h.accounts c
  cases ht with
  | quiet hq =>
    obtain ⟨hgrant, hstop, -⟩ := hq.inHand_eq
    exact h.goto (by simp [hgrant]) (by simp [hstop]) (hq.accounts hown) hq.stopping
  | @lock p hlock _ =>
    have hgoto : Granted (s.goto c p) := by
      apply h.goto
      all_goals
        cases hpc : s.pc c <;> rw [hpc] at hlock hown <;> cases hlock <;>
          simp_all [Pc.toGrant, Pc.toStop, Pc.Stopping]
    exact { hgoto with }
  | @unlock p hunlock =>
    have hstopping := h.stopping c
    have hgoto : Granted (s.goto c p) := by
      apply h.goto
      all_goals
        cases hpc : s.pc c <;> rw [hpc] at hunlock hown hstopping <;> cases hunlock <;>
          simp_all [Pc.toGrant, Pc.toStop, Pc.Stopping]
    exact { hgoto with }
  | @take k hc =>
    have hnew : c ∉ s.grants := by simpa [hc] using hown
    refine h.log hnew ?_ ?_ ?_ ?_ ?_ ?_ fun hne => (hne rfl).elim
    · intro w hw
      refine ⟨hw, ?_⟩
      rintro rfl
      have hparked := hs.parked.of_mem_list hw
      simp [hc] at hparked
    · intro d hd
      have hsusp := hs.held d c (List.mem_append_right _ hd)
      simp [hc] at hsusp
    all_goals
      rcases k with _ | _ <;> simp [Pc.toGrant, Pc.toStop, Pc.Stopping]
  | push hc =>
    have hgoto : Granted (s.goto c .acquireSuspend) := by
      apply h.goto
      all_goals simp [Pc.toGrant, Pc.toStop, Pc.Stopping]
    refine ⟨hgoto.1, ?_, hgoto.3, hgoto.4, hgoto.5, hgoto.6⟩
    intro w hw
    rcases List.mem_cons.mp hw with rfl | hw
    · simpa [hc] using hown
    · exact h.waiting w hw
  | drop hc _ | add hc =>
    have hgoto : Granted (s.goto c (.releaseUnlock none)) := by
      apply h.goto
      all_goals simp_all [Pc.toGrant, Pc.toStop, Pc.Stopping]
    exact { hgoto with }
  | @handOff w ws hc hws =>
    have hmem : w ∈ s.mAcquireWaiters := by simp [hws]
    have hsusp := hs.suspended_of_mem (c := c) (by simp [hc, Pc.InSection])
      (by simp [hc]) hmem
    have hcw : c ≠ w := by
      rintro rfl
      simp [hc] at hsusp
    have hnodup : (w :: ws).Nodup := by
      rw [← hws]
      exact Placed.nodup hs.parked none
    refine h.log (h.waiting w hmem) ?_ ?_ (by simp [Pc.toGrant]) rfl id ?_ ?_
    · intro x hx
      refine ⟨by simp [hws, hx], ?_⟩
      rintro rfl
      exact (List.nodup_cons.mp hnodup).1 hx
    · intro d hd
      exact hs.parked.not_mem_hand hmem d (List.mem_append_right _ hd)
    · simpa [hc, hcw] using hown
    · intro _
      simp [hsusp]
  | @resumeOne w hc =>
    have hmem : w ∈ (s.pc c).inHand := by simp [hc, Pc.inHand, Pc.toGrant, Pc.toStop]
    obtain ⟨hw, hcw⟩ := hs.suspended_of_mem_hand hmem
    apply h.wake hcw (Or.inl (h.handed c w (by simp [hc, Pc.toGrant])))
    all_goals simp_all [Pc.toGrant, Pc.toStop, Pc.Stopping]
  | stop hc _ =>
    refine ⟨h.nodup, h.waiting, ?_, ?_, ?_, fun _ _ => rfl⟩
    · exact (forall_update_iff s.pc fun _ q => ∀ w ∈ q.toGrant, w ∈ s.grants).mpr
        ⟨by simp [Pc.toGrant], fun d _ => h.handed d⟩
    · exact (forall_update_iff s.pc fun _ q => ∀ w ∈ q.toStop, w ∉ s.grants).mpr
        ⟨by simp [Pc.toStop], fun d _ => h.detached d⟩
    · exact (forall_update_iff s.pc fun d q => q.Accounts (d ∈ s.grants) true).mpr
        ⟨by simpa [hc] using hown, fun d _ => (h.accounts d).stop⟩
  | popAll hc =>
    have hflag := h.stopping c (by simp [hc, Pc.Stopping])
    refine ⟨h.nodup, by simp, ?_, ?_, ?_, fun _ _ => hflag⟩
    · exact (forall_update_iff s.pc fun _ q => ∀ w ∈ q.toGrant, w ∈ s.grants).mpr
        ⟨by simp [Pc.toGrant], fun d _ => h.handed d⟩
    · exact (forall_update_iff s.pc fun _ q => ∀ w ∈ q.toStop, w ∉ s.grants).mpr
        ⟨h.waiting, fun d _ => h.detached d⟩
    · exact (forall_update_iff s.pc fun d q =>
        q.Accounts (d ∈ s.grants) s.mShutdown).mpr
          ⟨by simpa [hc] using hown, fun d _ => h.accounts d⟩
  | @resumeNext w ws hc =>
    have hmem : w ∈ (s.pc c).inHand := by simp [hc, Pc.inHand, Pc.toGrant, Pc.toStop]
    obtain ⟨hw, hcw⟩ := hs.suspended_of_mem_hand hmem
    have hflag := h.stopping c (by simp [hc, Pc.Stopping])
    apply h.wake hcw (Or.inr hflag)
    all_goals simp_all [Pc.toGrant, Pc.toStop, Pc.Stopping]

end Granted

/-- The log of the permits is right in every reachable state. -/
lemma granted_of_reachable {startingValue : ℤ} (h0 : 0 ≤ startingValue)
    (hmax : startingValue ≤ max) (h : (machine κ max startingValue).Reachable s) : Granted s := by
  refine h.invariant ?_ ?_
  · constructor
    all_goals simp [machine, start, Pc.toGrant, Pc.toStop, Pc.Stopping]
  · intro s a t hr hs hstep
    exact hs.transition (sound_of_reachable h0 hmax hr) (step_transition hstep)

/-! ## The releases -/

/-- The `release` calls that have given a permit back or dropped it. -/
def Pc.Decided : Pc κ → Prop
  | .releaseUnlock _ => True
  | .releaseResume _ => True
  | .releaseReturned => True
  | _ => False

/-- Each of these calls is logged once, as a release or as dropped. -/
structure Released (s : State κ) : Prop where
  nodup : (s.releases ++ s.drops).Nodup
  mem_iff : ∀ c, c ∈ s.releases ++ s.drops ↔ (s.pc c).Decided

namespace Released

/-- A move of `c` that decides nothing. -/
lemma goto (h : Released s) (hp : p.Decided ↔ (s.pc c).Decided) : Released (s.goto c p) := by
  refine ⟨h.nodup, ?_⟩
  intro d
  have hd := h.mem_iff d
  rcases eq_or_ne d c with rfl | hdc
  · simpa [hp] using hd
  · simpa [hdc] using hd

/-- The release `c` is decided. -/
lemma decide (h : Released s) (hc : ¬ (s.pc c).Decided) (hp : p.Decided)
    (hlogs : (t.releases ++ t.drops).Perm (c :: (s.releases ++ s.drops)))
    (hpc : t.pc = update s.pc c p) : Released t := by
  have hnew : c ∉ s.releases ++ s.drops := by
    rw [h.mem_iff]
    exact hc
  constructor
  · rw [hlogs.nodup_iff]
    exact List.nodup_cons.mpr ⟨hnew, h.nodup⟩
  · intro d
    rw [hlogs.mem_iff, List.mem_cons, h.mem_iff, hpc]
    rcases eq_or_ne d c with rfl | hd
    · simp [hp]
    · simp [hd]

/-- Every transition keeps the log of the releases. -/
lemma transition (h : Released s) (hs : Sound max s) (ht : Transition max s c t) :
    Released t := by
  have hmoved : ∀ {w : κ} {q : Pc κ}, w ∈ (s.pc c).inHand → (q.Decided ↔ (s.pc c).Decided) →
      Released ((s.goto w .acquireResume).goto c q) := by
    intro w q hmem hq
    obtain ⟨hw, hcw⟩ := hs.suspended_of_mem_hand hmem
    have hfirst := h.goto (c := w) (p := .acquireResume) (by simp [hw, Pc.Decided])
    apply hfirst.goto
    simpa [hcw] using hq
  cases ht with
  | quiet hq =>
    apply h.goto
    generalize s.pc c = q at hq
    cases hq with
    | @call f => cases f <;> simp [Pc.Decided]
    | @loadFail k _
    | @reloadFail k x _ => rcases k with _ | _ | _ <;> simp [Pc.Decided]
    | _ => simp [Pc.Decided]
  | @lock p hlock _ =>
    have hgoto : Released (s.goto c p) := by
      apply h.goto
      generalize s.pc c = q at hlock
      cases hlock <;> simp [Pc.Decided]
    exact { hgoto with }
  | @unlock p hunlock =>
    have hgoto : Released (s.goto c p) := by
      apply h.goto
      generalize s.pc c = q at hunlock
      cases hunlock <;> simp [Pc.Decided]
    exact { hgoto with }
  | @take k hc =>
    have hgoto : Released (s.goto c k.success) := by
      apply h.goto
      rcases k with _ | _ <;> simp [hc, Pc.Decided]
    exact { hgoto with }
  | push hc =>
    exact { h.goto (c := c) (p := .acquireSuspend) (by simp [hc, Pc.Decided]) with }
  | drop hc _ =>
    exact h.decide (p := .releaseUnlock none) (by simp [hc, Pc.Decided]) trivial
      List.perm_middle rfl
  | @handOff w ws hc _ =>
    exact h.decide (p := .releaseUnlock (some w)) (by simp [hc, Pc.Decided]) trivial
      (List.Perm.refl _) rfl
  | add hc =>
    exact h.decide (p := .releaseUnlock none) (by simp [hc, Pc.Decided]) trivial
      (List.Perm.refl _) rfl
  | resumeOne hc =>
    exact hmoved (by simp [hc, Pc.inHand, Pc.toGrant]) (by simp [hc, Pc.Decided])
  | stop hc _ =>
    exact { h.goto (c := c) (p := .shutdownPopAll) (by simp [hc, Pc.Decided]) with }
  | popAll hc =>
    exact { h.goto (c := c) (p := .shutdownUnlock s.mAcquireWaiters)
      (by simp [hc, Pc.Decided]) with }
  | resumeNext hc =>
    exact hmoved (by simp [hc, Pc.inHand, Pc.toStop]) (by simp [hc, Pc.Decided])

end Released

/-- The log of the releases is right in every reachable state. -/
lemma released_of_reachable {startingValue : ℤ} (h0 : 0 ≤ startingValue)
    (hmax : startingValue ≤ max) (h : (machine κ max startingValue).Reachable s) :
    Released s := by
  refine h.invariant ?_ ?_
  · constructor
    all_goals simp [machine, start, Pc.Decided]
  · intro s a t hr hs hstep
    exact hs.transition (sound_of_reachable h0 hmax hr) (step_transition hstep)

/-! ## The conservation law -/

/-- What is in the counter and what was granted is what was there at the beginning and what was
given back, before and after a step. -/
lemma Transition.ledger (ht : Transition max s c t) :
    t.mCounter + t.grants.length - t.releases.length =
      s.mCounter + s.grants.length - s.releases.length := by
  cases ht with
  | take hc | handOff hc hws | add hc =>
    simp only [List.length_cons, Nat.cast_add, Nat.cast_one, State.goto]
    omega
  | _ => rfl

/-- A release is dropped at the maximum only. -/
lemma Transition.drop_at_max (ht : Transition max s c t) (hdrop : t.drops ≠ s.drops) :
    s.mCounter = max := by
  cases ht with
  | drop _ hmax => exact hmax
  | _ => exact (hdrop rfl).elim

/-- In every reachable state of a `semaphore<max>` constructed with a value from `0` to `max`:
* the counter is between `0` and `max`;
* the counter and the permits granted make up the starting value and the releases that were not
  dropped, each call being granted at most one permit and each release being counted once, as
  given back or as dropped; a `try_acquire` has returned `true` exactly if it was granted one;
* a step drops a release only when the counter is at `max`;
* the counter is zero while somebody is on the list of waiters, and an acquirer that is
  suspended while a permit is available has been granted one or is being told of the shutdown. -/
theorem permits_conserved {startingValue : ℤ} (h0 : 0 ≤ startingValue)
    (hmax : startingValue ≤ max) (h : (machine κ max startingValue).Reachable s) :
    (0 ≤ s.mCounter ∧ s.mCounter ≤ max) ∧
    (s.mCounter + s.grants.length = startingValue + s.releases.length ∧ s.grants.Nodup ∧
      (s.releases ++ s.drops).Nodup ∧ (∀ c, c ∈ s.releases ++ s.drops ↔ (s.pc c).Decided) ∧
      ∀ c b, s.pc c = .tryReturned b → (b = true ↔ c ∈ s.grants)) ∧
    (∀ a t, (machine κ max startingValue).step s a = some t → t.drops ≠ s.drops →
      s.mCounter = max) ∧
    (s.mAcquireWaiters ≠ [] → s.mCounter = 0) ∧
    (∀ c, s.pc c = .suspended → 0 < s.mCounter →
      c ∈ s.grants ∨ s.mShutdown = true ∧ ∃ d, c ∈ (s.pc d).toStop) := by
  have hsound := sound_of_reachable h0 hmax h
  have hgranted := granted_of_reachable h0 hmax h
  have hreleased := released_of_reachable h0 hmax h
  refine ⟨hsound.bounds, ⟨?_, hgranted.nodup, hreleased.nodup, hreleased.mem_iff, ?_⟩, ?_,
    hsound.exhausted, ?_⟩
  · have hledger : s.mCounter + s.grants.length - s.releases.length = startingValue := by
      refine h.invariant (I := fun s => s.mCounter + s.grants.length - s.releases.length =
        startingValue) (by simp [machine, start]) ?_
      intro s a t _ hs hstep
      rw [(step_transition hstep).ledger, hs]
    omega
  · intro c b hc
    simpa [hc] using hgranted.accounts c
  · intro a t hstep hdrop
    exact (step_transition hstep).drop_at_max hdrop
  · intro c hc hpos
    rcases hsound.parked.mem_or (x := c) (by simp [hc]) with hlist | ⟨d, hd⟩
    · have hzero := hsound.exhausted (List.ne_nil_of_mem hlist)
      omega
    · rcases List.mem_append.mp hd with hd | hd
      · exact Or.inl (hgranted.handed d c hd)
      · refine Or.inr ⟨hgranted.stopping d ?_, d, hd⟩
        cases hpc : s.pc d <;> simp_all [Pc.toStop, Pc.Stopping]

/-- Two permits are granted, a third caller waits, and a release hands its permit to the waiter. -/
def handOffTrace : List (Action ℕ) :=
  [.call 0 .tryAcquire, .advance 0, .spurious 0, .advance 0, .call 1 .acquire, .advance 1,
    .advance 1, .advance 1, .advance 1, .advance 1, .call 2 .acquire, .advance 2, .advance 2,
    .advance 2, .advance 2, .advance 2, .advance 2, .advance 2, .call 3 .release, .advance 3,
    .advance 3, .advance 3]

/-- After the run above the counter is zero, three permits have been granted and one given back;
the third caller is still suspended and has its permit. -/
theorem permits_conserved_handOff : ∃ s : State ℕ,
    (machine ℕ 2 2).run (start 2) handOffTrace = some s ∧ s.pc 2 = .suspended ∧
    s.mCounter = 0 ∧ s.grants = [2, 1, 0] ∧ s.releases = [3] ∧
    s.mCounter + s.grants.length = 2 + s.releases.length :=
  ⟨_, rfl, rfl, rfl, rfl, rfl, (permits_conserved (by decide) (by decide)
    (Machine.reachable_of_run (M := machine ℕ 2 2) (l := handOffTrace) rfl)).2.1.1⟩

end Libcoro.Semaphore
