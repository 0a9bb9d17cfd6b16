import Libcoro.Foundations.Placement
import Libcoro.Notification.Transitions

/-!
# Where the waiters of a condition variable are

Every suspended waiter is on the list, in the hands of one notifier or lost, and the mutexes belong
to those who need them (`Sound`).  A waiter is lost when an executor refuses the task that
`notify_all(executor)` has made for it (`waiter_lost`); in a run without refusals nobody is, and
`waiters_conserved` puts together what holds of the waiters then.
-/

namespace Libcoro.Notification

open Foundations ConditionVariable Function

variable {ι μ δ : Type*}

/-- The waiters that a notifier has detached: the one that it is notifying and those to come. -/
def Pc.inHand : Pc ι → List ι
  | .notifying ws => ws
  | .spawning ws => ws
  | .locking w ws => w :: ws
  | .evaluating w ws => w :: ws
  | .notReady w ws => w :: ws
  | .requeue w ws => w :: ws
  | _ => []

/-- The coroutines that have pushed their awaiter and have not been resumed. -/
def Pc.Suspended : Pc ι → Prop
  | .waitUnlock => True
  | .waiting => True
  | _ => False

/-- The mutex that a coroutine owns on account of its control point: its own one until it is
suspended, and that of the waiter that it evaluates. -/
@[simp] def Pc.Claims (owner : μ → Option ι) (mutex : ι → μ) (c : ι) : Pc ι → Prop
  | .waitPush => owner (mutex c) = some c
  | .waitUnlock => owner (mutex c) = some c
  | .evaluating w _ => owner (mutex w) = some c
  | .notReady w _ => owner (mutex w) = some c
  | _ => True

/-- Every suspended waiter is on the list, in the hands of one notifier or lost, and the mutexes
belong to those who need them. -/
structure Sound (s : State ι μ δ) : Prop where
  parked : Parked Pc.inHand Pc.Suspended (s.mAwaiters ++ s.lost) s.pc
  claims : ∀ c, (s.pc c).Claims s.owner s.mutex c

/-- A quiet step concerns no waiter and no mutex. -/
lemma Quiet.spec {s : State ι μ δ} {q p : Pc ι} (h : Quiet s q p) :
    p.inHand = q.inHand ∧ (p.Suspended ↔ q.Suspended) ∧
      ∀ (owner : μ → Option ι) (mutex : ι → μ) (c : ι), p.Claims owner mutex c := by
  cases h <;> simp [Pc.inHand, Pc.Suspended]

/-- A `notify_all` that detaches the awaiters has them in hand afterwards. -/
lemma Detaches.spec {ws : List ι} {q p : Pc ι} (h : Detaches ws q p) :
    q.inHand = [] ∧ p.inHand = ws ∧ (p.Suspended ↔ q.Suspended) := by
  cases h <;> simp [Pc.inHand, Pc.Suspended]

/-- A `notify_all` that detaches the awaiters needs no mutex. -/
lemma Detaches.claims {ws : List ι} {q p : Pc ι} (h : Detaches ws q p) (owner : μ → Option ι)
    (mutex : ι → μ) (c : ι) : p.Claims owner mutex c := by
  cases h <;> trivial

/-- Whoever is suspended has nobody in hand. -/
lemma Pc.Suspended.inHand_eq {q : Pc ι} (h : q.Suspended) : q.inHand = [] := by
  cases q <;> first | rfl | exact h.elim

/-! ## Claims -/

section Claims

variable {owner : μ → Option ι} {mutex : ι → μ} {c d : ι} {q : Pc ι}

/-- What a coroutine claims is not affected by a mutex that it does not own. -/
lemma Pc.Claims.setOwner [DecidableEq μ] (h : q.Claims owner mutex d) {m : μ} {o : Option ι}
    (hm : owner m ≠ some d) : q.Claims (update owner m o) mutex d := by
  have hkeep : ∀ x, owner x = some d → update owner m o x = some d := by
    intro x hx
    have hxm : x ≠ m := by
      rintro rfl
      exact hm hx
    simpa [hxm] using hx
  cases q <;> first | exact hkeep _ h | trivial

/-- What a coroutine claims is not affected by the wait of somebody whom it has not in hand. -/
lemma Pc.Claims.setMutex [DecidableEq ι] (h : q.Claims owner mutex d) {m : μ} (hd : d ≠ c)
    (hq : c ∉ q.inHand) : q.Claims owner (update mutex c m) d := by
  have hkeep : ∀ x, x ≠ c → owner (mutex x) = some d →
      owner (update mutex c m x) = some d := by
    intro x hx hown
    simpa [hx] using hown
  have hhand : ∀ x ∈ q.inHand, x ≠ c := by
    rintro x hx rfl
    exact hq hx
  cases q <;> first | exact hkeep _ hd h | exact hkeep _ (hhand _ List.mem_cons_self) h | trivial

end Claims

variable [DecidableEq ι] {s t : State ι μ δ} {c w : ι} {p : Pc ι}

@[simp] lemma State.goto_pc : (s.goto c p).pc = update s.pc c p := rfl

namespace Sound

omit [DecidableEq ι] in
/-- Whoever is in the hands of a notifier is suspended, which the notifier itself is not. -/
lemma suspended_of_mem_hand (h : Sound s) (hw : w ∈ (s.pc c).inHand) :
    (s.pc w).Suspended ∧ c ≠ w := by
  have hsusp := h.parked.of_mem_hand hw
  refine ⟨hsusp, ?_⟩
  rintro rfl
  simp [hsusp.inHand_eq] at hw

omit [DecidableEq ι] in
/-- A waiter that is being evaluated has completed its `await_suspend`. -/
lemma waiting_of_claims (h : Sound s) (hw : w ∈ (s.pc c).inHand)
    (hown : s.owner (s.mutex w) = some c) : s.pc w = .waiting := by
  obtain ⟨hsusp, hcw⟩ := h.suspended_of_mem_hand hw
  have hclaims := h.claims w
  cases hpc : s.pc w with
  | waiting => rfl
  | waitUnlock =>
    rw [hpc] at hclaims
    have hself : s.owner (s.mutex w) = some w := hclaims
    rw [hown] at hself
    exact (hcw (Option.some.inj hself)).elim
  | _ => simp [hpc, Pc.Suspended] at hsusp

/-- The waiters after a move of `c` that does not concern them. -/
lemma parked_update (h : Sound s) (hhand : p.inHand = (s.pc c).inHand)
    (hsusp : p.Suspended ↔ (s.pc c).Suspended) :
    Parked Pc.inHand Pc.Suspended (s.mAwaiters ++ s.lost) (update s.pc c p) := by
  apply Parked.congr h.parked
  exact (forall_update_iff s.pc fun d q =>
    q.inHand = (s.pc d).inHand ∧ (q.Suspended ↔ (s.pc d).Suspended)).mpr
      ⟨⟨hhand, hsusp⟩, fun _ _ => ⟨rfl, Iff.rfl⟩⟩

/-- The claims after a move of `c`. -/
lemma claims_update (h : Sound s) (hp : p.Claims s.owner s.mutex c) :
    ∀ d, (update s.pc c p d).Claims s.owner s.mutex d :=
  (forall_update_iff s.pc fun d q => q.Claims s.owner s.mutex d).mpr
    ⟨hp, fun d _ => h.claims d⟩

variable [DecidableEq μ]

/-- The claims after a move of `c`, which takes or gives up a mutex that is free or its own. -/
lemma claims_setOwner (h : Sound s) {m : μ} {o : Option ι}
    (hm : s.owner m = none ∨ s.owner m = some c)
    (hp : p.Claims (update s.owner m o) s.mutex c) :
    ∀ d, (update s.pc c p d).Claims (update s.owner m o) s.mutex d := by
  refine (forall_update_iff s.pc fun d q =>
    q.Claims (update s.owner m o) s.mutex d).mpr ⟨hp, ?_⟩
  intro d hd
  apply (h.claims d).setOwner
  rcases hm with hm | hm
  · simp [hm]
  · rw [hm]
    exact fun heq => hd (Option.some.inj heq).symm

/-- Every transition keeps the waiters and the mutexes where they are accounted for. -/
lemma transition (h : Sound s) (ht : Transition s c t) : Sound t := by
  have hown := h.claims c
  cases ht with
  | quiet hq =>
    obtain ⟨hhand, hsusp, hclaims⟩ := hq.spec
    exact ⟨h.parked_update hhand hsusp, h.claims_update (hclaims _ _ _)⟩
  | @lock m hc hm =>
    have hclaims := h.claims_setOwner (c := c) (p := s.pc c) (o := some c) (Or.inl hm)
      (by simp [hc])
    rw [update_eq_self] at hclaims
    exact ⟨h.parked, hclaims⟩
  | @unlock m hc hm =>
    have hclaims := h.claims_setOwner (c := c) (p := s.pc c) (o := none) (Or.inr hm)
      (by simp [hc])
    rw [update_eq_self] at hclaims
    exact ⟨h.parked, hclaims⟩
  | write | requestStop => exact ⟨h.parked, h.claims⟩
  | @wait m a stop hc hm =>
    have hfree : ∀ d, c ∉ (s.pc d).inHand := by
      intro d hd
      have hsusp := (h.suspended_of_mem_hand hd).1
      simp [hc, Pc.Suspended] at hsusp
    constructor
    · refine h.parked_update ?_ ?_
      · split_ifs <;> simp [hc, Pc.inHand]
      · split_ifs <;> simp [hc, Pc.Suspended]
    · refine (forall_update_iff s.pc fun d q =>
        q.Claims s.owner (update s.mutex c m) d).mpr ⟨?_, ?_⟩
      · split_ifs
        · trivial
        · change s.owner (update s.mutex c m c) = some c
          rwa [update_self]
      · intro d hd
        exact (h.claims d).setMutex hd (hfree d)
  | push hc =>
    rw [hc] at hown
    refine ⟨?_, h.claims_update hown⟩
    exact Parked.park h.parked (by simp [hc, Pc.Suspended]) trivial (by simp [hc, Pc.inHand])
  | suspend hc | @release w ws hc =>
    rw [hc] at hown
    refine ⟨h.parked_update ?_ ?_, h.claims_setOwner (Or.inr hown) trivial⟩
    · simp [hc, Pc.inHand]
    · simp [hc, Pc.Suspended]
  | @popOne w ws hc hws =>
    refine ⟨?_, h.claims_update trivial⟩
    refine Parked.exchange h.parked ?_ (by simp [hc, Pc.Suspended])
    rw [hc, hws]
    exact (List.perm_append_singleton w (ws ++ s.lost)).trans (by simp [Pc.inHand])
  | @popAll p hdetach =>
    obtain ⟨hnil, hall, hsusp⟩ := hdetach.spec
    refine ⟨Parked.exchange h.parked ?_ hsusp, h.claims_update (hdetach.claims _ _ _)⟩
    rw [hnil, hall, List.append_nil]
    exact List.perm_append_comm
  | @take w ws hc hfree =>
    refine ⟨h.parked_update ?_ ?_, h.claims_setOwner (Or.inl hfree) ?_⟩
    · simp [hc, Pc.inHand]
    · simp [hc, Pc.Suspended]
    · exact update_self _ _ _
  | @resume w ws hc _ =>
    rw [hc] at hown
    have hmem : w ∈ (s.pc c).inHand := by simp [hc, Pc.inHand]
    obtain ⟨-, hcw⟩ := h.suspended_of_mem_hand hmem
    constructor
    · refine Parked.wake h.parked (fun q hq => hq.inHand_eq) ?_ id id rfl
      rw [hc]
      rfl
    · -- the mutex of `w` was that of `c`, so that nobody else claims it
      refine (forall_update_iff _ fun d (q : Pc ι) =>
        q.Claims (update s.owner (s.mutex w) (some w)) s.mutex d).mpr ⟨trivial, ?_⟩
      intro d hd
      rcases eq_or_ne d w with rfl | hdw
      · simp
      · rw [State.goto_pc, update_of_ne hdw]
        apply (h.claims d).setOwner
        rw [show s.owner (s.mutex w) = some c from hown]
        exact fun heq => hd (Option.some.inj heq).symm
  | @reject w ws hc hready =>
    rw [hc] at hown
    refine ⟨h.parked_update ?_ ?_, h.claims_update hown⟩
    · simp [hc, Pc.inHand]
    · simp [hc, Pc.Suspended]
  | @requeue w ws hc =>
    refine ⟨?_, h.claims_update trivial⟩
    refine Parked.exchange h.parked ?_ (by simp [hc, Pc.Suspended])
    rw [hc]
    exact (@List.perm_middle ι w (s.mAwaiters ++ s.lost) ws).symm
  | @spawn k w ws hc hk =>
    have hck : c ≠ k := by
      rintro rfl
      simp [hc] at hk
    constructor
    · refine Parked.hand_over h.parked hck ?_ (by simp [hc, Pc.Suspended])
        (by simp [hk, Pc.Suspended])
      rw [hc, hk]
      exact (List.perm_append_singleton w ws).trans (by simp [Pc.inHand])
    · have hfirst := h.claims_update (c := k) (p := .locking w []) trivial
      exact (forall_update_iff _ fun d (q : Pc ι) => q.Claims s.owner s.mutex d).mpr
        ⟨trivial, fun d _ => hfirst d⟩

omit [DecidableEq μ] in
/-- A refusal moves a waiter from the hands of `c` to the lost ones. -/
lemma refusal (h : Sound s) (ht : Refusal s c t) : Sound t := by
  obtain ⟨w, ws, hc, rfl⟩ := ht
  refine ⟨?_, h.claims_update trivial⟩
  refine Parked.exchange h.parked ?_ (by simp [hc, Pc.Suspended])
  rw [hc]
  have hfront : (s.mAwaiters ++ w :: s.lost ++ ws).Perm
      (w :: (s.mAwaiters ++ s.lost ++ ws)) := by simp
  exact hfront.trans List.perm_middle.symm

end Sound

variable [DecidableEq μ]

/-! ## Resumptions -/

/-- A step by which a suspended waiter stops being suspended is the evaluation of this waiter by
somebody who owns its mutex, with the result that it is ready. -/
lemma Transition.resumes (ht : Transition s c t) (hs : Sound s) (hw : (s.pc w).Suspended)
    (hw' : ¬ (t.pc w).Suspended) :
    (∃ ws, s.pc c = .evaluating w ws) ∧ s.pc w = .waiting ∧ s.owner (s.mutex w) = some c ∧
      s.ready w = true ∧ t.pc w = .running ∧ t.owner (s.mutex w) = some w := by
  -- a suspended coroutine that moves by itself stays suspended
  have hmoved : ∀ {q : Pc ι}, (q.Suspended ↔ (s.pc c).Suspended) →
      (update s.pc c q w).Suspended := by
    intro q hq
    rcases eq_or_ne w c with rfl | hwc
    · simpa [hq] using hw
    · simpa [hwc] using hw
  cases ht with
  | quiet hq => exact (hw' (hmoved hq.spec.2.1)).elim
  | lock | unlock | write | requestStop => exact (hw' hw).elim
  | wait hc _ =>
    refine (hw' (hmoved ?_)).elim
    split_ifs <;> simp [hc, Pc.Suspended]
  | push hc =>
    rcases eq_or_ne w c with rfl | hwc
    · simp [hc, Pc.Suspended] at hw
    · exact (hw' (by simpa [hwc] using hw)).elim
  | suspend hc | popOne hc _ | take hc _ | reject hc _ | release hc
  | requeue hc => exact (hw' (hmoved (by simp [hc, Pc.Suspended]))).elim
  | popAll hdetach => exact (hw' (hmoved hdetach.spec.2.2)).elim
  | @resume x ws hc hready =>
    have hmem : x ∈ (s.pc c).inHand := by simp [hc, Pc.inHand]
    have hown : s.owner (s.mutex x) = some c := by simpa [hc] using hs.claims c
    obtain ⟨-, hcx⟩ := hs.suspended_of_mem_hand hmem
    have hwc : w ≠ c := by
      rintro rfl
      simp [hc, Pc.Suspended] at hw
    obtain rfl : w = x := by
      by_contra hwx
      exact hw' (by simpa [State.setOwner, State.evaluated, hwc, hwx]
        using hw)
    refine ⟨⟨ws, hc⟩, hs.waiting_of_claims hmem hown, hown, hready, ?_, ?_⟩
    · simp [hwc]
    · simp [State.setOwner]
  | @spawn k x ws hc hk =>
    have hwc : w ≠ c := by
      rintro rfl
      simp [hc, Pc.Suspended] at hw
    have hwk : w ≠ k := by
      rintro rfl
      simp [hk, Pc.Suspended] at hw
    exact (hw' (by simpa [hwc, hwk] using hw)).elim

/-! ## The ledger of a notify call -/

/-- The awaiters that a notify call has still to deal with. -/
def Pc.toGo : Pc ι → List ι
  | .notifying ws => ws
  | .spawning ws => ws
  | .locking w ws => w :: ws
  | .evaluating w ws => w :: ws
  | .notReady _ ws => ws
  | .requeue _ ws => ws
  | _ => []

omit [DecidableEq ι] in
/-- Whoever is suspended is not in a notify call. -/
lemma Pc.Suspended.toGo_eq {q : Pc ι} (h : q.Suspended) : q.toGo = [] := by
  cases q <;> first | rfl | exact h.elim

/-- What a notify call has detached is what it has dealt with, in order, and what is to go. -/
structure Ledger (s : State ι μ δ) : Prop where
  nodup : ∀ c, (s.detached c).Nodup
  account : ∀ c, s.detached c = s.handled c ++ (s.pc c).toGo

/-- The executor refuses no task. -/
def SpawnsAccepted (_ : State ι μ δ) : Action ι μ δ → Prop
  | .refuse _ => False
  | _ => True

instance (s : State ι μ δ) (a : Action ι μ δ) : Decidable (SpawnsAccepted s a) := by
  unfold SpawnsAccepted
  split <;> infer_instance

namespace Ledger

omit [DecidableEq μ] in
/-- A move of `c` that leaves the same awaiters to go. -/
lemma goto (h : Ledger s) (hp : p.toGo = (s.pc c).toGo) : Ledger (s.goto c p) :=
  ⟨h.nodup, (forall_update_iff s.pc fun d q => s.detached d = s.handled d ++ q.toGo).mpr
    ⟨by rw [hp, h.account c], fun d _ => h.account d⟩⟩

omit [DecidableEq μ] in
/-- `c` begins with the awaiters `ws`. -/
lemma detach (h : Ledger s) {ws : List ι} (hws : ws.Nodup) (hp : p.toGo = ws) :
    Ledger ((s.detach c ws).goto c p) := by
  constructor
  · exact (forall_update_iff s.detached fun _ l => l.Nodup).mpr
      ⟨hws, fun d _ => h.nodup d⟩
  · intro d
    rcases eq_or_ne d c with rfl | hd
    · simp [hp]
    · simpa [hd] using h.account d

omit [DecidableEq μ] in
/-- `c` deals with the first of the awaiters that are to go. -/
lemma handle (h : Ledger s) (hc : (s.pc c).toGo = w :: p.toGo) :
    Ledger ((s.handle c w).goto c p) := by
  refine ⟨h.nodup, ?_⟩
  intro d
  rcases eq_or_ne d c with rfl | hd
  · have haccount := h.account d
    rw [hc] at haccount
    simpa using haccount
  · simpa [hd] using h.account d

/-- Every transition keeps the ledger. -/
lemma transition (h : Ledger s) (hs : Sound s) (ht : Transition s c t) : Ledger t := by
  have hnodup : (s.mAwaiters ++ s.lost).Nodup := Placed.nodup hs.parked none
  cases ht with
  | quiet hq =>
    apply h.goto
    generalize s.pc c = q at hq
    cases hq <;> rfl
  | lock | unlock | write | requestStop => exact ⟨h.nodup, h.account⟩
  | @wait m a stop hc _ =>
    have hgoto : Ledger (s.goto c (if a.awaitReady (s.data m) then .running else .waitPush)) := by
      apply h.goto
      split_ifs <;> simp [hc, Pc.toGo]
    exact { hgoto with }
  | push hc =>
    exact { h.goto (c := c) (p := .waitUnlock) (by simp [hc, Pc.toGo]) with }
  | suspend hc =>
    exact { h.goto (c := c) (p := .waiting) (by simp [hc, Pc.toGo]) with }
  | @popOne w ws hc _ =>
    exact { h.detach (c := c) (p := .locking w []) (List.nodup_singleton w) rfl with }
  | @popAll p hdetach =>
    have hbegin : Ledger ((s.detach c s.mAwaiters).goto c p) := by
      refine h.detach (List.Nodup.of_append_left hnodup) ?_
      cases hpc : s.pc c <;> rw [hpc] at hdetach <;> cases hdetach <;> rfl
    exact { hbegin with }
  | @take w ws hc _ =>
    exact { h.goto (c := c) (p := .evaluating w ws) (by simp [hc, Pc.toGo]) with }
  | @resume w ws hc _ =>
    obtain ⟨hsusp, hcw⟩ := hs.suspended_of_mem_hand (c := c) (w := w) (by simp [hc, Pc.inHand])
    have hfirst : Ledger (s.goto w .running) := h.goto hsusp.toGo_eq.symm
    have hhandle : Ledger (((s.goto w .running).handle c w).goto c (.notifying ws)) := by
      apply hfirst.handle
      simp [hcw, hc, Pc.toGo]
    exact { hhandle with }
  | @reject w ws hc _ =>
    exact { h.handle (c := c) (w := w) (p := .notReady w ws) (by simp [hc, Pc.toGo]) with }
  | @release w ws hc =>
    exact { h.goto (c := c) (p := .requeue w ws) (by simp [hc, Pc.toGo]) with }
  | @requeue w ws hc =>
    exact { h.goto (c := c) (p := .notifying ws) (by simp [hc, Pc.toGo]) with }
  | @spawn k w ws hc hk =>
    have hck : c ≠ k := by
      rintro rfl
      simp [hc] at hk
    have hfirst := h.detach (c := k) (p := .locking w []) (List.nodup_singleton w) rfl
    apply hfirst.handle
    simp [hck, hc, Pc.toGo]

end Ledger

/-- Only the refusal of a task loses a waiter. -/
lemma Transition.lost_eq (ht : Transition s c t) : t.lost = s.lost := by
  cases ht <;> rfl

variable [Inhabited μ]

/-- The waiters and the mutexes are accounted for in every reachable state. -/
lemma sound_of_reachable {d : μ → δ} (h : (machine ι d).Reachable s) : Sound s := by
  refine h.invariant ⟨Parked.nil rfl id, fun _ => trivial⟩ ?_
  intro s a t _ hs hstep
  rcases step_cases hstep with ht | ⟨c, -, ht⟩
  · exact hs.transition ht
  · exact hs.refusal ht

/-- In a run without refusals nobody is lost and every notify call keeps its ledger. -/
lemma ledger_of_reachable {d : μ → δ} (h : (machine ι d).ReachableUnder SpawnsAccepted s) :
    Ledger s ∧ s.lost = [] := by
  refine h.invariant (I := fun s => Ledger s ∧ s.lost = []) ?_ ?_
  · refine ⟨⟨fun _ => List.nodup_nil, fun _ => rfl⟩, rfl⟩
  · rintro s a t hr ⟨hledger, hlost⟩ hguard hstep
    rcases step_cases hstep with ht | ⟨c, rfl, -⟩
    · exact ⟨hledger.transition (sound_of_reachable hr.reachable) ht, ht.lost_eq.trans hlost⟩
    · exact hguard.elim

/-! ## Conservation -/

/-- Where a suspended waiter can be: in `m_awaiters`, on the chain that a `notify_all` has detached,
or in the hands of a notifier. -/
inductive Place (ι : Type*) where
  | awaiters
  | chain (c : ι)
  | hands (c : ι)
  deriving DecidableEq, Repr

/-- The waiters that a notifier will come to after the one that it is notifying. -/
def Pc.chain : Pc ι → List ι
  | .notifying ws => ws
  | .spawning ws => ws
  | .locking _ ws => ws
  | .evaluating _ ws => ws
  | .notReady _ ws => ws
  | .requeue _ ws => ws
  | _ => []

/-- The waiter that a notifier is notifying. -/
def Pc.current : Pc ι → List ι
  | .locking w _ => [w]
  | .evaluating w _ => [w]
  | .notReady w _ => [w]
  | .requeue w _ => [w]
  | _ => []

/-- The coroutines inside a notify function or a task that one of them has spawned. -/
def Pc.Notifying : Pc ι → Prop
  | .notifyOne | .notifyAll | .notifyAllExecutor => True
  | .notifying _ | .spawning _ => True
  | .locking _ _ | .evaluating _ _ | .notReady _ _ | .requeue _ _ => True
  | _ => False

/-- The waiters in a place. -/
def State.tokens (s : State ι μ δ) : Place ι → List ι
  | .awaiters => s.mAwaiters
  | .chain c => (s.pc c).chain
  | .hands c => (s.pc c).current

omit [DecidableEq ι] in
/-- A notifier has one waiter in its hands and the others on its chain. -/
lemma Pc.inHand_eq (p : Pc ι) : p.inHand = p.current ++ p.chain := by
  cases p <;> rfl

omit [DecidableEq ι] [DecidableEq μ] [Inhabited μ] in
/-- If nobody is lost, every place holds a waiter at most once, and the suspended waiters are those
that are in exactly one place. -/
lemma Sound.exists_unique_place (h : Sound s) (hlost : s.lost = []) :
    (∀ p, (s.tokens p).Nodup) ∧
    (∀ w, (s.pc w).Suspended → ∃! p, w ∈ s.tokens p) ∧
    ∀ w p, w ∈ s.tokens p → (s.pc w).Suspended := by
  have hparked : Parked Pc.inHand Pc.Suspended s.mAwaiters s.pc := by
    simpa [hlost] using h.parked
  have hnodup : ∀ c, ((s.pc c).current ++ (s.pc c).chain).Nodup := by
    intro c
    rw [← Pc.inHand_eq]
    exact Placed.nodup hparked (some c)
  -- where a waiter is, as far as the invariant tells
  have hwhere : ∀ w p, w ∈ s.tokens p → ∃ q, w ∈ parkingPlaces Pc.inHand s.mAwaiters s.pc q ∧
      ((q = none ∧ p = .awaiters) ∨ ∃ c, q = some c ∧ (p = .chain c ∨ p = .hands c)) := by
    intro w p hp
    cases p with
    | awaiters => exact ⟨none, hp, Or.inl ⟨rfl, rfl⟩⟩
    | chain c =>
      refine ⟨some c, ?_, Or.inr ⟨c, rfl, Or.inl rfl⟩⟩
      change w ∈ (s.pc c).inHand
      rw [Pc.inHand_eq]
      exact List.mem_append_right _ hp
    | hands c =>
      refine ⟨some c, ?_, Or.inr ⟨c, rfl, Or.inr rfl⟩⟩
      change w ∈ (s.pc c).inHand
      rw [Pc.inHand_eq]
      exact List.mem_append_left _ hp
  have hunique : ∀ w p q, w ∈ s.tokens p → w ∈ s.tokens q → p = q := by
    intro w p q hp hq
    obtain ⟨p', hp', hcase⟩ := hwhere w p hp
    obtain ⟨q', hq', hcase'⟩ := hwhere w q hq
    obtain rfl := Placed.unique hparked p' q' w hp' hq'
    rcases hcase with ⟨rfl, rfl⟩ | ⟨c, rfl, hpc⟩
    · rcases hcase' with ⟨-, rfl⟩ | ⟨c, hc, -⟩
      · rfl
      · cases hc
    · rcases hcase' with ⟨hc, -⟩ | ⟨d, hd, hqd⟩
      · cases hc
      · cases hd
        have hdisj := (List.nodup_append'.mp (hnodup c)).2.2
        rcases hpc with rfl | rfl <;> rcases hqd with rfl | rfl
        · rfl
        · exact (hdisj hq hp).elim
        · exact (hdisj hp hq).elim
        · rfl
  refine ⟨?_, ?_, ?_⟩
  · intro p
    cases p with
    | awaiters => exact Placed.nodup hparked none
    | chain c => exact (List.nodup_append'.mp (hnodup c)).2.1
    | hands c => exact (List.nodup_append'.mp (hnodup c)).1
  · intro w hw
    have hexists : ∃ p, w ∈ s.tokens p := by
      rcases hparked.mem_or hw with hlist | ⟨c, hc⟩
      · exact ⟨.awaiters, hlist⟩
      · rw [Pc.inHand_eq] at hc
        rcases List.mem_append.mp hc with hc | hc
        · exact ⟨.hands c, hc⟩
        · exact ⟨.chain c, hc⟩
    obtain ⟨p, hp⟩ := hexists
    exact ⟨p, hp, fun q hq => hunique w q p hq hp⟩
  · intro w p hp
    obtain ⟨q, hq, -⟩ := hwhere w p hp
    exact (Placed.mem_iff hparked w).mpr ⟨q, hq⟩

omit [DecidableEq ι] in
/-- Only a notifier has a chain, or a waiter in its hands. -/
lemma Pc.idle_of_not_notifying {p : Pc ι} (h : ¬ p.Notifying) :
    p.chain = [] ∧ p.current = [] := by
  cases p <;> first
    | exact ⟨rfl, rfl⟩
    | exact (h trivial).elim

/-- In every run in which no executor refuses a task:
* every waiter that has been pushed and not been resumed is in exactly one of `m_awaiters`, the
  chain of one notifier and the hands of one notifier, once, and nobody else is there;
* when nobody is notifying, all of them are in `m_awaiters`;
* a waiter is resumed only by somebody who owns its mutex and passes it on to the waiter, and, if it
  has a predicate, only if the predicate holds of the data at this moment or its stop token was
  triggered;
* a notify call deals with every awaiter that it has detached exactly once, in order: those dealt
  with and those to go make up what was detached, without repetition. -/
theorem waiters_conserved {d : μ → δ} (h : (machine ι d).ReachableUnder SpawnsAccepted s) :
    ((∀ p, (s.tokens p).Nodup) ∧ (∀ w, (s.pc w).Suspended → ∃! p, w ∈ s.tokens p) ∧
      ∀ w p, w ∈ s.tokens p → (s.pc w).Suspended) ∧
    ((∀ c, ¬ (s.pc c).Notifying) → ∀ w, (s.pc w).Suspended → w ∈ s.mAwaiters) ∧
    (∀ a t w, (machine ι d).step s a = some t → (s.pc w).Suspended → ¬ (t.pc w).Suspended →
      s.pc w = .waiting ∧ t.pc w = .running ∧
      (∃ c, s.owner (s.mutex w) = some c) ∧ t.owner (s.mutex w) = some w ∧
      (∀ f, s.awaiter w = .withPredicate f → f (s.data (s.mutex w)) = true) ∧
      (∀ f, s.awaiter w = .withPredicateStopToken f →
        f (s.data (s.mutex w)) = true ∨ s.stopRequested w = true)) ∧
    (∀ c, (s.detached c).Nodup ∧ s.detached c = s.handled c ++ (s.pc c).toGo) := by
  have hsound := sound_of_reachable h.reachable
  obtain ⟨hledger, hlost⟩ := ledger_of_reachable h
  have hplaces := hsound.exists_unique_place hlost
  refine ⟨hplaces, ?_, ?_, fun c => ⟨hledger.nodup c, hledger.account c⟩⟩
  · intro hquiet w hw
    obtain ⟨p, hp, -⟩ := hplaces.2.1 w hw
    cases p with
    | awaiters => exact hp
    | chain c =>
      have hp' : w ∈ (s.pc c).chain := hp
      rw [(Pc.idle_of_not_notifying (hquiet c)).1] at hp'
      exact absurd hp' List.not_mem_nil
    | hands c =>
      have hp' : w ∈ (s.pc c).current := hp
      rw [(Pc.idle_of_not_notifying (hquiet c)).2] at hp'
      exact absurd hp' List.not_mem_nil
  · intro a t w hstep hw hw'
    rcases step_cases hstep with ht | ⟨c, rfl, x, ws, hc, rfl⟩
    · obtain ⟨-, hwait, hown, hready, hrun, hown'⟩ := ht.resumes hsound hw hw'
      refine ⟨hwait, hrun, ⟨_, hown⟩, hown', ?_, ?_⟩
      · intro f hf
        simpa [State.ready, hf, Awaiter.ready] using hready
      · intro f hf
        simpa [State.ready, hf, Awaiter.ready] using hready
    · rcases eq_or_ne w c with rfl | hwc
      · simp [hc, Pc.Suspended] at hw
      · exact (hw' (by simpa [hwc] using hw)).elim

/-- A plain waiter and one with a predicate that does not hold are notified through an executor: the
task of the second one has evaluated it and released the mutex, the task of the first one has yet
to run. -/
def spawnedTrace : List (Action ℕ Unit Bool) :=
  [.begin 0, .lock 0 (), .wait 0 () .plain false, .advance 0, .advance 0, .begin 1, .lock 1 (),
    .wait 1 () (.withPredicate id) false, .advance 1, .advance 1, .begin 2, .notifyAllExecutor 2,
    .advance 2, .spawn 2 3, .spawn 2 4, .advance 2, .advance 3, .advance 3, .advance 3]

/-- After the run above both waiters are suspended, in the hands of one task each. -/
theorem waiters_conserved_spawned : ∃ s : State ℕ Unit Bool,
    (machine ℕ fun _ => false).runUnder SpawnsAccepted (start fun _ => false) spawnedTrace =
      some s ∧
    s.pc 2 = .running ∧ s.pc 3 = .requeue 1 [] ∧ s.pc 4 = .locking 0 [] ∧ s.mAwaiters = [] ∧
    (∃! p, 0 ∈ s.tokens p) ∧ ∃! p, 1 ∈ s.tokens p := by
  have hreach := Machine.reachableUnder_of_run (M := machine ℕ fun _ : Unit => false)
    (G := SpawnsAccepted) (l := spawnedTrace) rfl
  exact ⟨_, rfl, rfl, rfl, rfl, rfl, (waiters_conserved hreach).1.2.1 0 trivial,
    (waiters_conserved hreach).1.2.1 1 trivial⟩

/-- A coroutine waits, and `notify_all(executor)` detaches it for a task that the executor refuses.
Then somebody calls `notify_all`. -/
def refusedTrace : List (Action (Fin 2) Unit Unit) :=
  [.begin 0, .lock 0 (), .wait 0 () .plain false, .advance 0, .advance 0, .begin 1,
    .notifyAllExecutor 1, .advance 1, .refuse 1, .advance 1, .notifyAll 1, .advance 1, .advance 1]

/-- After the run above nobody is notifying any more, and the coroutine is still suspended without
being in `m_awaiters`, on a chain or in anybody's hands: no notification can reach it. -/
theorem waiter_lost : ∃ s : State (Fin 2) Unit Unit,
    (machine (Fin 2) fun _ => ()).run (start fun _ => ()) refusedTrace = some s ∧
    s.pc 0 = .waiting ∧ s.pc 1 = .running ∧ s.mAwaiters = [] ∧ ∀ p, 0 ∉ s.tokens p := by
  refine ⟨_, rfl, rfl, rfl, rfl, ?_⟩
  intro p
  cases p with
  | awaiters => exact List.not_mem_nil
  | chain c | hands c => fin_cases c <;> exact List.not_mem_nil

end Libcoro.Notification
