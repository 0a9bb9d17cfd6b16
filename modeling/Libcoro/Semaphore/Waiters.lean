import Libcoro.Foundations.Placement
import Libcoro.Semaphore.Transitions

/-!
# The mutex, the counter and the waiters of a semaphore

The mutex belongs to the call in its critical section, every suspended acquirer is on the list
of waiters or in the hands of one call, the counter stays between zero and the maximum, and it
is zero while somebody is on the list (`Sound`).
-/

namespace Libcoro.Semaphore

open Foundations Function

variable {κ : Type*}

/-- The calls that own `m_mutex`. -/
def Pc.InSection : Pc κ → Prop
  | .tryLoad k => k ≠ .user
  | .tryExchange k _ => k ≠ .user
  | .acquireShutdown _ => True
  | .acquirePush => True
  | .acquireSuspend => True
  | .acquireUnlock => True
  | .releaseValue => True
  | .releasePop => True
  | .releaseAdd => True
  | .releaseUnlock _ => True
  | .shutdownExchange => True
  | .shutdownPopAll => True
  | .shutdownUnlock _ => True
  | _ => False

/-- The acquirers that have pushed their operation and have not been resumed. -/
@[simp] def Pc.Parked : Pc κ → Prop
  | .acquireSuspend => True
  | .suspended => True
  | _ => False

/-- The waiter to which a `release` has handed its permit. -/
def Pc.toGrant : Pc κ → List κ
  | .releaseUnlock (some w) => [w]
  | .releaseResume w => [w]
  | _ => []

/-- The waiters that a `shutdown` has detached. -/
def Pc.toStop : Pc κ → List κ
  | .shutdownUnlock ws => ws
  | .shutdownResume ws => ws
  | _ => []

/-- The waiters that a call is going to resume. -/
def Pc.inHand (p : Pc κ) : List κ :=
  p.toGrant ++ p.toStop

/-- Whoever waits for its turn resumes nobody. -/
lemma Pc.Parked.inHand_eq {q : Pc κ} (h : q.Parked) : q.inHand = [] := by
  cases q with
  | acquireSuspend => rfl
  | suspended => rfl
  | _ => exact h.elim

/-- Whoever waits for its turn outside the critical section is suspended. -/
lemma Pc.Parked.eq_suspended {q : Pc κ} (h : q.Parked) (hout : ¬ q.InSection) :
    q = .suspended := by
  cases q with
  | acquireSuspend => exact (hout trivial).elim
  | suspended => rfl
  | _ => exact h.elim

/-- What a call knows about the counter `n` and the waiters `ws` of a semaphore. -/
@[simp] def Pc.Knows (max n : ℤ) (ws : List κ) : Pc κ → Prop
  | .tryExchange _ x => 0 < x
  | .acquirePush => n = 0
  | .releasePop => n < max
  | .releaseAdd => n < max ∧ ws = []
  | _ => True

/-- The mutex, the counter and the waiters agree with the calls in progress. -/
structure Sound (max : ℤ) (s : State κ) : Prop where
  owner : ∀ c, s.mMutex = some c ↔ (s.pc c).InSection
  parked : Foundations.Parked Pc.inHand Pc.Parked s.mAcquireWaiters s.pc
  held : ∀ c, ∀ w ∈ (s.pc c).inHand, s.pc w = .suspended
  bounds : 0 ≤ s.mCounter ∧ s.mCounter ≤ max
  exhausted : s.mAcquireWaiters ≠ [] → s.mCounter = 0
  knows : ∀ c, (s.pc c).Knows max s.mCounter s.mAcquireWaiters

/-! ## Moves of one call -/

section Moves

variable {max n n' : ℤ} {ws ws' : List κ} {s : State κ} {p q : Pc κ}

/-- A quiet move neither enters nor leaves a critical section. -/
lemma Quiet.inSection_iff (h : Quiet max s q p) : p.InSection ↔ q.InSection := by
  cases h with
  | @call f => cases f <;> simp [Pc.InSection]
  | @loadFail k _
  | @reloadFail k x _ => rcases k with _ | _ | _ <;> simp [Pc.InSection]
  | _ => simp [Pc.InSection]

/-- A quiet move concerns no waiter. -/
lemma Quiet.inHand_eq (h : Quiet max s q p) :
    p.toGrant = q.toGrant ∧ p.toStop = q.toStop ∧ (p.Parked ↔ q.Parked) := by
  cases h with
  | @call f => cases f <;> simp [Pc.toGrant, Pc.toStop]
  | @loadFail k _ | @reloadFail k x _ =>
    rcases k with _ | _ | _ <;> simp [Pc.toGrant, Pc.toStop]
  | _ => simp [Pc.toGrant, Pc.toStop]

/-- What the caller of a quiet move knows afterwards. -/
lemma Quiet.knows (h : Quiet max s q p) (hbounds : 0 ≤ s.mCounter ∧ s.mCounter ≤ max)
    (hq : q.Knows max s.mCounter s.mAcquireWaiters) :
    p.Knows max s.mCounter s.mAcquireWaiters := by
  have hfail : ∀ k : Caller, s.mCounter ≤ 0 →
      (k.failure : Pc κ).Knows max s.mCounter s.mAcquireWaiters := by
    intro k hle
    rcases k with _ | _ | _
    · trivial
    · trivial
    · change s.mCounter = 0
      omega
  cases h with
  | @call f => cases f <;> trivial
  | loadFail hle | reloadFail hle => exact hfail _ hle
  | load hpos | reload hpos => exact hpos
  | belowMax hne =>
    change s.mCounter < max
    omega
  | popNone hws => exact ⟨hq, hws⟩
  | _ => trivial

/-- Outside the critical sections nothing is known that a step could make false. -/
lemma Pc.Knows.of_not_inSection (h : p.Knows max n ws) (hp : ¬ p.InSection) :
    p.Knows max n' ws' := by
  cases p <;> simp_all [Pc.InSection]

/-- A permit taken away makes nothing false, since nobody pushes while there is one. -/
lemma Pc.Knows.take (h : p.Knows max n ws) (hpos : 0 < n) : p.Knows max (n - 1) ws := by
  cases p with
  | acquirePush =>
    change n = 0 at h
    omega
  | releasePop =>
    change n < max at h
    change n - 1 < max
    omega
  | releaseAdd =>
    obtain ⟨hlt, hws⟩ := h
    exact ⟨by omega, hws⟩
  | tryExchange k x => exact h
  | _ => trivial

/-- Taking the mutex is followed by what a call knows without looking. -/
lemma Locks.spec (h : Locks q p) :
    ¬ q.InSection ∧ p.InSection ∧ p.toGrant = q.toGrant ∧ p.toStop = q.toStop ∧
      (p.Parked ↔ q.Parked) ∧ ∀ max n ws, p.Knows max n ws := by
  cases h <;> simp [Pc.InSection, Pc.toGrant, Pc.toStop]

/-- Giving the mutex back concerns no waiter. -/
lemma Unlocks.spec (h : Unlocks q p) :
    q.InSection ∧ ¬ p.InSection ∧ p.toGrant = q.toGrant ∧ p.toStop = q.toStop ∧
      (p.Parked ↔ q.Parked) ∧ ∀ max n ws, p.Knows max n ws := by
  cases h <;> simp [Pc.InSection, Pc.toGrant, Pc.toStop]

end Moves

/-! ## The invariant -/

variable [DecidableEq κ] {max : ℤ} {s t : State κ} {c w : κ} {p : Pc κ}

@[simp] lemma State.goto_pc : (s.goto c p).pc = update s.pc c p := rfl

omit [DecidableEq κ] in
/-- Only one call is in its critical section. -/
lemma Sound.not_inSection (h : Sound max s) (hc : (s.pc c).InSection) {d : κ} (hd : d ≠ c) :
    ¬ (s.pc d).InSection := by
  intro hin
  have hown := (h.owner d).mpr hin
  rw [(h.owner c).mpr hc] at hown
  exact hd (Option.some.inj hown).symm

/-- The owner of the mutex after a move of `c` that stays inside, or outside, its section. -/
lemma owner_update (h : ∀ d, s.mMutex = some d ↔ (s.pc d).InSection)
    (hp : p.InSection ↔ (s.pc c).InSection) :
    ∀ d, s.mMutex = some d ↔ (update s.pc c p d).InSection := by
  intro d
  rw [h d]
  rcases eq_or_ne d c with rfl | hd
  · simp [hp]
  · simp [hd]

/-- The waiters in hand after a move of `c`, which is not itself suspended. -/
lemma held_update (h : ∀ d, ∀ w ∈ (s.pc d).inHand, s.pc w = .suspended)
    (hc : s.pc c ≠ .suspended) (hp : ∀ w ∈ p.inHand, s.pc w = .suspended) :
    ∀ d, ∀ w ∈ (update s.pc c p d).inHand, update s.pc c p w = .suspended := by
  have hkeep : ∀ w, s.pc w = .suspended → update s.pc c p w = .suspended := by
    intro w hw
    have hwc : w ≠ c := by
      rintro rfl
      exact hc hw
    simpa [hwc] using hw
  intro d w hw
  rcases eq_or_ne d c with rfl | hd
  · exact hkeep w (hp w (by simpa using hw))
  · exact hkeep w (h d w (by simpa [hd] using hw))

/-- What the calls know after a move of `c` that leaves the counter and the waiters alone. -/
lemma knows_update {n : ℤ} {ws : List κ} (h : ∀ d, (s.pc d).Knows max n ws)
    (hp : p.Knows max n ws) : ∀ d, (update s.pc c p d).Knows max n ws :=
  (forall_update_iff s.pc fun _ q => q.Knows max n ws).mpr ⟨hp, fun d _ => h d⟩

/-- What the calls know after a move of `c` in its critical section. -/
lemma Sound.knows_update {n : ℤ} {ws : List κ} (h : Sound max s) (hc : (s.pc c).InSection)
    (hp : p.Knows max n ws) : ∀ d, (update s.pc c p d).Knows max n ws := by
  refine (forall_update_iff s.pc fun _ q => q.Knows max n ws).mpr ⟨hp, ?_⟩
  intro d hd
  exact (h.knows d).of_not_inSection (h.not_inSection hc hd)

/-- The waiters after a move of `c` that does not concern them. -/
lemma Sound.waiters_update (h : Sound max s) (hgrant : p.toGrant = (s.pc c).toGrant)
    (hstop : p.toStop = (s.pc c).toStop) (hparked : p.Parked ↔ (s.pc c).Parked)
    (hsusp : s.pc c ≠ .suspended) :
    Foundations.Parked Pc.inHand Pc.Parked s.mAcquireWaiters (update s.pc c p) ∧
      ∀ d, ∀ w ∈ (update s.pc c p d).inHand,
        update s.pc c p w = .suspended := by
  have hhand : p.inHand = (s.pc c).inHand := by rw [Pc.inHand, hgrant, hstop, Pc.inHand]
  constructor
  · apply Parked.congr h.parked
    exact (forall_update_iff s.pc fun d q =>
      q.inHand = (s.pc d).inHand ∧ (q.Parked ↔ (s.pc d).Parked)).mpr
        ⟨⟨hhand, hparked⟩, fun _ _ => ⟨rfl, Iff.rfl⟩⟩
  · refine held_update h.held hsusp ?_
    rw [hhand]
    exact h.held c

omit [DecidableEq κ] in
/-- Whoever is on the list is suspended, once its own critical section is over. -/
lemma Sound.suspended_of_mem (h : Sound max s) (hc : (s.pc c).InSection)
    (hcp : ¬ (s.pc c).Parked) (hw : w ∈ s.mAcquireWaiters) : s.pc w = .suspended := by
  have hparked := h.parked.of_mem_list hw
  have hwc : w ≠ c := by
    rintro rfl
    exact hcp hparked
  exact hparked.eq_suspended (h.not_inSection hc hwc)

omit [DecidableEq κ] in
/-- Whoever is in the hands of a call is suspended, which the call itself is not. -/
lemma Sound.suspended_of_mem_hand (h : Sound max s) (hw : w ∈ (s.pc c).inHand) :
    s.pc w = .suspended ∧ c ≠ w := by
  have hsusp := h.held c w hw
  refine ⟨hsusp, ?_⟩
  rintro rfl
  simp [hsusp, Pc.inHand, Pc.toGrant, Pc.toStop] at hw

/-- A move of `c` that changes nothing else. -/
lemma Sound.goto (h : Sound max s) (hsection : p.InSection ↔ (s.pc c).InSection)
    (hgrant : p.toGrant = (s.pc c).toGrant) (hstop : p.toStop = (s.pc c).toStop)
    (hparked : p.Parked ↔ (s.pc c).Parked) (hsusp : s.pc c ≠ .suspended)
    (hknows : p.Knows max s.mCounter s.mAcquireWaiters) : Sound max (s.goto c p) := by
  obtain ⟨hpark, hheld⟩ := h.waiters_update hgrant hstop hparked hsusp
  exact ⟨owner_update h.owner hsection, hpark, hheld, h.bounds, h.exhausted,
    Semaphore.knows_update h.knows hknows⟩

omit [DecidableEq κ] in
/-- Whoever makes a quiet move is not suspended. -/
lemma Quiet.ne_suspended {q : Pc κ} (h : Quiet max s q p) : q ≠ .suspended := by
  rintro rfl
  cases h

/-- `c` resumes the suspended `w`, which it has in hand. -/
lemma Sound.wake (h : Sound max s) (hc : ¬ (s.pc c).InSection) (hp : ¬ p.InSection)
    (hhand : (s.pc c).inHand = w :: p.inHand) (hparked : ¬ p.Parked)
    (hknows : p.Knows max s.mCounter s.mAcquireWaiters) :
    Sound max ((s.goto w .acquireResume).goto c p) := by
  have hmem : w ∈ (s.pc c).inHand := by
    rw [hhand]
    exact List.mem_cons_self
  obtain ⟨hw, hcw⟩ := h.suspended_of_mem_hand hmem
  have hne : (update s.pc w .acquireResume) c = s.pc c := by simp [hcw]
  refine ⟨?_, ?_, ?_, h.bounds, h.exhausted, ?_⟩
  · have hfirst := owner_update (c := w) (p := .acquireResume) h.owner
      (by simp [hw, Pc.InSection])
    refine owner_update (s := s.goto w .acquireResume) hfirst ?_
    rw [State.goto_pc, hne]
    exact iff_of_false hp hc
  · exact Parked.wake h.parked (fun _ hq => hq.inHand_eq) (by rw [hhand]) hparked id rfl
  · -- nobody else has `w` in hand, so everybody in hand is still suspended
    intro d x hx
    have hkeep : ∀ e, x ∈ (s.pc e).inHand → x ≠ w →
        (update (update s.pc w .acquireResume) c p) x = .suspended := by
      intro e hxe hxw
      have hsusp := h.held e x hxe
      have hxc : x ≠ c := by
        rintro rfl
        rw [hsusp] at hmem
        simp [Pc.inHand, Pc.toGrant, Pc.toStop] at hmem
      simpa [hxw, hxc] using hsusp
    have hnodup : (w :: p.inHand).Nodup := by
      rw [← hhand]
      exact Placed.nodup h.parked (some c)
    rcases eq_or_ne d c with rfl | hd
    · have hx' : x ∈ p.inHand := by simpa using hx
      refine hkeep d ?_ ?_
      · rw [hhand]
        exact List.mem_cons_of_mem w hx'
      · rintro rfl
        exact (List.nodup_cons.mp hnodup).1 hx'
    · rcases eq_or_ne d w with rfl | hdw
      · simp [hcw.symm, Pc.inHand, Pc.toGrant, Pc.toStop] at hx
      · have hx' : x ∈ (s.pc d).inHand := by simpa [hd, hdw] using hx
        refine hkeep d hx' ?_
        rintro rfl
        have hplace := Placed.unique h.parked (some d) (some c) x hx' hmem
        exact hd (Option.some.inj hplace)
  · exact Semaphore.knows_update (s := s.goto w .acquireResume)
      (Semaphore.knows_update h.knows trivial) hknows

/-- Every transition keeps the mutex, the counter and the waiters in agreement. -/
lemma Sound.transition (h : Sound max s) (ht : Transition max s c t) : Sound max t := by
  obtain ⟨hnonneg, hle⟩ := h.bounds
  cases ht with
  | quiet hq =>
    obtain ⟨hgrant, hstop, hparked⟩ := hq.inHand_eq
    exact h.goto hq.inSection_iff hgrant hstop hparked hq.ne_suspended
      (hq.knows h.bounds (h.knows c))
  | lock hlock hfree =>
    obtain ⟨hout, hin, hgrant, hstop, hparked, hknows⟩ := hlock.spec
    have hsusp : s.pc c ≠ .suspended := by
      intro hsusp
      rw [hsusp] at hlock
      cases hlock
    obtain ⟨hpark, hheld⟩ := h.waiters_update hgrant hstop hparked hsusp
    refine ⟨?_, hpark, hheld, h.bounds, h.exhausted,
      Semaphore.knows_update h.knows (hknows _ _ _)⟩
    intro d
    rcases eq_or_ne d c with rfl | hd
    · simp [hin]
    · have hnot : ¬ (s.pc d).InSection := by
        intro hin'
        have hown := (h.owner d).mpr hin'
        simp [hfree] at hown
      simp [hd, hnot, hd.symm]
  | unlock hunlock =>
    obtain ⟨hin, hout, hgrant, hstop, hparked, hknows⟩ := hunlock.spec
    have hsusp : s.pc c ≠ .suspended := by
      intro hsusp
      rw [hsusp] at hin
      exact hin
    obtain ⟨hpark, hheld⟩ := h.waiters_update hgrant hstop hparked hsusp
    refine ⟨?_, hpark, hheld, h.bounds, h.exhausted,
      Semaphore.knows_update h.knows (hknows _ _ _)⟩
    intro d
    rcases eq_or_ne d c with rfl | hd
    · simp [State.unlock, hout]
    · simp [State.unlock, hd, h.not_inSection hin hd]
  | @take k hc =>
    have hpos : 0 < s.mCounter := by simpa [hc] using h.knows c
    have hgoto : Sound max (s.goto c k.success) := by
      apply h.goto
      all_goals rcases k with _ | _ <;>
        simp [hc, Pc.InSection, Pc.toGrant, Pc.toStop]
    have hbounds : 0 ≤ s.mCounter - 1 ∧ s.mCounter - 1 ≤ max := ⟨by omega, by omega⟩
    refine ⟨hgoto.owner, hgoto.parked, hgoto.held, hbounds, ?_, fun d => (hgoto.knows d).take hpos⟩
    intro hws
    have hzero := h.exhausted hws
    omega
  | push hc =>
    have hin : (s.pc c).InSection := by simp [hc, Pc.InSection]
    have hzero : s.mCounter = 0 := by simpa [hc] using h.knows c
    refine ⟨owner_update h.owner (by simp [hc, Pc.InSection]), ?_, ?_, h.bounds, fun _ => hzero,
      h.knows_update hin trivial⟩
    · exact Parked.park h.parked (by simp [hc]) trivial
        (by simp [hc, Pc.inHand, Pc.toGrant, Pc.toStop])
    · exact held_update h.held (by simp [hc]) (by simp [Pc.inHand, Pc.toGrant, Pc.toStop])
  | drop hc _ =>
    have hgoto : Sound max (s.goto c (.releaseUnlock none)) := by
      apply h.goto
      all_goals simp [hc, Pc.InSection, Pc.toGrant, Pc.toStop]
    exact { hgoto with }
  | @handOff w ws hc hws =>
    have hin : (s.pc c).InSection := by simp [hc, Pc.InSection]
    have hw := h.suspended_of_mem hin (by simp [hc]) (w := w) (by simp [hws])
    refine ⟨owner_update h.owner (by simp [hc, Pc.InSection]), ?_, ?_, h.bounds, ?_,
      h.knows_update hin trivial⟩
    · refine Parked.exchange h.parked ?_ (by simp [hc])
      rw [hc, hws]
      simp [Pc.inHand, Pc.toGrant, Pc.toStop]
    · refine held_update h.held (by simp [hc]) ?_
      intro x hx
      obtain rfl : x = w := by simpa [Pc.inHand, Pc.toGrant, Pc.toStop] using hx
      exact hw
    · intro _
      exact h.exhausted (by simp [hws])
  | add hc =>
    have hin : (s.pc c).InSection := by simp [hc, Pc.InSection]
    obtain ⟨hlt, hnil⟩ : s.mCounter < max ∧ s.mAcquireWaiters = [] := by
      simpa [hc] using h.knows c
    have hbounds : 0 ≤ s.mCounter + 1 ∧ s.mCounter + 1 ≤ max := ⟨by omega, by omega⟩
    obtain ⟨hpark, hheld⟩ := h.waiters_update (c := c) (p := .releaseUnlock none)
      (by simp [hc, Pc.toGrant]) (by simp [hc, Pc.toStop]) (by simp [hc]) (by simp [hc])
    exact ⟨owner_update h.owner (by simp [hc, Pc.InSection]), hpark, hheld, hbounds,
      fun hne => (hne hnil).elim, h.knows_update hin trivial⟩
  | resumeOne hc | resumeNext hc =>
    apply h.wake
    all_goals simp [hc, Pc.InSection, Pc.inHand, Pc.toGrant, Pc.toStop]
  | stop hc _ =>
    have hgoto : Sound max (s.goto c .shutdownPopAll) := by
      apply h.goto
      all_goals simp [hc, Pc.InSection, Pc.toGrant, Pc.toStop]
    exact { hgoto with }
  | popAll hc =>
    have hin : (s.pc c).InSection := by simp [hc, Pc.InSection]
    refine ⟨owner_update h.owner (by simp [hc, Pc.InSection]), ?_, ?_, h.bounds,
      fun hne => (hne rfl).elim, h.knows_update hin trivial⟩
    · refine Parked.exchange h.parked ?_ (by simp [hc])
      rw [hc]
      simp [Pc.inHand, Pc.toGrant, Pc.toStop]
    · refine held_update h.held (by simp [hc]) ?_
      intro x hx
      have hmem : x ∈ s.mAcquireWaiters := by simpa [Pc.inHand, Pc.toGrant, Pc.toStop] using hx
      exact h.suspended_of_mem hin (by simp [hc]) hmem

/-- The invariant holds in every reachable state. -/
lemma sound_of_reachable {startingValue : ℤ} (h0 : 0 ≤ startingValue) (hmax : startingValue ≤ max)
    (h : (machine κ max startingValue).Reachable s) : Sound max s := by
  refine h.invariant ⟨?_, Parked.nil rfl id, ?_, ⟨h0, hmax⟩, ?_, ?_⟩ ?_
  · simp [machine, start, Pc.InSection]
  · simp [machine, start, Pc.inHand, Pc.toGrant, Pc.toStop]
  · simp [machine, start]
  · simp [machine, start]
  · intro s a t _ hs hstep
    exact hs.transition (step_transition hstep)

end Libcoro.Semaphore
