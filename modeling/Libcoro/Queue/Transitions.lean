import Libcoro.Foundations.Placement
import Libcoro.Queue.Model

/-!
# The transitions of a queue

`Transition s c t` lists what one step of the call `c` can do; the steps that move nothing but the
control point of `c` are collected in `Quiet`.  The first invariant says where the waiters are and
that a queue has waiters or elements, but not both (`Sound`).
-/

namespace Libcoro.Queue

open Foundations Function

variable {κ α : Type*}

/-- The steps that only move the control point, from the first argument to the second. -/
inductive Quiet (s : State κ α) : Pc κ α → Pc κ α → Prop
  | pushStopped {e : α} : s.mRunningState ≠ .running → Quiet s (.push e) (.pushReturned .stopped)
  | tryPopStopped : s.mRunningState = .stopped →
      Quiet s .tryPop (.tryPopReturned (.unexpected .stopped))
  | tryPopEmpty : Quiet s .tryPop (.tryPopReturned (.unexpected .empty))
  | tryPopLocked : Quiet s .tryPop (.tryPopReturned (.unexpected .tryLockFailure))
  | shutdownStopped : s.mRunningState = .stopped → Quiet s .shutdownLoad .shutdownReturned
  | shutdownLoaded : s.mRunningState ≠ .stopped →
      Quiet s .shutdownLoad (.shutdownLock s.mRunningState)
  | shutdownLost {expected : RunningState} : s.mRunningState ≠ expected →
      Quiet s (.shutdownLock expected) .shutdownReturned
  | shutdownDone : Quiet s (.shutdownResume []) .shutdownReturned
  | drainRefused : Quiet s .drainLock .drainReturned
  | drainedEmpty : s.mElements = [] → Quiet s .drainEmpty .shutdownLoad
  | drainPending : Quiet s .drainEmpty .drainState
  | drainYielded : Quiet s .drainState .drainEmpty
  | drainLeft : s.mRunningState ≠ .draining → Quiet s .drainState .shutdownLoad

variable [DecidableEq κ]

@[simp] lemma State.goto_pc (s : State κ α) (c : κ) (p : Pc κ α) :
    (s.goto c p).pc = update s.pc c p := rfl

/-- What one step of the call `c` can do. -/
inductive Transition (s : State κ α) (c : κ) : State κ α → Prop
  | quiet {p : Pc κ α} : Quiet s (s.pc c) p → Transition s c (s.goto c p)
  | call {f : Call α} : s.pc c = .idle →
      Transition s c { s.goto c f.entry with called := update s.called c (some f) }
  | enqueue {e : α} : s.pc c = .push e → s.mRunningState = .running → s.mWaiters = [] →
      Transition s c
        { (s.accept c e).goto c (.pushReturned .produced) with mElements := s.mElements ++ [e] }
  | handOff {e : α} {w : κ} {ws : List κ} : s.pc c = .push e → s.mRunningState = .running →
      s.mWaiters = w :: ws →
      Transition s c { ((s.accept c e).deliver w e).goto c (.handOff e w) with mWaiters := ws }
  | transfer {e : α} {w : κ} : s.pc c = .handOff e w →
      Transition s c
        (((s.setElement w (some e)).goto w .popResume).goto c (.pushReturned .produced))
  | popStopped : s.pc c = .pop → s.mRunningState = .stopped →
      Transition s c ((s.setElement c none).goto c .popResume)
  | popElement {e : α} {es : List α} : s.pc c = .pop → s.mRunningState ≠ .stopped →
      s.mElements = e :: es →
      Transition s c
        { ((s.setElement c (some e)).deliver c e).goto c .popResume with mElements := es }
  | popBlock : s.pc c = .pop → s.mRunningState ≠ .stopped → s.mElements = [] →
      Transition s c
        { (s.setElement c none).goto c .popSuspended with mWaiters := c :: s.mWaiters }
  | popReturn : s.pc c = .popResume →
      Transition s c (s.goto c (.popReturned (awaitResume (s.mElement c))))
  | tryPopElement {e : α} {es : List α} : s.pc c = .tryPop → s.mRunningState ≠ .stopped →
      s.mElements = e :: es →
      Transition s c { (s.deliver c e).goto c (.tryPopReturned (.value e)) with mElements := es }
  | stop {expected : RunningState} : s.pc c = .shutdownLock expected →
      s.mRunningState = expected →
      Transition s c
        { s.goto c (.shutdownResume s.mWaiters) with mRunningState := .stopped, mWaiters := [] }
  | wake {w : κ} {ws : List κ} : s.pc c = .shutdownResume (w :: ws) →
      Transition s c ((s.goto w .popResume).goto c (.shutdownResume ws))
  | drain : s.pc c = .drainLock → s.mRunningState = .running →
      Transition s c { s.goto c .drainEmpty with mRunningState := .draining }

variable {s t : State κ α} {c w : κ} {p : Pc κ α}

/-- The critical section of `push`. -/
lemma push_transition {e : α} (hc : s.pc c = .push e) : Transition s c (push s c e) := by
  unfold push
  split_ifs with hrun
  · exact .quiet (hc ▸ .pushStopped hrun)
  · split
    · exact .handOff hc (not_not.mp hrun) ‹_›
    · exact .enqueue hc (not_not.mp hrun) ‹_›

/-- The critical section of `pop`. -/
lemma pop_transition (hc : s.pc c = .pop) : Transition s c (pop s c) := by
  unfold pop
  split_ifs with hstop
  · exact .popStopped hc hstop
  · split
    · exact .popElement hc hstop ‹_›
    · exact .popBlock hc hstop ‹_›

/-- The critical section of `try_pop`. -/
lemma tryPop_transition (hc : s.pc c = .tryPop) : Transition s c (tryPop s c) := by
  unfold tryPop
  split_ifs with hstop
  · exact .quiet (hc ▸ .tryPopStopped hstop)
  · split
    · exact .tryPopElement hc hstop ‹_›
    · exact .quiet (hc ▸ .tryPopEmpty)

/-- A load or test that branches between two quiet steps. -/
lemma transition_of_branch {q p p' : Pc κ α} {b : Prop} [Decidable b] (hc : s.pc c = q)
    (hp : b → Quiet s q p) (hp' : ¬ b → Quiet s q p')
    (h : (if b then some (s.goto c p) else some (s.goto c p')) = some t) : Transition s c t := by
  split_ifs at h with hb
  · cases h
    exact .quiet (hc ▸ hp hb)
  · cases h
    exact .quiet (hc ▸ hp' hb)

/-- Every step of a call in progress is one of the listed transitions. -/
lemma advance_transition (h : advance s c = some t) : Transition s c t := by
  unfold advance at h
  split at h <;> rename_i hc
  · cases h
    exact push_transition hc
  · cases h
    exact .transfer hc
  · cases h
    exact pop_transition hc
  · cases h
    exact .popReturn hc
  · cases h
    exact tryPop_transition hc
  · exact transition_of_branch hc .shutdownStopped .shutdownLoaded h
  · split_ifs at h with hexp
    · cases h
      exact .stop hc hexp
    · cases h
      exact .quiet (hc ▸ .shutdownLost hexp)
  · cases h
    exact .quiet (hc ▸ .shutdownDone)
  · cases h
    exact .wake hc
  · split_ifs at h with hrun
    · cases h
      exact .drain hc hrun
    · cases h
      exact .quiet (hc ▸ .drainRefused)
  · exact transition_of_branch hc .drainedEmpty (fun _ => .drainPending) h
  · exact transition_of_branch hc (fun _ => .drainYielded) .drainLeft h
  all_goals simp at h

/-- Whose step a label is. -/
def Action.actor : Action κ α → κ
  | .call c _ => c
  | .advance c => c
  | .tryLockFails c => c

/-- Every step of the system is one of the listed transitions. -/
lemma step_transition {a : Action κ α} (h : step s a = some t) : Transition s a.actor t := by
  cases a with
  | call c f =>
    simp only [step] at h
    split at h
    · cases h
      exact .call ‹_›
    · simp at h
  | advance c => exact advance_transition h
  | tryLockFails c =>
    simp only [step] at h
    split at h <;> rename_i hc
    · cases h
      exact .quiet (hc ▸ .tryPopLocked)
    · simp at h

/-! ## Waiters and elements -/

/-- The waiter to which a `push` has assigned its element, or those that `shutdown` has detached. -/
def Pc.inHand : Pc κ α → List κ
  | .handOff _ w => [w]
  | .shutdownResume ws => ws
  | _ => []

/-- The `pop` calls that have pushed their awaiter and have not been resumed. -/
@[simp] def Pc.Suspended : Pc κ α → Prop
  | .popSuspended => True
  | _ => False

/-- Every suspended `pop` is on the list or in the hands of one call; the list is empty while there
are elements, and once the queue is stopped; whoever resumes detached waiters has stopped it. -/
structure Sound (s : State κ α) : Prop where
  parked : Parked Pc.inHand Pc.Suspended s.mWaiters s.pc
  exclusive : s.mWaiters = [] ∨ s.mElements = []
  stopped : s.mRunningState = .stopped → s.mWaiters = []
  stopping : ∀ c ws, s.pc c = .shutdownResume ws → s.mRunningState = .stopped

omit [DecidableEq κ] in
/-- A suspended call. -/
lemma Pc.Suspended.eq {q : Pc κ α} (h : q.Suspended) : q = .popSuspended := by
  cases q <;> first | rfl | exact h.elim

omit [DecidableEq κ] in
/-- A quiet step concerns no waiter. -/
lemma Quiet.inHand_eq {q : Pc κ α} (h : Quiet s q p) :
    p.inHand = q.inHand ∧ (p.Suspended ↔ q.Suspended) ∧ ∀ ws, p ≠ .shutdownResume ws := by
  cases h <;> simp [Pc.inHand]

namespace Sound

omit [DecidableEq κ] in
/-- Whoever is in the hands of a call is suspended, which the call itself is not. -/
lemma suspended_of_mem_hand (h : Sound s) (hw : w ∈ (s.pc c).inHand) :
    s.pc w = .popSuspended ∧ c ≠ w := by
  have hsusp := (h.parked.of_mem_hand hw).eq
  refine ⟨hsusp, ?_⟩
  rintro rfl
  simp [hsusp, Pc.inHand] at hw

omit [DecidableEq κ] in
/-- Whoever is on the list is suspended. -/
lemma suspended_of_mem (h : Sound s) (hw : w ∈ s.mWaiters) : s.pc w = .popSuspended :=
  (h.parked.of_mem_list hw).eq

/-- The waiters after a move of `c` that does not concern them. -/
lemma parked_update (h : Sound s) (hhand : p.inHand = (s.pc c).inHand)
    (hsusp : p.Suspended ↔ (s.pc c).Suspended) :
    Parked Pc.inHand Pc.Suspended s.mWaiters (update s.pc c p) := by
  apply Parked.congr h.parked
  exact (forall_update_iff s.pc fun d q =>
    q.inHand = (s.pc d).inHand ∧ (q.Suspended ↔ (s.pc d).Suspended)).mpr
      ⟨⟨hhand, hsusp⟩, fun _ _ => ⟨rfl, Iff.rfl⟩⟩

/-- The calls that resume detached waiters after a move of `c`. -/
lemma stopping_update (h : Sound s)
    (hp : ∀ ws, p = .shutdownResume ws → s.mRunningState = .stopped) :
    ∀ d ws, update s.pc c p d = .shutdownResume ws → s.mRunningState = .stopped :=
  (forall_update_iff s.pc fun _ q =>
    ∀ ws, q = .shutdownResume ws → s.mRunningState = .stopped).mpr ⟨hp, fun d _ => h.stopping d⟩

/-- A move of `c` that concerns no waiter and no element. -/
lemma goto (h : Sound s) (hhand : p.inHand = (s.pc c).inHand)
    (hsusp : p.Suspended ↔ (s.pc c).Suspended) (hp : ∀ ws, p ≠ .shutdownResume ws) :
    Sound (s.goto c p) :=
  ⟨h.parked_update hhand hsusp, h.exclusive, h.stopped,
    h.stopping_update fun ws hws => (hp ws hws).elim⟩

/-- `c` resumes `w`, which it has in hand. -/
lemma wake (h : Sound s) (hhand : (s.pc c).inHand = w :: p.inHand) (hp : ¬ p.Suspended)
    (hstop : ∀ ws, p = .shutdownResume ws → s.mRunningState = .stopped) :
    Sound ((s.goto w .popResume).goto c p) := by
  have hwaits : ∀ q : Pc κ α, q.Suspended → q.inHand = [] := by
    intro q hq
    rw [hq.eq]
    rfl
  have hfirst := h.stopping_update (c := w) (p := .popResume) (by simp)
  refine ⟨Parked.wake h.parked hwaits (by rw [hhand]) hp id rfl, h.exclusive, h.stopped, ?_⟩
  exact (forall_update_iff _ fun _ q =>
    ∀ ws, q = Pc.shutdownResume ws → s.mRunningState = .stopped).mpr ⟨hstop, fun d _ => hfirst d⟩

/-- Every transition keeps the waiters where they are accounted for. -/
lemma transition (h : Sound s) (ht : Transition s c t) : Sound t := by
  cases ht with
  | quiet hq =>
    obtain ⟨hhand, hsusp, hp⟩ := hq.inHand_eq
    exact h.goto hhand hsusp hp
  | @call f hc =>
    have hgoto : Sound (s.goto c f.entry) := by
      apply h.goto
      all_goals cases f <;> simp [hc, Pc.inHand]
    exact { hgoto with }
  | @enqueue e hc _ hnil =>
    have hgoto : Sound (s.goto c (.pushReturned .produced)) := by
      apply h.goto
      all_goals simp [hc, Pc.inHand]
    exact ⟨hgoto.1, Or.inl hnil, hgoto.3, hgoto.4⟩
  | @handOff e w ws hc hrun hws =>
    refine ⟨?_, Or.inr ?_, ?_, h.stopping_update (by simp)⟩
    · refine Parked.exchange h.parked ?_ (by simp [hc])
      rw [hc, hws]
      simp [Pc.inHand]
    · exact h.exclusive.resolve_left (by simp [hws])
    · intro hstop
      have hstop' : s.mRunningState = .stopped := hstop
      simp [hrun] at hstop'
  | @transfer e w hc =>
    exact { h.wake (w := w) (c := c) (p := .pushReturned .produced)
      (by simp [hc, Pc.inHand]) id (by simp) with }
  | popStopped hc _ =>
    have hgoto : Sound (s.goto c .popResume) := by
      apply h.goto
      all_goals simp [hc, Pc.inHand]
    exact { hgoto with }
  | popElement hc _ hes =>
    have hgoto : Sound (s.goto c .popResume) := by
      apply h.goto
      all_goals simp [hc, Pc.inHand]
    exact ⟨hgoto.1, Or.inl (h.exclusive.resolve_right (by simp [hes])), hgoto.3, hgoto.4⟩
  | popBlock hc hne hnil =>
    refine ⟨?_, Or.inr hnil, fun hstop => (hne hstop).elim, h.stopping_update (by simp)⟩
    exact Parked.park h.parked (by simp [hc]) trivial (by simp [hc, Pc.inHand])
  | popReturn hc =>
    apply h.goto
    all_goals simp [hc, Pc.inHand]
  | @tryPopElement e es hc _ hes =>
    have hgoto := h.goto (c := c) (p := .tryPopReturned (.value e))
      (by simp [hc, Pc.inHand]) (by simp [hc]) (by simp)
    exact ⟨hgoto.1, Or.inl (h.exclusive.resolve_right (by simp [hes])), hgoto.3, hgoto.4⟩
  | stop hc _ =>
    refine ⟨?_, Or.inl rfl, fun _ => rfl, fun _ _ _ => rfl⟩
    refine Parked.exchange h.parked ?_ (by simp [hc])
    rw [hc]
    simp [Pc.inHand]
  | wake hc =>
    apply h.wake
    · simp [hc, Pc.inHand]
    · exact id
    · intro _ _
      exact h.stopping c _ hc
  | drain hc hrun =>
    have hgoto := h.goto (c := c) (p := .drainEmpty)
      (by simp [hc, Pc.inHand]) (by simp [hc]) (by simp)
    refine ⟨hgoto.1, hgoto.2, by simp, ?_⟩
    intro d ws hd
    have hstop : s.mRunningState = .stopped := hgoto.4 d ws hd
    simp [hrun] at hstop

end Sound

/-- The waiters are accounted for in every reachable state. -/
lemma sound_of_reachable (h : (machine κ α).Reachable s) : Sound s := by
  refine h.invariant ⟨Parked.nil rfl id, Or.inl rfl, fun _ => rfl, ?_⟩ ?_
  · simp [machine, start]
  · intro s a t _ hs hstep
    exact hs.transition (step_transition hstep)

end Libcoro.Queue
