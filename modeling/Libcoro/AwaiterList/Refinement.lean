import Libcoro.AwaiterList.Model
import Libcoro.Foundations.LinkedStack
import Libcoro.Notification.Conservation

/-!
# The list in memory implements the list of awaiters

`Refines s t` relates a state of `Libcoro.AwaiterList.Model`, where the awaiters are linked through
their `m_next` fields, to a state of `Libcoro.Notification.Model`, where they form a list.  A step
of the former is answered by one step of the latter or by none (`refines_step`), as long as no
exchange of `awaiter_list_pop` installs an `m_next` that is out of date (`PopsFresh`).

A push in progress writes `m_next` of its node.  That this disturbs nobody is where the invariant
of the notifications is needed: the node is on no list and in nobody else's hands
(`Pushes.apart`).
-/

namespace Libcoro.AwaiterList

open Foundations ConditionVariable

variable {ι μ δ : Type*}

/-! ## The abstraction relation -/

/-- What a push in progress stands for. -/
inductive Pushes (next : ι → Option ι) : Pusher ι → Notification.Pc ι → Prop
  | wait : Pushes next .wait .waitPush
  | requeue {w : ι} {rest : Option ι} {ws : List ι} : Linked next rest ws →
      Pushes next (.requeue w rest) (.requeue w ws)

/-- What a `pop_all` in progress stands for. -/
def Detacher.popping : Detacher → Notification.Pc ι
  | .notifyAll => .notifyAll
  | .notifyAllExecutor => .notifyAllExecutor

/-- What a control point of `c` stands for, when the `m_next` fields are `next`. -/
inductive Abstracts (next : ι → Option ι) (c : ι) : Pc ι → Notification.Pc ι → Prop
  | unused : Abstracts next c .unused .unused
  | running : Abstracts next c .running .running
  | pushLoad {k : Pusher ι} {q : Notification.Pc ι} : Pushes next k q →
      Abstracts next c (.pushLoad k) q
  | pushLink {k : Pusher ι} {p : Option ι} {q : Notification.Pc ι} : Pushes next k q →
      Abstracts next c (.pushLink k p) q
  | pushExchange {k : Pusher ι} {p : Option ι} {q : Notification.Pc ι} : Pushes next k q →
      next (k.node c) = p → Abstracts next c (.pushExchange k p) q
  | waitUnlock : Abstracts next c .waitUnlock .waitUnlock
  | waiting : Abstracts next c .waiting .waiting
  | popLoad : Abstracts next c .popLoad .notifyOne
  | popNext {w : ι} : Abstracts next c (.popNext w) .notifyOne
  | popExchange {w : ι} {p : Option ι} : Abstracts next c (.popExchange w p) .notifyOne
  | popAllLoad {k : Detacher} : Abstracts next c (.popAllLoad k) k.popping
  | popAllExchange {k : Detacher} {h : ι} : Abstracts next c (.popAllExchange k h) k.popping
  | notifying {p : Option ι} {ws : List ι} : Linked next p ws →
      Abstracts next c (.notifying p) (.notifying ws)
  | spawning {p : Option ι} {ws : List ι} : Linked next p ws →
      Abstracts next c (.spawning p) (.spawning ws)
  | spawnTask {w : ι} {p : Option ι} {ws : List ι} : Linked next p ws →
      Abstracts next c (.spawnTask w p) (.spawning (w :: ws))
  | locking {w : ι} {p : Option ι} {ws : List ι} : Linked next p ws →
      Abstracts next c (.locking w p) (.locking w ws)
  | evaluating {w : ι} {p : Option ι} {ws : List ι} : Linked next p ws →
      Abstracts next c (.evaluating w p) (.evaluating w ws)
  | notReady {w : ι} {p : Option ι} {ws : List ι} : Linked next p ws →
      Abstracts next c (.notReady w p) (.notReady w ws)

/-- How many resumptions a coroutine is waiting for. -/
def pending : Notification.Pc ι → ℕ
  | .waitPush | .waitUnlock | .waiting => 1
  | _ => 0

/-- The list in memory implements the list of awaiters and everything else is the same.  With that
every wait but the one in progress has been resumed once. -/
structure Refines (s : State ι μ δ) (t : Notification.State ι μ δ) : Prop where
  owner : t.owner = s.owner
  data : t.data = s.data
  list : Linked s.mNext s.mAwaiters t.mAwaiters
  mutex : t.mutex = s.mutex
  awaiter : t.awaiter = s.awaiter
  result : t.mPredicateResult = s.mPredicateResult
  stop : t.stopRequested = s.stopRequested
  pc : ∀ c, Abstracts s.mNext c (s.pc c) (t.pc c)
  count : ∀ c, s.resumptions c + pending (t.pc c) = s.waits c

/-! ## Writing `m_next` -/

section Link

variable [DecidableEq ι] {next : ι → Option ι} {c d x : ι} {k : Pusher ι} {p v : Option ι}
  {q : Notification.Pc ι}

/-- A push in progress does not depend on `m_next` of a node that its caller has not in hand. -/
lemma Pushes.update (h : Pushes next k q) (hx : ∀ w ws, q = .requeue w ws → x ∉ ws) :
    Pushes (Function.update next x v) k q := by
  cases h with
  | wait => exact .wait
  | requeue hl => exact .requeue (hl.update (hx _ _ rfl) v)

/-- A control point does not depend on `m_next` of a node that its coroutine has not in hand and
that is not its own. -/
lemma Abstracts.update {r : Pc ι} (h : Abstracts next d r q) (hx : x ∉ q.inHand)
    (hd : q = .waitPush → d ≠ x) : Abstracts (Function.update next x v) d r q := by
  have hpush : ∀ {k : Pusher ι}, Pushes next k q → Pushes (Function.update next x v) k q := by
    intro k hk
    apply hk.update
    rintro w ws rfl hmem
    exact hx (List.mem_cons_of_mem w hmem)
  have hkeep : ∀ {p : Option ι} {ws : List ι}, Linked next p ws → (∀ y ∈ ws, y ∈ q.inHand) →
      Linked (Function.update next x v) p ws := by
    intro p ws hl hws
    exact hl.update (fun hmem => hx (hws x hmem)) v
  cases h with
  | unused => exact .unused
  | running => exact .running
  | pushLoad hk => exact .pushLoad (hpush hk)
  | pushLink hk => exact .pushLink (hpush hk)
  | @pushExchange k p _ hk hnext =>
    refine .pushExchange (hpush hk) ?_
    have hne : k.node d ≠ x := by
      cases hk with
      | wait => exact hd rfl
      | requeue hl =>
        rintro rfl
        exact hx List.mem_cons_self
    rw [Function.update_of_ne hne]
    exact hnext
  | waitUnlock => exact .waitUnlock
  | waiting => exact .waiting
  | popLoad => exact .popLoad
  | popNext => exact .popNext
  | popExchange => exact .popExchange
  | popAllLoad => exact .popAllLoad
  | popAllExchange => exact .popAllExchange
  | notifying hl => exact .notifying (hkeep hl fun _ hy => hy)
  | spawning hl => exact .spawning (hkeep hl fun _ hy => hy)
  | spawnTask hl => exact .spawnTask (hkeep hl fun _ hy => List.mem_cons_of_mem _ hy)
  | locking hl => exact .locking (hkeep hl fun _ hy => List.mem_cons_of_mem _ hy)
  | evaluating hl => exact .evaluating (hkeep hl fun _ hy => List.mem_cons_of_mem _ hy)
  | notReady hl => exact .notReady (hkeep hl fun _ hy => List.mem_cons_of_mem _ hy)

omit [DecidableEq ι] in
/-- The node of a push in progress is on no list and in nobody else's hands. -/
lemma Pushes.apart {t : Notification.State ι μ δ} (hs : Notification.Sound t)
    (h : Pushes next k (t.pc c)) :
    k.node c ∉ t.mAwaiters ∧
    (∀ d, d ≠ c → k.node c ∉ (t.pc d).inHand ∧ (t.pc d = .waitPush → d ≠ k.node c)) ∧
    ∀ w ws, t.pc c = .requeue w ws → k.node c ∉ ws := by
  cases k with
  | wait =>
    have hc : t.pc c = .waitPush := by
      generalize t.pc c = q at h
      cases h
      rfl
    have hnot : ¬ (t.pc c).Suspended := by
      rw [hc]
      exact id
    refine ⟨?_, ?_, ?_⟩
    · intro hmem
      exact hnot (hs.parked.of_mem_list (List.mem_append_left _ hmem))
    · intro d hd
      refine ⟨fun hmem => hnot (hs.parked.of_mem_hand hmem), fun _ => hd⟩
    · intro w ws hq
      rw [hc] at hq
      cases hq
  | requeue w rest =>
    obtain ⟨ws, hc⟩ : ∃ ws, t.pc c = .requeue w ws := by
      generalize t.pc c = q at h
      cases h
      exact ⟨_, rfl⟩
    have hmem : w ∈ (t.pc c).inHand := by
      rw [hc]
      exact List.mem_cons_self
    have hsusp := (hs.suspended_of_mem_hand hmem).1
    have hnodup : (w :: ws).Nodup := by
      have := Placed.nodup hs.parked (some c)
      simpa [parkingPlaces, hc, Notification.Pc.inHand] using this
    refine ⟨?_, ?_, ?_⟩
    · intro hlist
      exact hs.parked.not_mem_hand (List.mem_append_left _ hlist) c hmem
    · intro d hd
      constructor
      · intro hmem'
        have hplace := Placed.unique hs.parked (some d) (some c) w hmem' hmem
        exact hd (Option.some.inj hplace)
      · rintro hpc rfl
        rw [hpc] at hsusp
        exact hsusp
    · intro w' ws' hq
      rw [hc] at hq
      obtain ⟨rfl, rfl⟩ := Notification.Pc.requeue.inj hq
      exact (List.nodup_cons.mp hnodup).1

end Link

variable {s s' : State ι μ δ} {t : Notification.State ι μ δ} {c w : ι} {p : Pc ι}
  {q : Notification.Pc ι}

namespace Refines

/-- The list is replaced. -/
lemma setList (h : Refines s t) {head : Option ι} {ws : List ι} (hl : Linked s.mNext head ws) :
    Refines { s with mAwaiters := head } { t with mAwaiters := ws } :=
  { h with list := hl }

/-- Both find the same. -/
lemma ready_eq (h : Refines s t) : t.ready w = s.ready w := by
  simp only [State.ready, Notification.State.ready, h.awaiter, h.data, h.mutex, h.stop]

/-- What was lost is not part of the state in memory. -/
lemma lose (h : Refines s t) (ws : List ι) : Refines s { t with lost := ws } :=
  { h with }

/-- Who runs user code does so on both sides. -/
lemma running (h : Refines s t) (hc : s.pc c = .running) : t.pc c = .running := by
  have hpc := h.pc c
  rw [hc] at hpc
  generalize t.pc c = q at hpc
  cases hpc
  rfl

/-- Who has not begun has not begun on both sides. -/
lemma unused (h : Refines s t) (hc : s.pc c = .unused) : t.pc c = .unused := by
  have hpc := h.pc c
  rw [hc] at hpc
  generalize t.pc c = q at hpc
  cases hpc
  rfl

variable [DecidableEq ι]

/-- Both move `c`, which neither begins nor ends a wait by that. -/
lemma goto (h : Refines s t) {r : Notification.Pc ι} (hc : t.pc c = r)
    (hp : Abstracts s.mNext c p q) (hq : pending q = pending r) :
    Refines (s.goto c p) (t.goto c q) := by
  subst hc
  refine { h with pc := fun d => ?_, count := fun d => ?_ }
  · rcases eq_or_ne d c with rfl | hd
    · simpa using hp
    · simpa [hd] using h.pc d
  · rcases eq_or_ne d c with rfl | hd
    · simpa [hq] using h.count d
    · simpa [hd] using h.count d

/-- Only the list in memory is worked on. -/
lemma stutter (h : Refines s t) (hp : Abstracts s.mNext c p (t.pc c)) : Refines (s.goto c p) t := by
  have hgoto := h.goto rfl hp rfl
  rwa [Notification.State.goto, Function.update_eq_self] at hgoto

/-- What was detached is not part of the state in memory. -/
lemma detach (h : Refines s t) (c : ι) (ws : List ι) : Refines s (t.detach c ws) :=
  { h with }

/-- What was dealt with is not part of the state in memory. -/
lemma handle (h : Refines s t) (c w : ι) : Refines s (t.handle c w) :=
  { h with }

/-- Both evaluate `w`. -/
lemma evaluated (h : Refines s t) (w : ι) : Refines (s.evaluated w) (t.evaluated w) := by
  refine { h with result := ?_ }
  simp only [State.evaluated, Notification.State.evaluated, h.awaiter, h.data, h.mutex, h.result]

/-- Both resume `w`, which ends its wait. -/
lemma resume (h : Refines s t) (hw : t.pc w = .waiting) :
    Refines (s.resume w) (t.goto w .running) := by
  refine { h with pc := fun d => ?_, count := fun d => ?_ }
  · rcases eq_or_ne d w with rfl | hd
    · simpa using Abstracts.running
    · simpa [hd] using h.pc d
  · have hcount := h.count d
    rcases eq_or_ne d w with rfl | hd
    · rw [hw] at hcount
      simpa [pending] using hcount
    · simpa [hd] using hcount

/-- A stop is requested. -/
lemma requestStop (h : Refines s t) (c : ι) :
    Refines { s with stopRequested := Function.update s.stopRequested c true }
      { t with stopRequested := Function.update t.stopRequested c true } := by
  refine { h with stop := ?_ }
  simp only [h.stop]

/-- A wait begins, or finds its predicate true. -/
lemma wait (h : Refines s t) (hc : t.pc c = .running) (m : μ) (a : Awaiter δ) (stop : Bool) :
    Refines (wait s c m a stop) (Notification.wait t c m a stop) := by
  refine ⟨h.owner, h.data, h.list, ?_, ?_, ?_, ?_, ?_, ?_⟩
  · simp only [AwaiterList.wait, Notification.wait, h.mutex]
  · simp only [AwaiterList.wait, Notification.wait, h.awaiter]
  · simp only [AwaiterList.wait, Notification.wait, h.result, h.data]
  · simp only [AwaiterList.wait, Notification.wait, h.stop]
  · intro d
    rcases eq_or_ne d c with rfl | hd
    · simp only [AwaiterList.wait, Notification.wait, State.goto, Notification.State.goto,
        Function.update_self, h.data]
      split
      · exact .running
      · exact .pushLoad .wait
    · simpa [AwaiterList.wait, Notification.wait, hd]
        using h.pc d
  · intro d
    have hcount := h.count d
    rcases eq_or_ne d c with rfl | hd
    · rw [hc] at hcount
      simp only [AwaiterList.wait, Notification.wait, State.goto, Notification.State.goto,
        Function.update_self, h.data]
      split
      · exact hcount
      · exact congrArg (· + 1) hcount
    · simpa [AwaiterList.wait, Notification.wait, hd]
        using hcount

/-- A push in progress writes `m_next` of its node. -/
lemma link (h : Refines s t) (hs : Notification.Sound t) {k : Pusher ι} {v : Option ι}
    (hk : Pushes s.mNext k (t.pc c)) :
    Refines { s.goto c (.pushExchange k v) with mNext := Function.update s.mNext (k.node c) v }
      t := by
  obtain ⟨hlist, hother, hself⟩ := hk.apart hs
  refine { h with list := h.list.update hlist v, pc := fun d => ?_ }
  rcases eq_or_ne d c with rfl | hd
  · have hexchange : Abstracts (Function.update s.mNext (k.node d) v) d (.pushExchange k v)
        (t.pc d) := .pushExchange (hk.update hself) (Function.update_self _ _ _)
    simpa using hexchange
  · obtain ⟨hhand, hpush⟩ := hother d hd
    have hold := (h.pc d).update (v := v) hhand hpush
    simpa [hd] using hold

end Refines

/-- Both set the owner of a mutex. -/
lemma Refines.setOwner [DecidableEq μ] (h : Refines s t) (m : μ) (o : Option ι) :
    Refines (s.setOwner m o) (t.setOwner m o) := by
  refine { h with owner := ?_ }
  simp only [State.setOwner, Notification.State.setOwner, h.owner]

/-- Both write the data of a mutex. -/
lemma Refines.write [DecidableEq μ] (h : Refines s t) (m : μ) (d : δ) :
    Refines { s with data := Function.update s.data m d }
      { t with data := Function.update t.data m d } := by
  refine { h with data := ?_ }
  simp only [h.data]

/-! ## One step -/

/-- The next step of `c` is an exchange of `awaiter_list_pop` that succeeds, although `m_next` of
the awaiter has changed since it was read. -/
def State.stalePop [DecidableEq ι] (s : State ι μ δ) (c : ι) : Bool :=
  match s.pc c with
  | .popExchange w next => decide (s.mAwaiters = some w ∧ s.mNext w ≠ next)
  | _ => false

/-- Whenever an exchange of `awaiter_list_pop` succeeds, `m_next` of the popped awaiter is what the
notifier has read. -/
def PopsFresh [DecidableEq ι] (s : State ι μ δ) : Action ι μ δ → Prop
  | .move (.advance c) => s.stalePop c = false
  | _ => True

instance [DecidableEq ι] (s : State ι μ δ) (a : Action ι μ δ) : Decidable (PopsFresh s a) := by
  unfold PopsFresh
  split <;> infer_instance

section Step

variable [DecidableEq ι] [DecidableEq μ]

/-- The list of awaiters answers with a step or by standing still. -/
def Answers (s' : State ι μ δ) (t : Notification.State ι μ δ) : Prop :=
  Refines s' t ∨ ∃ b t', Notification.step t b = some t' ∧ Refines s' t'

/-- An answer by a step that `c` takes inside a call. -/
lemma Answers.of_advance {t' : Notification.State ι μ δ} (c : ι) (h : Refines s' t')
    (hstep : Notification.advance t c = some t') : Answers s' t :=
  .inr ⟨.advance c, t', hstep, h⟩

namespace Refines

/-- The exchange of a push finds what it expects. -/
lemma pushed (h : Refines s t) {k : Pusher ι} (hk : Pushes s.mNext k (t.pc c))
    (hnext : s.mNext (k.node c) = s.mAwaiters) :
    Answers { s.goto c k.done with mAwaiters := some (k.node c) } t := by
  have hlist : Linked s.mNext (some (k.node c)) (k.node c :: t.mAwaiters) := by
    refine ⟨rfl, ?_⟩
    rw [hnext]
    exact h.list
  generalize hq : t.pc c = q at hk
  cases hk with
  | wait =>
    have hgoto := h.goto hq .waitUnlock rfl
    exact .of_advance c (hgoto.setList hlist) (by rw [Notification.advance, hq]; rfl)
  | requeue hl =>
    have hgoto := h.goto hq (.notifying hl) rfl
    exact .of_advance c (hgoto.setList hlist) (by rw [Notification.advance, hq]; rfl)

/-- The test of the loop of a pop. -/
lemma popTest (h : Refines s t) (hq : t.pc c = .notifyOne) : Answers (popTest s c) t := by
  unfold AwaiterList.popTest
  split
  · next hnone =>
    have hnil : t.mAwaiters = [] := by
      have hlist := h.list
      rwa [hnone, Linked.none_iff] at hlist
    have hgoto := h.goto hq .running rfl
    exact .of_advance c hgoto (by simp [Notification.advance, hq, hnil])
  · refine .inl (h.stutter ?_)
    rw [hq]
    exact .popNext

/-- The exchange of a pop succeeds and installs the `m_next` that is there. -/
lemma popped (h : Refines s t) (hq : t.pc c = .notifyOne) (hw : s.mAwaiters = some w) :
    Answers { s.goto c (.locking w none) with mAwaiters := s.mNext w } t := by
  have hlist := h.list
  rw [hw, Linked.some_iff] at hlist
  obtain ⟨ws, hcons, hws⟩ := hlist
  have hgoto := (h.detach c [w]).goto (q := .locking w []) hq (.locking rfl) rfl
  exact .of_advance c (hgoto.setList hws) (by simp [Notification.advance, hq, hcons])

/-- The list is taken off as a whole. -/
lemma poppedAll (h : Refines s t) {k : Detacher} (hq : t.pc c = k.popping) :
    Answers { s.goto c (k.done s.mAwaiters) with mAwaiters := none } t := by
  have hnil : Linked s.mNext none [] := rfl
  have hdetach := h.detach c t.mAwaiters
  cases k with
  | notifyAll =>
    have hgoto := hdetach.goto hq (.notifying h.list) rfl
    exact .of_advance c (hgoto.setList hnil) (by rw [Notification.advance, hq]; rfl)
  | notifyAllExecutor =>
    have hgoto := hdetach.goto hq (.spawning h.list) rfl
    exact .of_advance c (hgoto.setList hnil) (by rw [Notification.advance, hq]; rfl)

/-- The test of the loop of a `pop_all`. -/
lemma popAllTest (h : Refines s t) {k : Detacher} (hq : t.pc c = k.popping) :
    Answers (popAllTest s c k) t := by
  unfold AwaiterList.popAllTest
  split
  · next hnone =>
    have hall := h.poppedAll hq
    rw [hnone] at hall
    convert hall using 2
    rw [← hnone]
    rfl
  · refine .inl (h.stutter ?_)
    rw [hq]
    exact .popAllExchange

/-- `on_notify` of `w` after the lock. -/
lemma onNotify (h : Refines s t) (hs : Notification.Sound t) {ws : List ι} {rest : Option ι}
    (hq : t.pc c = .evaluating w ws) (hl : Linked s.mNext rest ws) :
    Answers (onNotify s c w rest) t := by
  have hmem : w ∈ (t.pc c).inHand := by
    rw [hq]
    exact List.mem_cons_self
  have hown : t.owner (t.mutex w) = some c := by
    have hclaims := hs.claims c
    rwa [hq] at hclaims
  have hw : t.pc w = .waiting := hs.waiting_of_claims hmem hown
  have hcw : c ≠ w := (hs.suspended_of_mem_hand hmem).2
  have heval := (h.evaluated w).handle c w
  have href : Refines (AwaiterList.onNotify s c w rest) (Notification.onNotify t c w ws) := by
    unfold AwaiterList.onNotify Notification.onNotify
    rw [h.ready_eq, h.mutex]
    split
    · have hresume := (heval.setOwner (s.mutex w) (some w)).resume hw
      refine hresume.goto (r := .evaluating w ws) ?_ (.notifying hl) rfl
      rw [Notification.State.goto_pc, Function.update_of_ne hcw]
      exact hq
    · exact heval.goto hq (.notReady hl) rfl
  exact .of_advance c href (by rw [Notification.advance, hq])

/-- One step inside a call of the library. -/
lemma advance (h : Refines s t) (hs : Notification.Sound t) (hfresh : s.stalePop c = false)
    (hstep : advance s c = some s') : Answers s' t := by
  have hc := h.pc c
  unfold State.stalePop at hfresh
  unfold AwaiterList.advance at hstep
  generalize s.pc c = p at hc hstep hfresh
  generalize hq : t.pc c = q at hc
  cases hc with dsimp only at hstep
  | unused | running | waiting | spawnTask _ => cases hstep
  | pushLoad hk =>
    cases hstep
    exact .inl (h.stutter (hq ▸ .pushLink hk))
  | pushLink hk =>
    cases hstep
    exact .inl (h.link hs (hq ▸ hk))
  | pushExchange hk hnext =>
    split at hstep
    · next hhead =>
      cases hstep
      exact h.pushed (hq ▸ hk) (hnext.trans hhead.symm)
    · cases hstep
      exact .inl (h.stutter (hq ▸ .pushLink hk))
  | waitUnlock =>
    cases hstep
    have hgoto := (h.setOwner (s.mutex c) none).goto hq .waiting rfl
    exact .of_advance c hgoto (by rw [Notification.advance, hq, h.mutex])
  | popLoad =>
    cases hstep
    exact h.popTest hq
  | popNext =>
    cases hstep
    exact .inl (h.stutter (hq ▸ .popExchange))
  | @popExchange w next =>
    split at hstep
    · next hhead =>
      cases hstep
      obtain rfl : s.mNext w = next := by
        by_contra hne
        exact of_decide_eq_false hfresh ⟨hhead, hne⟩
      exact h.popped hq hhead
    · cases hstep
      exact h.popTest hq
  | popAllLoad =>
    cases hstep
    exact h.popAllTest hq
  | @popAllExchange k head =>
    split at hstep
    · next hhead =>
      cases hstep
      have hall := h.poppedAll hq
      rwa [hhead] at hall
    · cases hstep
      exact h.popAllTest hq
  | @notifying p ws hl =>
    cases p with
    | none =>
      cases hstep
      obtain rfl := Linked.none_iff.mp hl
      exact .of_advance c (h.goto hq .running rfl) (by rw [Notification.advance, hq])
    | some w =>
      cases hstep
      obtain ⟨ws, rfl, htail⟩ := Linked.some_iff.mp hl
      exact .of_advance c (h.goto hq (.locking htail) rfl) (by rw [Notification.advance, hq])
  | @spawning p ws hl =>
    cases p with
    | none =>
      cases hstep
      obtain rfl := Linked.none_iff.mp hl
      exact .of_advance c (h.goto hq .running rfl) (by rw [Notification.advance, hq])
    | some w =>
      cases hstep
      obtain ⟨ws, rfl, htail⟩ := Linked.some_iff.mp hl
      exact .inl (h.stutter (hq ▸ .spawnTask htail))
  | @locking w rest ws hl =>
    split at hstep
    · next hfree =>
      cases hstep
      exact .of_advance c ((h.setOwner (s.mutex w) (some c)).goto hq (.evaluating hl) rfl)
        (by simp [Notification.advance, hq, hfree, h.owner, h.mutex])
    · cases hstep
  | evaluating hl =>
    cases hstep
    exact h.onNotify hs hq hl
  | @notReady w rest ws hl =>
    cases hstep
    exact .of_advance c
      ((h.setOwner (s.mutex w) none).goto hq (.pushLoad (.requeue hl)) rfl)
      (by rw [Notification.advance, hq, h.mutex])

/-- A weak exchange fails without a reason. -/
lemma spurious (h : Refines s t) (hstep : spurious s c = some s') : Answers s' t := by
  have hc := h.pc c
  unfold AwaiterList.spurious at hstep
  generalize s.pc c = p at hc hstep
  generalize hq : t.pc c = q at hc
  cases hc with dsimp only at hstep
  | pushExchange hk =>
    cases hstep
    exact .inl (h.stutter (hq ▸ .pushLink hk))
  | popExchange =>
    cases hstep
    exact h.popTest hq
  | popAllExchange =>
    cases hstep
    exact h.popAllTest hq
  | _ => cases hstep

/-- The executor takes a task. -/
lemma spawn (h : Refines s t) {k : ι} (hstep : spawn s c k = some s') : Answers s' t := by
  unfold AwaiterList.spawn at hstep
  split at hstep
  · next w next hpc hk =>
    cases hstep
    have hc := h.pc c
    have hk' := h.pc k
    rw [hpc] at hc
    rw [hk] at hk'
    generalize hq : t.pc c = q at hc
    generalize hr : t.pc k = r at hk'
    cases hc with
    | @spawnTask _ _ ws hl =>
      cases hk'
      have hck : c ≠ k := by
        rintro rfl
        rw [hpc] at hk
        cases hk
      have hspawn := ((h.detach k [w]).goto (q := .locking w []) hr (.locking rfl) rfl).handle c w
      refine .inr ⟨.spawn c k, _, ?_, hspawn.goto (r := .spawning (w :: ws)) ?_ (.spawning hl) rfl⟩
      · simp [Notification.step, Notification.spawn, hq, hr]
      · simpa [hck] using hq
  · cases hstep

/-- The executor refuses a task. -/
lemma refuse (h : Refines s t) (hstep : refuse s c = some s') : Answers s' t := by
  unfold AwaiterList.refuse at hstep
  split at hstep
  · next w next hpc =>
    cases hstep
    have hc := h.pc c
    rw [hpc] at hc
    generalize hq : t.pc c = q at hc
    cases hc with
    | @spawnTask _ _ ws hl =>
      refine .inr ⟨.refuse c, _, ?_, (h.goto hq (.spawning hl) rfl).lose (w :: t.lost)⟩
      simp [Notification.step, Notification.refuse, hq]
  · cases hstep

/-- One move. -/
lemma move (h : Refines s t) (hs : Notification.Sound t) {a : Notification.Action ι μ δ}
    (hfresh : PopsFresh s (.move a)) (hstep : move s a = some s') : Answers s' t := by
  cases a with
  | begin c =>
    obtain ⟨hc, rfl⟩ : s.pc c = .unused ∧ s.goto c .running = s' := by
      simpa [AwaiterList.move] using hstep
    exact .inr ⟨.begin c, _, by simp [Notification.step, h.unused hc],
      h.goto (h.unused hc) .running rfl⟩
  | lock c m =>
    obtain ⟨⟨hc, hm⟩, rfl⟩ : (s.pc c = .running ∧ s.owner m = none) ∧
        s.setOwner m (some c) = s' := by
      simpa [AwaiterList.move] using hstep
    exact .inr ⟨.lock c m, _, by simp [Notification.step, h.running hc, h.owner, hm],
      h.setOwner m (some c)⟩
  | unlock c m =>
    obtain ⟨⟨hc, hm⟩, rfl⟩ : (s.pc c = .running ∧ s.owner m = some c) ∧
        s.setOwner m none = s' := by
      simpa [AwaiterList.move] using hstep
    exact .inr ⟨.unlock c m, _, by simp [Notification.step, h.running hc, h.owner, hm],
      h.setOwner m none⟩
  | write c m d =>
    obtain ⟨⟨hc, hm⟩, rfl⟩ : (s.pc c = .running ∧ s.owner m = some c) ∧
        { s with data := Function.update s.data m d } = s' := by
      simpa [AwaiterList.move] using hstep
    exact .inr ⟨.write c m d, _, by simp [Notification.step, h.running hc, h.owner, hm],
      h.write m d⟩
  | wait c m a stop =>
    obtain ⟨⟨hc, hm⟩, rfl⟩ : (s.pc c = .running ∧ s.owner m = some c) ∧
        AwaiterList.wait s c m a stop = s' := by
      simpa [AwaiterList.move] using hstep
    exact .inr ⟨.wait c m a stop, _, by simp [Notification.step, h.running hc, h.owner, hm],
      h.wait (h.running hc) m a stop⟩
  | notifyOne c =>
    obtain ⟨hc, rfl⟩ : s.pc c = .running ∧ s.goto c .popLoad = s' := by
      simpa [AwaiterList.move] using hstep
    exact .inr ⟨.notifyOne c, _, by simp [Notification.step, h.running hc],
      h.goto (h.running hc) .popLoad rfl⟩
  | notifyAll c =>
    obtain ⟨hc, rfl⟩ : s.pc c = .running ∧ s.goto c (.popAllLoad .notifyAll) = s' := by
      simpa [AwaiterList.move] using hstep
    exact .inr ⟨.notifyAll c, _, by simp [Notification.step, h.running hc],
      h.goto (q := .notifyAll) (h.running hc) .popAllLoad rfl⟩
  | notifyAllExecutor c =>
    obtain ⟨hc, rfl⟩ : s.pc c = .running ∧ s.goto c (.popAllLoad .notifyAllExecutor) = s' := by
      simpa [AwaiterList.move] using hstep
    exact .inr ⟨.notifyAllExecutor c, _, by simp [Notification.step, h.running hc],
      h.goto (q := .notifyAllExecutor) (h.running hc) .popAllLoad rfl⟩
  | notifyOneExecutor c k =>
    obtain ⟨⟨hc, hk⟩, rfl⟩ : (s.pc c = .running ∧ s.pc k = .unused) ∧ s.goto k .popLoad = s' := by
      simpa [AwaiterList.move] using hstep
    exact .inr ⟨.notifyOneExecutor c k, _,
      by simp [Notification.step, h.running hc, h.unused hk], h.goto (h.unused hk) .popLoad rfl⟩
  | requestStop c =>
    cases hstep
    exact .inr ⟨.requestStop c, _, rfl, h.requestStop c⟩
  | spawn c k => exact h.spawn hstep
  | refuse c => exact h.refuse hstep
  | advance c => exact h.advance hs hfresh hstep

end Refines

/-- Every step that exchanges no stale `m_next` is answered by the list of awaiters. -/
lemma refines_step {a : Action ι μ δ} (h : Refines s t) (hs : Notification.Sound t)
    (hfresh : PopsFresh s a) (hstep : step s a = some s') : Answers s' t := by
  cases a with
  | move a => exact h.move hs hfresh hstep
  | spurious c => exact h.spurious hstep

variable [Inhabited μ] {d : μ → δ}

/-- What a run without stale exchanges reaches stands for something that the list of awaiters
reaches. -/
lemma refines_of_reachable (h : (machine ι d).ReachableUnder PopsFresh s) :
    ∃ t, (Notification.machine ι d).Reachable t ∧ Refines s t := by
  refine h.invariant (I := fun s => ∃ t, (Notification.machine ι d).Reachable t ∧ Refines s t)
    ⟨_, Machine.Reachable.start, ?_⟩ ?_
  · exact ⟨rfl, rfl, rfl, rfl, rfl, rfl, rfl, fun _ => .unused, fun _ => rfl⟩
  rintro s a s' - ⟨t, ht, hst⟩ hfresh hstep
  rcases refines_step hst (Notification.sound_of_reachable ht) hfresh hstep with
    hstay | ⟨b, t', hb, hst'⟩
  · exact ⟨t, ht, hstay⟩
  · exact ⟨t', ht.tail hb, hst'⟩

end Step

end Libcoro.AwaiterList
