import Libcoro.Queue.Transitions

/-!
# First in, first out, exactly once

The log of the accepted elements agrees with the `push` calls (`Accepted`), and the log of the
delivered ones with the `pop` and `try_pop` calls (`Delivered`), the elements on their way to a
suspended `pop` included.  Together they say that a queue delivers what it has accepted, in
order, each element to one call (`fifo_exactly_once`).
-/

namespace Libcoro.Queue

open Foundations Function

variable {κ α : Type*}

/-! ## What was accepted -/

/-- The `push` calls whose element was accepted. -/
def Pc.Accepted : Pc κ α → Prop
  | .handOff _ _ => True
  | .pushReturned r => r = .produced
  | _ => False

/-- What the control point of a call says about the element that it was called with. -/
@[simp] def Pc.Carries (arg : Option α) : Pc κ α → Prop
  | .push e => arg = some e
  | .handOff e _ => arg = some e
  | .pushReturned _ => arg.isSome
  | _ => True

/-- The log of the accepted elements agrees with the calls. -/
structure Accepted (s : State κ α) : Prop where
  nodup : (s.accepted.map Prod.fst).Nodup
  mem_iff : ∀ c e, (c, e) ∈ s.accepted ↔
    (s.pc c).Accepted ∧ (s.called c).bind Call.element = some e
  carries : ∀ c, (s.pc c).Carries ((s.called c).bind Call.element)

/-- A quiet step accepts nothing. -/
lemma Quiet.accepted_iff {s : State κ α} {q p : Pc κ α} (h : Quiet s q p) :
    (p.Accepted ↔ q.Accepted) ∧ ∀ arg, q.Carries arg → p.Carries arg := by
  cases h with
  | pushStopped _ =>
    refine ⟨by simp [Pc.Accepted], ?_⟩
    intro arg harg
    simp_all
  | _ => simp [Pc.Accepted]

variable [DecidableEq κ] {s t : State κ α} {c w : κ} {p : Pc κ α}

namespace Accepted

/-- A move of `c` that accepts nothing. -/
lemma goto (h : Accepted s) (hp : p.Accepted ↔ (s.pc c).Accepted)
    (hcarries : p.Carries ((s.called c).bind Call.element)) : Accepted (s.goto c p) := by
  refine ⟨h.nodup, ?_, ?_⟩
  · refine (forall_update_iff s.pc fun d q => ∀ e, (d, e) ∈ s.accepted ↔
      q.Accepted ∧ (s.called d).bind Call.element = some e).mpr ⟨?_, fun d _ => h.mem_iff d⟩
    intro e
    rw [hp]
    exact h.mem_iff c e
  · exact (forall_update_iff s.pc fun d q =>
      q.Carries ((s.called d).bind Call.element)).mpr ⟨hcarries, fun d _ => h.carries d⟩

/-- The element of the `push` call `c` is accepted. -/
lemma log (h : Accepted s) {e : α} (hc : s.pc c = .push e) (hp : p.Accepted)
    (hcarries : ∀ arg : Option α, arg = some e → p.Carries arg) :
    Accepted ((s.accept c e).goto c p) := by
  have harg : (s.called c).bind Call.element = some e := by
    simpa [hc] using h.carries c
  have hnew : ∀ x, (c, x) ∉ s.accepted := by
    intro x hx
    simpa [hc, Pc.Accepted] using (h.mem_iff c x).mp hx
  refine ⟨?_, ?_, ?_⟩
  · change ((s.accepted ++ [(c, e)]).map Prod.fst).Nodup
    rw [List.map_append, List.nodup_append']
    refine ⟨h.nodup, by simp, ?_⟩
    intro d hd hdc
    obtain ⟨⟨d', x⟩, hx, rfl⟩ := List.mem_map.mp hd
    obtain rfl : d' = c := by simpa using hdc
    exact hnew x hx
  · intro d x
    rcases eq_or_ne d c with rfl | hd
    · have hx := hnew x
      simp [State.accept, hx, hp, harg, eq_comm]
    · simpa [State.accept, hd] using h.mem_iff d x
  · exact (forall_update_iff s.pc fun d q =>
      q.Carries ((s.called d).bind Call.element)).mpr
        ⟨hcarries _ harg, fun d _ => h.carries d⟩

/-- `c` resumes the suspended `w`. -/
lemma wake (h : Accepted s) (hw : s.pc w = .popSuspended) (hcw : c ≠ w)
    (hp : p.Accepted ↔ (s.pc c).Accepted)
    (hcarries : p.Carries ((s.called c).bind Call.element)) :
    Accepted ((s.goto w .popResume).goto c p) := by
  have hfirst : Accepted (s.goto w .popResume) := h.goto (by simp [hw, Pc.Accepted]) trivial
  refine hfirst.goto ?_ hcarries
  simpa [hcw] using hp

/-- Every transition keeps the log of the accepted elements. -/
lemma transition (h : Accepted s) (hs : Sound s) (ht : Transition s c t) : Accepted t := by
  have hown := h.carries c
  cases ht with
  | quiet hq => exact h.goto hq.accepted_iff.1 (hq.accepted_iff.2 _ hown)
  | @call f hc =>
    have hnew : ∀ x, (c, x) ∉ s.accepted := by
      intro x hx
      simpa [hc, Pc.Accepted] using (h.mem_iff c x).mp hx
    refine ⟨h.nodup, ?_, ?_⟩
    · intro d x
      rcases eq_or_ne d c with rfl | hd
      · cases f <;> simp [hnew, Pc.Accepted]
      · simpa [hd] using h.mem_iff d x
    · intro d
      rcases eq_or_ne d c with rfl | hd
      · cases f <;> simp [Call.element]
      · simpa [hd] using h.carries d
  | enqueue hc _ _ =>
    exact { h.log (p := .pushReturned .produced) hc rfl (by simp_all) with }
  | @handOff e w ws hc _ _ =>
    exact { h.log (p := .handOff e w) hc trivial (by simp) with }
  | @transfer e w hc =>
    obtain ⟨hw, hcw⟩ := hs.suspended_of_mem_hand (c := c) (w := w) (by simp [hc, Pc.inHand])
    have hwake : Accepted ((s.goto w .popResume).goto c (.pushReturned .produced)) := by
      refine h.wake hw hcw (by simp [hc, Pc.Accepted]) ?_
      rw [hc] at hown
      simp_all
    exact { hwake with }
  | popStopped hc _ | popElement hc _ _ =>
    exact { h.goto (c := c) (p := .popResume) (by simp [hc, Pc.Accepted]) trivial with }
  | popBlock hc _ _ =>
    exact { h.goto (c := c) (p := .popSuspended) (by simp [hc, Pc.Accepted]) trivial with }
  | popReturn hc => exact h.goto (by simp [hc, Pc.Accepted]) trivial
  | @tryPopElement e es hc _ _ =>
    exact { h.goto (c := c) (p := .tryPopReturned (.value e)) (by simp [hc, Pc.Accepted])
      trivial with }
  | stop hc _ =>
    exact { h.goto (c := c) (p := .shutdownResume s.mWaiters) (by simp [hc, Pc.Accepted])
      trivial with }
  | @wake w ws hc =>
    obtain ⟨hw, hcw⟩ := hs.suspended_of_mem_hand (c := c) (w := w) (by simp [hc, Pc.inHand])
    exact h.wake hw hcw (by simp [hc, Pc.Accepted]) trivial
  | drain hc _ =>
    exact { h.goto (c := c) (p := .drainEmpty) (by simp [hc, Pc.Accepted]) trivial with }

end Accepted

/-- The log of the accepted elements is right in every reachable state. -/
lemma accepted_of_reachable (h : (machine κ α).Reachable s) : Accepted s := by
  refine h.invariant ?_ ?_
  · constructor
    all_goals simp [machine, start, Pc.Accepted]
  · intro s a t hr hs hstep
    exact hs.transition (sound_of_reachable hr) (step_transition hstep)

/-! ## What was delivered -/

/-- What the control point of a call says about the elements that it `got`, the `m_element` of its
awaiter being `elem` and the state of the queue being `m`. -/
@[simp] def Pc.Gets (m : RunningState) (elem : Option α) (got : α → Prop) : Pc κ α → Prop
  | .popSuspended => elem = none
  | .popResume => (∀ e, got e ↔ elem = some e) ∧ (elem = none → m = .stopped)
  | .popReturned r =>
    (∀ e, got e ↔ r = .value e) ∧ ∀ x, r = .unexpected x → x = .stopped ∧ m = .stopped
  | .tryPopReturned r => ∀ e, got e ↔ r = .value e
  | _ => ∀ e, ¬ got e

/-- The log of the delivered elements agrees with the calls. -/
structure Delivered (s : State κ α) : Prop where
  nodup : (s.delivered.map Prod.fst).Nodup
  waiting : ∀ w ∈ s.mWaiters, ∀ e, (w, e) ∉ s.delivered
  handed : ∀ c e w, s.pc c = .handOff e w → (w, e) ∈ s.delivered
  detached : ∀ c ws, s.pc c = .shutdownResume ws → ∀ w ∈ ws, ∀ e, (w, e) ∉ s.delivered
  gets : ∀ c, (s.pc c).Gets s.mRunningState (s.mElement c) fun e => (c, e) ∈ s.delivered

omit [DecidableEq κ] in
/-- Only the answer `stopped` depends on the state of the queue. -/
lemma Pc.Gets.mono {m m' : RunningState} {elem : Option α} {got : α → Prop}
    (h : p.Gets m elem got) (hm : m = .stopped → m' = .stopped) : p.Gets m' elem got := by
  cases p with
  | popResume => exact ⟨h.1, fun hnone => hm (h.2 hnone)⟩
  | popReturned r => exact ⟨h.1, fun x hx => ⟨(h.2 x hx).1, hm (h.2 x hx).2⟩⟩
  | _ => exact h

omit [DecidableEq κ] in
/-- What a call got does not change by a quiet step, which hands over nobody. -/
lemma Quiet.gets {q : Pc κ α} (h : Quiet s q p) {elem : Option α} {got : α → Prop}
    (hq : q.Gets s.mRunningState elem got) :
    p.Gets s.mRunningState elem got ∧ (∀ e w, p ≠ .handOff e w) ∧
      ∀ ws, p ≠ .shutdownResume ws := by
  cases h <;> simp_all

namespace Delivered

/-- A move of `c` that writes the `m_element` of its awaiter and delivers nothing. -/
lemma assign (h : Delivered s) {elem : Option α}
    (hgets : p.Gets s.mRunningState elem fun e => (c, e) ∈ s.delivered)
    (hhand : ∀ e w, p ≠ .handOff e w)
    (hstop : ∀ ws, p = .shutdownResume ws → ∀ w ∈ ws, ∀ e, (w, e) ∉ s.delivered) :
    Delivered ((s.setElement c elem).goto c p) := by
  refine ⟨h.nodup, h.waiting, ?_, ?_, ?_⟩
  · exact (forall_update_iff s.pc fun _ q =>
      ∀ e w, q = .handOff e w → (w, e) ∈ s.delivered).mpr
        ⟨fun e w hp => (hhand e w hp).elim, fun d _ => h.handed d⟩
  · exact (forall_update_iff s.pc fun _ q =>
      ∀ ws, q = .shutdownResume ws → ∀ w ∈ ws, ∀ e, (w, e) ∉ s.delivered).mpr
        ⟨hstop, fun d _ => h.detached d⟩
  · intro d
    rcases eq_or_ne d c with rfl | hd
    · simpa using hgets
    · simpa [hd] using h.gets d

/-- A move of `c` that delivers nothing. -/
lemma goto (h : Delivered s)
    (hgets : p.Gets s.mRunningState (s.mElement c) fun e => (c, e) ∈ s.delivered)
    (hhand : ∀ e w, p ≠ .handOff e w)
    (hstop : ∀ ws, p = .shutdownResume ws → ∀ w ∈ ws, ∀ e, (w, e) ∉ s.delivered) :
    Delivered (s.goto c p) := by
  have hassign := h.assign hgets hhand hstop
  rwa [State.setElement, update_eq_self] at hassign

/-- A move of `c` that delivers nothing, to a control point that hands over nobody. -/
lemma move (h : Delivered s)
    (hgets : p.Gets s.mRunningState (s.mElement c) fun e => (c, e) ∈ s.delivered)
    (hp : p.inHand = []) : Delivered (s.goto c p) := by
  refine h.goto hgets ?_ ?_
  · rintro e w rfl
    simp [Pc.inHand] at hp
  · rintro ws rfl w hw
    simp [show ws = [] from hp] at hw

/-- `c` logs that `x` gets the element `e`. -/
lemma log (h : Delivered s) {x : κ} {e : α} (hnew : ∀ y, (x, y) ∉ s.delivered)
    (hwaiting : ∀ w ∈ t.mWaiters, w ∈ s.mWaiters ∧ w ≠ x)
    (hdetached : ∀ d ws, s.pc d = .shutdownResume ws → x ∉ ws)
    (hdelivered : t.delivered = s.delivered ++ [(x, e)])
    (hpc : t.pc = update s.pc c p) (hstate : t.mRunningState = s.mRunningState)
    (helem : ∀ d, d ≠ c → t.mElement d = s.mElement d)
    (hhand : ∀ y w, p = .handOff y w → y = e ∧ w = x)
    (hstop : ∀ ws, p = .shutdownResume ws → ws = [])
    (hgets : p.Gets s.mRunningState (t.mElement c) fun y => (c, y) ∈ t.delivered)
    (hother : x ≠ c → s.pc x = .popSuspended) : Delivered t := by
  have hmem : ∀ d y, (d, y) ∈ t.delivered ↔ (d, y) ∈ s.delivered ∨ d = x ∧ y = e := by
    intro d y
    simp [hdelivered]
  have hold : ∀ d y, d ≠ x → ((d, y) ∈ t.delivered ↔ (d, y) ∈ s.delivered) := by
    intro d y hd
    simp [hmem, hd]
  refine ⟨?_, ?_, ?_, ?_, ?_⟩
  · rw [hdelivered, List.map_append, List.nodup_append']
    refine ⟨h.nodup, by simp, ?_⟩
    intro d hd hdx
    obtain ⟨⟨d', y⟩, hy, rfl⟩ := List.mem_map.mp hd
    obtain rfl : d' = x := by simpa using hdx
    exact hnew y hy
  · intro w hw y
    obtain ⟨hlist, hwx⟩ := hwaiting w hw
    rw [hold w y hwx]
    exact h.waiting w hlist y
  · intro d y w hd
    rw [hmem]
    rw [hpc] at hd
    rcases eq_or_ne d c with rfl | hdc
    · obtain ⟨rfl, rfl⟩ := hhand y w (by simpa using hd)
      exact Or.inr ⟨rfl, rfl⟩
    · exact Or.inl (h.handed d y w (by simpa [hdc] using hd))
  · intro d ws hd w hw y
    rw [hpc] at hd
    rcases eq_or_ne d c with rfl | hdc
    · simp [hstop ws (by simpa using hd)] at hw
    · have hd' : s.pc d = .shutdownResume ws := by simpa [hdc] using hd
      have hwx : w ≠ x := by
        rintro rfl
        exact hdetached d ws hd' hw
      rw [hold w y hwx]
      exact h.detached d ws hd' w hw y
  · intro d
    rw [hstate, hpc]
    rcases eq_or_ne d c with rfl | hdc
    · simpa using hgets
    · have hd := h.gets d
      rw [update_of_ne hdc, helem d hdc]
      rcases eq_or_ne d x with rfl | hdx
      · rw [hother hdc] at hd ⊢
        exact hd
      · simpa only [hold d _ hdx] using hd

/-- `c` takes the element `e` itself. -/
lemma take (h : Delivered s) (hs : Sound s) {e : α} (hnew : ∀ y, (c, y) ∉ s.delivered)
    (hc : s.pc c ≠ .popSuspended) (hwaiters : t.mWaiters = s.mWaiters)
    (hdelivered : t.delivered = s.delivered ++ [(c, e)])
    (hpc : t.pc = update s.pc c p) (hstate : t.mRunningState = s.mRunningState)
    (helem : ∀ d, d ≠ c → t.mElement d = s.mElement d) (hp : p.inHand = [])
    (hgets : ∀ got : α → Prop, (∀ y, got y ↔ y = e) → p.Gets s.mRunningState (t.mElement c) got) :
    Delivered t := by
  refine h.log hnew ?_ ?_ hdelivered hpc hstate helem ?_ ?_ (hgets _ ?_) fun hne => (hne rfl).elim
  · intro w hw
    rw [hwaiters] at hw
    refine ⟨hw, ?_⟩
    rintro rfl
    exact hc (hs.suspended_of_mem hw)
  · intro d ws hd hmem
    exact hc (hs.suspended_of_mem_hand (c := d) (by simpa [hd, Pc.inHand] using hmem)).1
  · rintro y w rfl
    simp [Pc.inHand] at hp
  · rintro ws rfl
    exact hp
  · intro y
    simp [hdelivered, hnew]

/-- Every transition keeps the log of the delivered elements. -/
lemma transition (h : Delivered s) (hs : Sound s) (ht : Transition s c t) : Delivered t := by
  have hown := h.gets c
  cases ht with
  | quiet hq =>
    obtain ⟨hgets, hhand, hstop⟩ := hq.gets hown
    exact h.goto hgets hhand fun ws hws => (hstop ws hws).elim
  | @call f hc =>
    have hgoto : Delivered (s.goto c f.entry) := by
      rw [hc] at hown
      apply h.move
      all_goals cases f <;> first | exact hown | rfl
    exact { hgoto with }
  | enqueue hc _ _ =>
    have hgoto : Delivered (s.goto c (.pushReturned .produced)) := by
      rw [hc] at hown
      exact h.move hown rfl
    exact { hgoto with }
  | @handOff e w ws hc _ hws =>
    have hmem : w ∈ s.mWaiters := by simp [hws]
    have hsusp := hs.suspended_of_mem hmem
    have hcw : c ≠ w := by
      rintro rfl
      simp [hc] at hsusp
    have hnodup : (w :: ws).Nodup := by
      rw [← hws]
      exact Placed.nodup hs.parked none
    refine h.log (x := w) (e := e) (h.waiting w hmem) ?_ ?_ rfl rfl rfl (fun _ _ => rfl) ?_ ?_ ?_
      fun _ => hsusp
    · intro x hx
      refine ⟨by simp [hws, show x ∈ ws from hx], ?_⟩
      rintro rfl
      exact (List.nodup_cons.mp hnodup).1 hx
    · intro d xs hd hx
      exact hs.parked.not_mem_hand hmem d (by simpa [hd, Pc.inHand] using hx)
    · rintro y x hp
      obtain ⟨rfl, rfl⟩ := Pc.handOff.inj hp
      exact ⟨rfl, rfl⟩
    · simp
    · rw [hc] at hown
      intro y
      simpa [State.accept, hcw] using hown y
  | @transfer e w hc =>
    obtain ⟨hw, hcw⟩ := hs.suspended_of_mem_hand (c := c) (w := w) (by simp [hc, Pc.inHand])
    have hgot := h.handed c e w hc
    have hfirst : Delivered ((s.setElement w (some e)).goto w .popResume) := by
      refine h.assign ⟨?_, by simp⟩ (by simp) (by simp)
      intro y
      constructor
      · intro hy
        have hpair := List.inj_on_of_nodup_map h.nodup hy hgot rfl
        simpa using (congrArg Prod.snd hpair).symm
      · rintro hy
        cases hy
        exact hgot
    refine hfirst.move ?_ rfl
    rw [hc] at hown
    exact hown
  | popStopped hc hstop =>
    rw [hc] at hown
    exact h.assign ⟨fun e => iff_of_false (hown e) (by simp), fun _ => hstop⟩ (by simp) (by simp)
  | @popElement e es hc _ _ =>
    rw [hc] at hown
    refine h.take hs hown (by simp [hc]) rfl rfl rfl rfl ?_ rfl ?_
    · intro d hd
      simp [hd]
    · intro got hgot
      refine ⟨?_, by simp⟩
      intro y
      simp [hgot, eq_comm]
  | popBlock hc _ _ =>
    rw [hc] at hown
    have hassign : Delivered ((s.setElement c none).goto c .popSuspended) :=
      h.assign rfl (by simp) (by simp)
    refine ⟨hassign.1, ?_, hassign.3, hassign.4, hassign.5⟩
    intro w hw
    rcases List.mem_cons.mp hw with rfl | hw
    · exact hown
    · exact h.waiting w hw
  | popReturn hc =>
    rw [hc] at hown
    obtain ⟨hgot, hstop⟩ := hown
    refine h.move ?_ rfl
    generalize s.mElement c = o at hgot hstop
    cases o with
    | none =>
      refine ⟨fun e => by simp [hgot, awaitResume], ?_⟩
      intro x hx
      exact ⟨(Consumed.unexpected.inj hx).symm, hstop rfl⟩
    | some y => exact ⟨fun e => by simp [hgot, awaitResume], by simp [awaitResume]⟩
  | @tryPopElement e es hc _ _ =>
    rw [hc] at hown
    refine h.take hs hown (by simp [hc]) rfl rfl rfl rfl (fun _ _ => rfl) rfl ?_
    intro got hgot y
    simp [hgot, eq_comm]
  | stop hc _ =>
    have hgoto : Delivered (s.goto c (.shutdownResume s.mWaiters)) := by
      rw [hc] at hown
      refine h.goto hown (by simp) ?_
      intro ws hws
      obtain rfl := Pc.shutdownResume.inj hws
      exact h.waiting
    exact ⟨hgoto.1, by simp, hgoto.3, hgoto.4, fun d => (hgoto.gets d).mono fun _ => rfl⟩
  | @wake w ws hc =>
    obtain ⟨hw, hcw⟩ := hs.suspended_of_mem_hand (c := c) (w := w) (by simp [hc, Pc.inHand])
    have hnone := h.detached c _ hc
    have hfirst : Delivered (s.goto w .popResume) := by
      have helem : s.mElement w = none := by simpa [hw] using h.gets w
      refine h.move ⟨?_, fun _ => hs.stopping c _ hc⟩ rfl
      intro e
      simp [helem, hnone w (by simp)]
    refine hfirst.goto ?_ (by simp) ?_
    · rw [hc] at hown
      exact hown
    · intro xs hxs x hx
      obtain rfl := Pc.shutdownResume.inj hxs
      exact hnone x (List.mem_cons_of_mem w hx)
  | drain hc hrun =>
    have hgoto : Delivered (s.goto c .drainEmpty) := by
      rw [hc] at hown
      exact h.move hown rfl
    refine ⟨hgoto.1, hgoto.2, hgoto.3, hgoto.4, fun d => (hgoto.gets d).mono ?_⟩
    intro hstop
    rw [show s.mRunningState = .stopped from hstop] at hrun
    cases hrun

omit [DecidableEq κ] in
/-- The element that a suspended `pop` is going to get is in the hands of a `push`. -/
lemma exists_handOff (h : Delivered s) (hs : Sound s) {e : α} (hc : s.pc c = .popSuspended)
    (hmem : (c, e) ∈ s.delivered) : ∃ d, s.pc d = .handOff e c := by
  rcases hs.parked.mem_or (x := c) (by simp [hc]) with hlist | ⟨d, hd⟩
  · exact (h.waiting c hlist e hmem).elim
  · refine ⟨d, ?_⟩
    cases hpc : s.pc d with
    | handOff y w =>
      obtain rfl : c = w := by simpa [hpc, Pc.inHand] using hd
      have hpair := List.inj_on_of_nodup_map h.nodup hmem (h.handed d y c hpc) rfl
      obtain rfl : e = y := (Prod.ext_iff.mp hpair).2
      rfl
    | shutdownResume ws =>
      have hws : c ∈ ws := by simpa [hpc, Pc.inHand] using hd
      exact (h.detached d ws hpc c hws e hmem).elim
    | _ => simp [hpc, Pc.inHand] at hd

end Delivered

/-- The log of the delivered elements is right in every reachable state. -/
lemma delivered_of_reachable (h : (machine κ α).Reachable s) : Delivered s := by
  refine h.invariant ?_ ?_
  · constructor
    all_goals simp [machine, start]
  · intro s a t hr hs hstep
    exact hs.transition (sound_of_reachable hr) (step_transition hstep)

/-! ## The order -/

/-- What was accepted is what was delivered and what is in the queue, before and after a step. -/
lemma Transition.order (ht : Transition s c t) (hs : Sound s)
    (horder : s.accepted.map Prod.snd = s.delivered.map Prod.snd ++ s.mElements) :
    t.accepted.map Prod.snd = t.delivered.map Prod.snd ++ t.mElements := by
  cases ht with
  | @enqueue e hc _ _ =>
    change (s.accepted ++ [(c, e)]).map Prod.snd = s.delivered.map Prod.snd ++ (s.mElements ++ [e])
    rw [List.map_append, horder, List.append_assoc]
    rfl
  | @handOff e w ws hc _ hws =>
    -- the element may overtake nobody, since there is nothing in the queue
    have hnil := hs.exclusive.resolve_left (by simp [hws])
    change (s.accepted ++ [(c, e)]).map Prod.snd =
      (s.delivered ++ [(w, e)]).map Prod.snd ++ s.mElements
    rw [List.map_append, List.map_append, horder, hnil, List.append_nil, List.append_nil]
    rfl
  | @popElement e es _ _ hes | @tryPopElement e es _ _ hes =>
    change s.accepted.map Prod.snd = (s.delivered ++ [(c, e)]).map Prod.snd ++ es
    rw [horder, hes, List.map_append, List.append_assoc]
    rfl
  | _ => exact horder

/-- A step of `c` moves no other call, except one that it resumes. -/
lemma Transition.pc_other (ht : Transition s c t) (hs : Sound s) {d : κ} (hd : d ≠ c) :
    t.pc d = s.pc d ∨ s.pc d = .popSuspended := by
  have hresumed : ∀ {w : κ} {q : Pc κ α}, w ∈ (s.pc c).inHand →
      update (update s.pc w .popResume) c q d = s.pc d ∨
        s.pc d = .popSuspended := by
    intro w q hw
    rcases eq_or_ne d w with rfl | hdw
    · exact Or.inr (hs.suspended_of_mem_hand hw).1
    · simp [hd, hdw]
  cases ht with
  | transfer hc | wake hc => exact hresumed (by simp [hc, Pc.inHand])
  | _ => exact Or.inl (update_of_ne hd _ _)

/-- A `try_pop` that returns no element moves nothing but its own control point. -/
lemma Transition.tryPop_unexpected (ht : Transition s c t) (hc : s.pc c = .tryPop)
    {r : ConsumeResult} (hret : t.pc c = .tryPopReturned (.unexpected r)) :
    t = s.goto c (.tryPopReturned (.unexpected r)) := by
  cases ht with
  | quiet hq =>
    rw [State.goto_pc, update_self] at hret
    rw [hret]
  | tryPopElement =>
    change update s.pc c _ c = _ at hret
    simp at hret
  | _ => simp_all

/-- `c` has returned the element `e`, is going to return it, or is still suspended while the `push`
of the element has it in hand. -/
def State.Holds (s : State κ α) (c : κ) (e : α) : Prop :=
  s.pc c = .popReturned (.value e) ∨ s.pc c = .tryPopReturned (.value e) ∨
    (s.pc c = .popResume ∧ s.mElement c = some e) ∨
    (s.pc c = .popSuspended ∧ ∃ d, s.pc d = .handOff e c)

omit [DecidableEq κ] in
/-- The log of the delivered elements says who holds them. -/
lemma Delivered.mem_iff_holds (h : Delivered s) (hs : Sound s) (c : κ) (e : α) :
    (c, e) ∈ s.delivered ↔ s.Holds c e := by
  have hgets := h.gets c
  constructor
  · intro hmem
    cases hpc : s.pc c with
    | popReturned r =>
      rw [hpc] at hgets
      exact Or.inl (hpc.trans (congrArg _ ((hgets.1 e).mp hmem)))
    | tryPopReturned r =>
      rw [hpc] at hgets
      exact Or.inr (Or.inl (hpc.trans (congrArg _ ((hgets e).mp hmem))))
    | popResume =>
      rw [hpc] at hgets
      exact Or.inr (Or.inr (Or.inl ⟨hpc, (hgets.1 e).mp hmem⟩))
    | popSuspended => exact Or.inr (Or.inr (Or.inr ⟨hpc, h.exists_handOff hs hpc hmem⟩))
    | _ =>
      rw [hpc] at hgets
      exact (hgets e hmem).elim
  · rintro (hpc | hpc | ⟨hpc, helem⟩ | ⟨-, d, hd⟩)
    · rw [hpc] at hgets
      exact (hgets.1 e).mpr rfl
    · rw [hpc] at hgets
      exact (hgets e).mpr rfl
    · rw [hpc] at hgets
      exact (hgets.1 e).mpr helem
    · exact h.handed d e c hd

/-- The elements accepted so far are the elements delivered so far followed by the contents. -/
lemma order_of_reachable (h : (machine κ α).Reachable s) :
    s.accepted.map Prod.snd = s.delivered.map Prod.snd ++ s.mElements := by
  refine h.invariant (I := fun s => s.accepted.map Prod.snd =
    s.delivered.map Prod.snd ++ s.mElements) rfl ?_
  intro s a t hr horder hstep
  exact (step_transition hstep).order (sound_of_reachable hr) horder

/-- In every reachable state of a queue:
* there are no waiters or there are no elements;
* the elements accepted, in the order of the critical sections of the `push` calls, are the elements
  delivered, in the order in which they were assigned, followed by the contents of the queue;
* every call accepts at most one element, namely the one that it was called with, and has done so
  exactly if it has returned `produced` or is handing the element to a waiter;
* every call gets at most one element: it has returned it, or it is a `pop` that is going to return
  it, or one that is still suspended while the `push` of the element has it in hand;
* a `pop` that returns no element returns `stopped`, and only if the queue is stopped;
* a `try_pop` that returns no element leaves the queue as it was. -/
theorem fifo_exactly_once (h : (machine κ α).Reachable s) :
    (s.mWaiters = [] ∨ s.mElements = []) ∧
    s.accepted.map Prod.snd = s.delivered.map Prod.snd ++ s.mElements ∧
    ((s.accepted.map Prod.fst).Nodup ∧
      (∀ c e, (c, e) ∈ s.accepted ↔
        (s.pc c).Accepted ∧ (s.called c).bind Call.element = some e) ∧
      ∀ c, s.pc c = .pushReturned .produced → ∃ e, (c, e) ∈ s.accepted) ∧
    ((s.delivered.map Prod.fst).Nodup ∧
      (∀ c e, s.pc c = .popReturned (.value e) ∨ s.pc c = .tryPopReturned (.value e) →
        (c, e) ∈ s.delivered) ∧
      ∀ c e, (c, e) ∈ s.delivered →
        s.pc c = .popReturned (.value e) ∨ s.pc c = .tryPopReturned (.value e) ∨
        (s.pc c = .popResume ∧ s.mElement c = some e) ∨
        (s.pc c = .popSuspended ∧ ∃ d, s.pc d = .handOff e c)) ∧
    (∀ c r, s.pc c = .popReturned (.unexpected r) → r = .stopped ∧ s.mRunningState = .stopped) ∧
    (∀ c r a t, (machine κ α).step s a = some t → s.pc c = .tryPop →
      t.pc c = .tryPopReturned (.unexpected r) →
      t = s.goto c (.tryPopReturned (.unexpected r))) := by
  have hsound := sound_of_reachable h
  have haccepted := accepted_of_reachable h
  have hdelivered := delivered_of_reachable h
  refine ⟨hsound.exclusive, ?_, ⟨haccepted.nodup, haccepted.mem_iff, ?_⟩,
    ⟨hdelivered.nodup, ?_, ?_⟩, ?_, ?_⟩
  · exact order_of_reachable h
  · intro c hc
    have hcarries := haccepted.carries c
    rw [hc] at hcarries
    obtain ⟨e, he⟩ := Option.isSome_iff_exists.mp hcarries
    exact ⟨e, (haccepted.mem_iff c e).mpr ⟨by simp [hc, Pc.Accepted], he⟩⟩
  · rintro c e (hc | hc)
    · exact (hdelivered.mem_iff_holds hsound c e).mpr (Or.inl hc)
    · exact (hdelivered.mem_iff_holds hsound c e).mpr (Or.inr (Or.inl hc))
  · intro c e hmem
    exact (hdelivered.mem_iff_holds hsound c e).mp hmem
  · intro c r hc
    have hgets := hdelivered.gets c
    rw [hc] at hgets
    exact hgets.2 r rfl
  · intro c r a t hstep hc hret
    have ht := step_transition hstep
    rcases eq_or_ne c a.actor with rfl | hne
    · exact ht.tryPop_unexpected hc hret
    · rcases ht.pc_other hsound hne with hsame | hsusp
      · simp [hsame, hc] at hret
      · simp [hc] at hsusp

/-- A `pop` waits, a `push` takes it off the list and another `push` finds nobody; before the first
element arrives, a `try_pop` has returned the second one. -/
def overtakingTrace : List (Action ℕ ℕ) :=
  [.call 0 .pop, .advance 0, .call 1 (.push 10), .advance 1, .call 2 (.emplace 11), .advance 2,
    .call 3 .tryPop, .tryLockFails 3, .call 4 .tryPop, .advance 4]

/-- In the run above the elements are assigned in the order in which they were accepted, although
the first one is still on its way. -/
theorem fifo_exactly_once_overtaking : ∃ s : State ℕ ℕ,
    (machine ℕ ℕ).run start overtakingTrace = some s ∧ s.pc 0 = .popSuspended ∧
    s.pc 1 = .handOff 10 0 ∧ s.pc 4 = .tryPopReturned (.value 11) ∧
    s.accepted = [(1, 10), (2, 11)] ∧ s.delivered = [(0, 10), (4, 11)] ∧
    s.accepted.map Prod.snd = s.delivered.map Prod.snd ++ s.mElements :=
  ⟨_, rfl, rfl, rfl, rfl, rfl, rfl,
    (fifo_exactly_once (Machine.reachable_of_run (l := overtakingTrace) rfl)).2.1⟩

end Libcoro.Queue
