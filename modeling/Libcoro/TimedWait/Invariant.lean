import Libcoro.Foundations.Placement
import Libcoro.TimedWait.Transitions

/-!
# Where the awaiters are

Every awaiter that has been pushed and not yet been dealt with is on `m_awaiters` or in the hands of
one notifier, and in one place only.  So nobody but the notifier that has a hook in hand can decide
its race, beside its timeout task, and what the notifier knows about it (`Fits`) stays true.
`Sound` collects this together with the coherence of the waits.
-/

namespace Libcoro.TimedWait

open Foundations ConditionVariable Function

variable {ι ω μ δ : Type*}

/-- The awaiters that a notifier has taken off the list. -/
def Pc.inHand : Pc ω → List ω
  | .notifying ws | .spawning ws => ws
  | .hook _ w k => w :: k.getD []
  | _ => []

/-- What the coroutine `c` knows about the awaiters that it has in hand. -/
def Pc.Knows (wait : ω → Wait ι μ δ) (c : ι) : Pc ω → Prop
  | .notifying ws | .spawning ws => ∀ w ∈ ws, (wait w).winner ≠ some .notify
  | .hook st w k => Fits c st (wait w) ∧ ∀ x ∈ k.getD [], (wait x).winner ≠ some .notify
  | _ => True

/-- The awaiter has been pushed and not yet been dealt with. -/
def Wait.Parked (y : Wait ι μ δ) : Prop :=
  y.Pushed ∧ if y.timed then y.mNotifyCallback = false else y.resumptions = 0

/-- The caller is suspended in the wait. -/
def Wait.Live (y : Wait ι μ δ) : Prop :=
  y.controller ≠ .idle ∧ y.controller ≠ .ready ∧ y.resumptions = 0

/-- The awaiters in a place: the list, with what was lost, or the hands of a coroutine. -/
def State.places (s : State ι ω μ δ) : Option ι → List ω
  | none => s.mAwaiters ++ s.lost
  | some c => (s.pc c).inHand

/-- Whoever is in a wait is suspended. -/
def Callers (wait : ω → Wait ι μ δ) (pc : ι → Pc ω) : Prop :=
  ∀ w, (wait w).Live → pc (wait w).caller = .waiting w

/-- The waits are coherent, their awaiters in one place each, and their callers suspended. -/
structure Sound (s : State ι ω μ δ) : Prop where
  coherent : ∀ w, Coherent (s.wait w)
  placed : Placed s.places fun w => (s.wait w).Parked
  knows : ∀ c, (s.pc c).Knows s.wait c
  listed : ∀ w ∈ s.mAwaiters, (s.wait w).winner ≠ some .notify
  callers : Callers s.wait s.pc

/-! ## One wait -/

section Record

variable {y y' : Wait ι μ δ} {c : ι} {st st' : Stage}

/-- What a wait is about does not change. -/
lemma Silent.frame (h : Silent y y') : y'.caller = y.caller ∧ y'.mutex = y.mutex ∧
    y'.timed = y.timed ∧ y'.awaiter = y.awaiter ∧ y'.mPredicateResult = y.mPredicateResult ∧
    y'.resumptions = y.resumptions ∧ y'.mNotifyCallback = y.mNotifyCallback ∧
    (y'.Pushed ↔ y.Pushed) ∧ (y'.Live ↔ y.Live) := by
  cases h <;> simp_all [Wait.Pushed, Wait.Live]

/-- A notifier changes neither what a wait is about nor the state of its tasks. -/
lemma Visit.frame (h : Visit c st st' y y') : y'.caller = y.caller ∧ y'.mutex = y.mutex ∧
    y'.timed = y.timed ∧ y'.awaiter = y.awaiter ∧ y'.controller = y.controller ∧
    y'.timeout = y.timeout ∧ y'.resumptions = y.resumptions ∧
    y'.mNotifyCallback = y.mNotifyCallback := by
  cases h <;> simp

/-- A wait is coherent when it begins. -/
lemma Coherent.start {c : ι} {m : μ} {timed : Bool} {a : Awaiter δ} {stop : Bool} {d : δ} :
    Coherent (Wait.start c m timed a stop d) := by
  refine ⟨?_, fun _ => rfl, ⟨fun _ => ⟨rfl, rfl, fun _ => rfl, ?_⟩, ?_, ?_⟩, trivial, trivial, ?_⟩
  · cases hr : a.awaitReady d <;> simp [Started, Wait.start, Wait.idle, hr]
  · cases hr : a.awaitReady d <;> simp [Wait.start, hr]
  · simp [Wait.start, Wait.idle]
  · simp [Wait.start, Wait.idle]
  · simp [Wait.start, Wait.idle]

/-- A wait whose timeout task has won is in progress. -/
lemma Coherent.live_of_won (h : Coherent y) (ht : y.timeout.Won) : y.Live := by
  have hne : y.timeout ≠ .notStarted := by
    intro hn
    simp [hn] at ht
  obtain ⟨hctl, -⟩ := h.started.of_timeout hne
  exact ⟨by simp [hctl], by simp [hctl], (h.of_won ht).2.2.1⟩

/-- A wait whose callback task is about to resume the caller is in progress. -/
lemma Coherent.live_of_resuming (h : Coherent y) (hc : y.callback = .resuming) : y.Live := by
  obtain ⟨hctl, -⟩ := h.started.of_callback (by simp [hc])
  have hk := h.callback
  simp only [CallbackKnows, hc] at hk
  obtain ⟨-, -, ⟨-, hr⟩ | ⟨hdone, -⟩, -⟩ := h.race.by_notify hk.2
  · rcases hctl with ⟨hctl, -⟩ | hctl <;> exact ⟨by simp [hctl], by simp [hctl], hr⟩
  · rw [hc] at hdone
    cases hdone

/-- Nobody is in a wait whose caller has been resumed. -/
lemma Wait.not_live_resume : ¬ y.resume.Live := by
  simp [Wait.Live, Wait.resume]

/-- A notifier that does not complete a wait is not made the winner by its tasks. -/
lemma Move.winner_ne (h : Move y y') (hw : y.winner ≠ some .notify) :
    y'.winner ≠ some .notify := by
  cases h with
  | silent h => cases h <;> simp_all
  | _ => exact hw

end Record

/-! ## The hands of a notifier -/

section Hands

variable {wait : ω → Wait ι μ δ} {c : ι} {p : Pc ω} {w : ω} {y : Wait ι μ δ} [DecidableEq ω]

/-- A notifier does not care about an awaiter that it has not in hand. -/
lemma Pc.Knows.frame (h : p.Knows wait c) (hw : w ∉ p.inHand) :
    p.Knows (update wait w y) c := by
  have hother : ∀ x ∈ p.inHand, update wait w y x = wait x := by
    intro x hx
    have hxw : x ≠ w := fun hxw => hw (hxw ▸ hx)
    rw [update_of_ne hxw]
  cases p with
  | notifying ws | spawning ws =>
    intro x hx
    rw [hother x hx]
    exact h x hx
  | hook st v k =>
    refine ⟨?_, ?_⟩
    · rw [hother v List.mem_cons_self]
      exact h.1
    · intro x hx
      rw [hother x (List.mem_cons_of_mem v hx)]
      exact h.2 x hx
  | _ => trivial

/-- The tasks of a wait do not make outdated what a notifier knows. -/
lemma Pc.Knows.move (h : p.Knows wait c) (hw : Coherent (wait w)) (hm : Move (wait w) y) :
    p.Knows (update wait w y) c := by
  have hkeep : ∀ x, (wait x).winner ≠ some .notify →
      (update wait w y x).winner ≠ some .notify := by
    intro x hx
    rcases eq_or_ne x w with rfl | hxw
    · rw [update_self]
      exact hm.winner_ne hx
    · rwa [update_of_ne hxw]
  cases p with
  | notifying ws | spawning ws =>
    intro x hx
    exact hkeep x (h x hx)
  | hook st v k =>
    refine ⟨?_, fun x hx => hkeep x (h.2 x hx)⟩
    rcases eq_or_ne v w with rfl | hvw
    · rw [update_self]
      exact h.1.move hw hm
    · rw [update_of_ne hvw]
      exact h.1
  | _ => trivial

end Hands

namespace Callers

variable {wait : ω → Wait ι μ δ} {pc : ι → Pc ω} {c : ι} {w : ω} {y : Wait ι μ δ}

/-- A wait does not begin. -/
lemma setWait [DecidableEq ω] (h : Callers wait pc) (hcaller : y.caller = (wait w).caller)
    (hlive : y.Live → (wait w).Live) : Callers (update wait w y) pc := by
  intro x
  rcases eq_or_ne x w with rfl | hxw
  · rw [update_self, hcaller]
    exact fun hl => h x (hlive hl)
  · rw [update_of_ne hxw]
    exact h x

/-- Somebody who is not suspended is in no wait. -/
lemma ne_of_not_waiting (h : Callers wait pc) (hc : ∀ x, pc c ≠ .waiting x) {x : ω}
    (hx : (wait x).Live) : (wait x).caller ≠ c := by
  rintro rfl
  exact hc x (h x hx)

/-- Somebody whose wait has ended is in no other wait. -/
lemma ne_of_ended [DecidableEq ω] (h : Callers wait pc) (hw : (wait w).Live) (hy : ¬ y.Live) {x : ω}
    (hx : (update wait w y x).Live) :
    (update wait w y x).caller ≠ (wait w).caller := by
  rcases eq_or_ne x w with rfl | hxw
  · rw [update_self] at hx
    exact (hy hx).elim
  · rw [update_of_ne hxw] at hx ⊢
    intro heq
    have hpc := h x hx
    rw [heq, h w hw] at hpc
    exact hxw (Pc.waiting.inj hpc).symm

/-- A coroutine moves that is not in a wait. -/
lemma goto [DecidableEq ι] (h : Callers wait pc) (hc : ∀ x, (wait x).Live → (wait x).caller ≠ c)
    (p : Pc ω) : Callers wait (update pc c p) := by
  intro x hlive
  rw [update_of_ne (hc x hlive)]
  exact h x hlive

end Callers

/-! ## The system -/

section System

variable {s t : State ι ω μ δ} {c d : ι} {w : ω} {st st' : Stage} {k : Option (List ω)}
  {y : Wait ι μ δ} {p : Pc ω}

namespace Sound

/-- An awaiter in the hands of a coroutine is parked. -/
lemma parked_of_mem_hand (h : Sound s) (hw : w ∈ (s.pc c).inHand) : (s.wait w).Parked :=
  h.placed.of_mem (p := some c) hw

/-- An awaiter in the hands of a coroutine is not on the list. -/
lemma not_mem_list (h : Sound s) (hw : w ∈ (s.pc c).inHand) : w ∉ s.mAwaiters := by
  intro hlist
  have hplace := h.placed.unique none (some c) w (List.mem_append_left _ hlist) hw
  cases hplace

/-- An awaiter in the hands of a coroutine is in nobody else's hands. -/
lemma not_mem_hand (h : Sound s) (hw : w ∈ (s.pc c).inHand) (hd : d ≠ c) :
    w ∉ (s.pc d).inHand := by
  intro hother
  exact hd (Option.some.inj (h.placed.unique (some d) (some c) w hother hw))

/-- Nobody has a wait in hand that has not begun. -/
lemma not_mem_hand_of_idle (h : Sound s) (hw : (s.wait w).controller = .idle) (c : ι) :
    w ∉ (s.pc c).inHand := by
  intro hmem
  exact (h.parked_of_mem_hand hmem).1.1 hw

/-- A notifier does not meet the awaiter that it is notifying a second time. -/
lemma not_mem_rest (h : Sound s) (hc : s.pc c = .hook st w k) : w ∉ k.getD [] := by
  have hnodup := h.placed.nodup (some c)
  simp only [State.places, hc, Pc.inHand] at hnodup
  exact (List.nodup_cons.mp hnodup).1

/-- The awaiter that a notifier is notifying is in its hands. -/
lemma mem_hand (hc : s.pc c = .hook st w k) : w ∈ (s.pc c).inHand := by
  rw [hc]
  exact List.mem_cons_self

/-- Somebody about to resume a caller directly deals with an untimed wait that is in progress. -/
lemma of_resume (h : Sound s) (hc : s.pc c = .hook .resume w k) :
    (s.wait w).Pushed ∧ (s.wait w).timed = false ∧ (s.wait w).Live := by
  have hk := h.knows c
  rw [hc] at hk
  have htimed : (s.wait w).timed = false := hk.1
  obtain ⟨hpushed, hres⟩ := h.parked_of_mem_hand (mem_hand hc)
  rw [htimed] at hres
  exact ⟨hpushed, htimed, hpushed.1, hpushed.2.1, hres⟩

/-- Who owns what does not matter here. -/
lemma setOwner [DecidableEq μ] (h : Sound s) (m : μ) (o : Option (Holder ι ω)) :
    Sound (s.setOwner m o) :=
  { h with }

variable [DecidableEq ω]

/-- What a notifier does with a wait in its hands does not concern the list. -/
lemma listed_setWait (h : Sound s) (hw : w ∈ (s.pc c).inHand) :
    ∀ x ∈ s.mAwaiters, ((s.setWait w y).wait x).winner ≠ some .notify := by
  intro x hx
  have hxw : x ≠ w := by
    rintro rfl
    exact h.not_mem_list hw hx
  simpa [hxw] using h.listed x hx

/-- The tasks of a wait take a step that does not push its hook or deal with it. -/
lemma move (h : Sound s) (hm : Move (s.wait w) y) (hcaller : y.caller = (s.wait w).caller)
    (hpark : y.Parked ↔ (s.wait w).Parked) (hlive : y.Live → (s.wait w).Live) :
    Sound (s.setWait w y) := by
  refine ⟨?_, ?_, ?_, ?_, h.callers.setWait hcaller hlive⟩
  · exact (forall_update_iff s.wait fun _ z => Coherent z).mpr
      ⟨(h.coherent w).move hm, fun x _ => h.coherent x⟩
  · refine h.placed.congr (fun _ => rfl) fun x => ?_
    rcases eq_or_ne x w with rfl | hx
    · simpa using hpark
    · simp [hx]
  · intro c
    exact (h.knows c).move (h.coherent w) hm
  · intro x hx
    rcases eq_or_ne x w with rfl | hxw
    · simpa using hm.winner_ne (h.listed x hx)
    · simpa [hxw] using h.listed x hx

/-- The awaiter of a wait is pushed. -/
lemma push (h : Sound s) (hc : (s.wait w).controller = .push) :
    Sound { s.setWait w { s.wait w with controller := .unlock } with
      mAwaiters := w :: s.mAwaiters } := by
  have hst := (h.coherent w).started
  simp only [Started, hc] at hst
  obtain ⟨hcb, hto, hwin, hres⟩ := hst
  have hevent := ((h.coherent w).race.undecided hwin).2.1
  have hnot : ¬ (s.wait w).Parked := fun hp => hp.1.2.2 hc
  refine ⟨?_, ?_, ?_, ?_, ?_⟩
  · exact (forall_update_iff s.wait fun _ z => Coherent z).mpr
      ⟨(h.coherent w).move (.push hc), fun x _ => h.coherent x⟩
  · refine h.placed.enter (p := none) (x := w) hnot rfl (fun q hq => ?_) fun x => ?_
    · cases q with
      | none => exact (hq rfl).elim
      | some d => rfl
    · rcases eq_or_ne x w with rfl | hx
      · simp [Wait.Parked, Wait.Pushed, hevent, hres]
      · simp [hx]
  · intro c
    exact (h.knows c).move (h.coherent w) (.push hc)
  · intro x hx
    rcases eq_or_ne x w with rfl | hxw
    · simp [hwin]
    · have hold := h.listed x ((List.mem_cons.mp hx).resolve_left hxw)
      simpa [hxw] using hold
  · refine h.callers.setWait rfl ?_
    simp [Wait.Live, hc]

variable [DecidableEq ι]

/-- A notifier takes a step inside `on_notify`. -/
lemma visit (h : Sound s) (hc : s.pc c = .hook st w k) (hv : Visit c st st' (s.wait w) y) :
    Sound ((s.setWait w y).goto c (.hook st' w k)) := by
  have hmem := mem_hand hc
  have hknows := h.knows c
  rw [hc] at hknows
  obtain ⟨hf, hrest⟩ := hknows
  have hparked := h.parked_of_mem_hand hmem
  obtain ⟨hcaller, -, htimed, -, hctl, -, hres, hevent⟩ := hv.frame
  refine ⟨?_, ?_, ?_, ?_, ?_⟩
  · exact (forall_update_iff s.wait fun _ z => Coherent z).mpr
      ⟨(h.coherent w).visit hparked.1 hf hv, fun x _ => h.coherent x⟩
  · refine h.placed.congr (fun q => ?_) fun x => ?_
    · cases q with
      | none => rfl
      | some d =>
        rcases eq_or_ne d c with rfl | hd
        · simp [State.places, hc, Pc.inHand]
        · simp [State.places, hd]
    · rcases eq_or_ne x w with rfl | hx
      · simp [Wait.Parked, Wait.Pushed, htimed, hctl, hres, hevent]
      · simp [hx]
  · intro d
    rcases eq_or_ne d c with rfl | hd
    · simp only [State.goto, State.setWait, update_self]
      refine ⟨?_, ?_⟩
      · rw [update_self]
        exact hf.visit (h.coherent w) hv
      · intro x hx
        have hxw : x ≠ w := by
          rintro rfl
          exact h.not_mem_rest hc hx
        rw [update_of_ne hxw]
        exact hrest x hx
    · simpa [hd] using (h.knows d).frame (h.not_mem_hand hmem hd)
  · exact h.listed_setWait hmem
  · have hcallers := h.callers.setWait (y := y) hcaller (by simp [Wait.Live, hctl, hres])
    exact hcallers.goto (fun x => hcallers.ne_of_not_waiting (by simp [hc])) _

omit [DecidableEq ω] in
/-- Awaiters pass between the list and the hands of a coroutine. -/
lemma exchange (h : Sound s) (hc : ∀ x, (s.wait x).Live → (s.wait x).caller ≠ c)
    (l lost : List ω)
    (hperm : (l ++ lost ++ p.inHand).Perm (s.mAwaiters ++ s.lost ++ (s.pc c).inHand))
    (hknows : p.Knows s.wait c) (hlisted : ∀ x ∈ l, (s.wait x).winner ≠ some .notify) :
    Sound { s.goto c p with mAwaiters := l, lost := lost } := by
  refine ⟨h.coherent, ?_, ?_, hlisted, h.callers.goto hc p⟩
  · refine h.placed.pass (p := none) (q := some c) (by simp) ?_ (fun q hn hs => ?_) fun _ => Iff.rfl
    · simpa [State.places] using hperm
    · cases q with
      | none => exact (hn rfl).elim
      | some d =>
        have hd : d ≠ c := fun hdc => hs (congrArg some hdc)
        simp [State.places, hd]
  · exact (forall_update_iff s.pc fun d (q : Pc ω) => q.Knows s.wait d).mpr
      ⟨hknows, fun d _ => h.knows d⟩

omit [DecidableEq ω] in
/-- A coroutine moves without touching the awaiters. -/
lemma goto (h : Sound s) (hc : ∀ x, (s.wait x).Live → (s.wait x).caller ≠ c)
    (hhand : p.inHand = (s.pc c).inHand) (hknows : p.Knows s.wait c) : Sound (s.goto c p) :=
  h.exchange hc s.mAwaiters s.lost (by rw [hhand]) hknows h.listed

/-- A notifier is done with the awaiter that it has been notifying. -/
lemma drop (h : Sound s) (hc : s.pc c = .hook st w k) (hy : Coherent y)
    (hcaller : y.caller = (s.wait w).caller) (hlive : y.Live → (s.wait w).Live)
    (hpark : ¬ y.Parked) (hhand : p.inHand = k.getD [])
    (hknows : (∀ x ∈ k.getD [], (s.wait x).winner ≠ some .notify) → p.Knows s.wait c) :
    Sound ((s.setWait w y).goto c p) := by
  have hmem := mem_hand hc
  have hk := h.knows c
  rw [hc] at hk
  have hhand' : (s.pc c).inHand = w :: k.getD [] := by
    rw [hc]
    rfl
  have hcallers := h.callers.setWait hcaller hlive
  refine ⟨?_, ?_, ?_, ?_, hcallers.goto (fun x => hcallers.ne_of_not_waiting (by simp [hc])) p⟩
  · exact (forall_update_iff s.wait fun _ z => Coherent z).mpr
      ⟨hy, fun x _ => h.coherent x⟩
  · refine h.placed.leave (p := some c) (x := w) ?_ (fun q hq => ?_) fun x => ?_
    · simp [State.places, hhand', hhand]
    · cases q with
      | none => rfl
      | some d =>
        have hd : d ≠ c := fun hdc => hq (congrArg some hdc)
        simp [State.places, hd]
    · rcases eq_or_ne x w with rfl | hx
      · simp [hpark]
      · simp [hx]
  · intro d
    rcases eq_or_ne d c with rfl | hd
    · have hw : w ∉ p.inHand := by
        rw [hhand]
        exact h.not_mem_rest hc
      simpa using (hknows hk.2).frame hw
    · simpa [hd] using (h.knows d).frame (h.not_mem_hand hmem hd)
  · exact h.listed_setWait hmem

/-- The caller of a wait is resumed. -/
lemma wake (h : Sound s) (hw : (s.wait w).Live) (hy : ¬ y.Live)
    (hset : Sound (s.setWait w y)) : Sound ((s.setWait w y).goto (s.wait w).caller .running) := by
  have hpc := h.callers w hw
  refine hset.goto (fun x => h.callers.ne_of_ended hw hy) ?_ trivial
  simp [hpc, Pc.inHand]

/-- A wait begins, or finds its predicate true. -/
lemma start (h : Sound s) (hc : s.pc c = .running) (hw : (s.wait w).controller = .idle) {m : μ}
    {timed : Bool} {a : Awaiter δ} {stop : Bool} : Sound (wait s c w m timed a stop) := by
  have hnot : ¬ (s.wait w).Parked := fun hp => hp.1.1 hw
  have hhands := h.not_mem_hand_of_idle hw
  refine ⟨?_, ?_, ?_, ?_, ?_⟩
  · exact (forall_update_iff s.wait fun _ z => Coherent z).mpr
      ⟨.start, fun x _ => h.coherent x⟩
  · refine h.placed.congr (fun q => ?_) fun x => ?_
    · cases q with
      | none => rfl
      | some d =>
        rcases eq_or_ne d c with rfl | hd
        · cases hr : a.awaitReady (s.data m) <;>
            simp [State.places, TimedWait.wait, hc, hr, Pc.inHand]
        · simp [State.places, TimedWait.wait, hd]
    · rcases eq_or_ne x w with rfl | hx
      · cases hr : a.awaitReady (s.data m) <;>
          simp [TimedWait.wait, Wait.start, Wait.Parked, Wait.Pushed, hr, hw]
      · simp [TimedWait.wait, hx]
  · intro d
    rcases eq_or_ne d c with rfl | hd
    · cases hr : a.awaitReady (s.data m) <;>
        simp [TimedWait.wait, hr, Pc.Knows]
    · simpa [TimedWait.wait, hd] using (h.knows d).frame (hhands d)
  · intro x hx
    have hxw : x ≠ w := by
      rintro rfl
      exact hnot (h.placed.of_mem (p := none) (List.mem_append_left _ hx))
    simpa [TimedWait.wait, hxw] using h.listed x hx
  · intro x hlive
    rcases eq_or_ne x w with rfl | hxw
    · cases hr : a.awaitReady (s.data m)
      · simp [TimedWait.wait, Wait.start, Wait.idle, hr]
      · simp [TimedWait.wait, Wait.start, Wait.Live, hr] at hlive
    · have hold : (s.wait x).Live := by
        simpa [TimedWait.wait, hxw] using hlive
      have hne := h.callers.ne_of_not_waiting (c := c) (by simp [hc]) hold
      simpa [TimedWait.wait, hxw, hne] using h.callers x hold

/-- The tasks of a timed wait resume its caller. -/
lemma resume [DecidableEq μ] (h : Sound s) (hw : (s.wait w).Live)
    (hm : Move (s.wait w) y.resume) (hcaller : y.caller = (s.wait w).caller)
    (hpark : y.resume.Parked ↔ (s.wait w).Parked) : Sound (s.resume w y) := by
  have hset := h.move hm hcaller hpark fun hl => (Wait.not_live_resume hl).elim
  have hwake := h.wake hw Wait.not_live_resume hset
  rw [← hcaller] at hwake
  exact hwake.setOwner y.mutex (some (.coroutine y.caller))

omit [DecidableEq ω] in
/-- A coroutine passes an awaiter that it has in hand to a new one. -/
lemma handOver (h : Sound s) {e : ι} {q : Pc ω} (hce : c ≠ e) (hc : ∀ x, s.pc c ≠ .waiting x)
    (he : s.pc e = .unused) (hperm : (p.inHand ++ q.inHand).Perm (s.pc c).inHand)
    (hp : p.Knows s.wait c) (hq : q.Knows s.wait e) : Sound ((s.goto e q).goto c p) := by
  have hcallers := h.callers.goto (fun x => h.callers.ne_of_not_waiting (c := e) (by simp [he])) q
  refine ⟨h.coherent, ?_, ?_, h.listed, hcallers.goto (fun x => ?_) p⟩
  · refine h.placed.pass (p := some c) (q := some e) (by simpa using hce) ?_ (fun r hn hs => ?_)
      fun _ => Iff.rfl
    · simpa [State.places, hce.symm, he, Pc.inHand] using hperm
    · cases r with
      | none => rfl
      | some d =>
        have hd : d ≠ c := fun hdc => hn (congrArg some hdc)
        have hd' : d ≠ e := fun hde => hs (congrArg some hde)
        simp [State.places, hd, hd']
  · intro d
    rcases eq_or_ne d c with rfl | hd
    · simpa using hp
    · rcases eq_or_ne d e with rfl | hd'
      · simpa [hd] using hq
      · simpa [hd, hd'] using h.knows d
  · exact h.callers.ne_of_not_waiting hc

/-- A notifier sets the event of the hook that it has been notifying. -/
lemma leave (h : Sound s) (hc : s.pc c = .hook st w k) {v : CvStatus}
    (hs : (s.wait w).mStatus = some v) (hhand : p.inHand = k.getD [])
    (hknows : (∀ x ∈ k.getD [], (s.wait x).winner ≠ some .notify) → p.Knows s.wait c) :
    Sound ((s.setWait w (s.wait w).set).goto c p) := by
  have hpushed := (h.parked_of_mem_hand (mem_hand hc)).1
  have hw := (h.coherent w).race.winner_of_status hpushed.2.1 hs
  have htimed : (s.wait w).timed = true := by
    by_contra hf
    rw [(h.coherent w).untimed (by simpa using hf)] at hw
    cases hw
  refine h.drop hc ((h.coherent w).set hpushed hs) rfl id ?_ hhand hknows
  simp [Wait.Parked, Wait.set, htimed]

/-- A notifier resumes the caller of an untimed wait. -/
lemma resumeUntimed [DecidableEq μ] (h : Sound s) (hc : s.pc c = .hook .resume w k)
    (hhand : p.inHand = k.getD [])
    (hknows : (∀ x ∈ k.getD [], (s.wait x).winner ≠ some .notify) → p.Knows s.wait c) :
    Sound ((s.resume w (s.wait w)).goto c p) := by
  obtain ⟨hpushed, htimed, hlive⟩ := h.of_resume hc
  have hpc := h.callers w hlive
  have hne : (s.wait w).caller ≠ c := h.callers.ne_of_not_waiting (by simp [hc]) hlive
  have hpark : ¬ (s.wait w).resume.Parked := by simp [Wait.Parked, Wait.resume, htimed]
  have hdrop := h.drop hc ((h.coherent w).resume_untimed hpushed htimed) rfl
    (fun hl => (Wait.not_live_resume hl).elim) hpark hhand hknows
  have hwake := hdrop.goto (c := (s.wait w).caller) (p := .running)
    (fun x => h.callers.ne_of_ended hlive Wait.not_live_resume)
    (by simp [hne, hpc, Pc.inHand]) trivial
  have heq : ((s.setWait w (s.wait w).resume).goto c p).goto (s.wait w).caller .running =
      ((s.setWait w (s.wait w).resume).goto (s.wait w).caller .running).goto c p := by
    simp only [State.goto, update_comm hne.symm]
  rw [heq] at hwake
  exact hwake.setOwner (s.wait w).mutex (some (.coroutine (s.wait w).caller))

end Sound

/-! ## One step -/

/-- The awaiter that a notifier begins to notify is in its hands. -/
@[simp] lemma State.visit_inHand : (s.visit w k).inHand = w :: k.getD [] := rfl

/-- What a notifier knows when it begins to notify an awaiter. -/
lemma State.visit_knows (hw : (s.wait w).winner ≠ some .notify)
    (hk : ∀ x ∈ k.getD [], (s.wait x).winner ≠ some .notify) : (s.visit w k).Knows s.wait c := by
  refine ⟨?_, hk⟩
  split
  · next ht => exact ⟨ht, hw⟩
  · next ht => exact fun ht' => (ht ht').elim

/-- A quiet step moves somebody who is not suspended and leaves the awaiters where they are. -/
lemma Quiet.spec {q : Pc ω} (hq : Quiet s q p) (hk : q.Knows s.wait c) :
    (∀ x, q ≠ .waiting x) ∧ p.inHand = q.inHand ∧ p.Knows s.wait c := by
  cases hq with
  | next =>
    exact ⟨by simp, rfl, State.visit_knows (hk _ List.mem_cons_self)
      fun x hx => hk x (List.mem_cons_of_mem _ hx)⟩
  | _ => exact ⟨by simp, rfl, trivial⟩

/-- Where a notifier goes on keeps what it has in hand. -/
lemma Leaves.spec (hl : Leaves k st p) : p.inHand = k.getD [] ∧
    ((∀ x ∈ k.getD [], (s.wait x).winner ≠ some .notify) → p.Knows s.wait c) := by
  cases hl <;> cases k
  exacts [⟨rfl, fun _ => trivial⟩, ⟨rfl, id⟩, ⟨rfl, fun _ => trivial⟩, ⟨rfl, id⟩]

/-- A `notify_all` that detaches the awaiters has them in hand afterwards. -/
lemma Detaches.spec {q : Pc ω} {ws : List ω} (hd : Detaches ws q p)
    (hws : ∀ x ∈ ws, (s.wait x).winner ≠ some .notify) :
    (∀ x, q ≠ .waiting x) ∧ q.inHand = [] ∧ p.inHand = ws ∧ p.Knows s.wait c := by
  cases hd <;> exact ⟨by simp, rfl, rfl, hws⟩

variable [DecidableEq ι] [DecidableEq ω] [DecidableEq μ]

/-- Every step keeps the waits coherent and their awaiters in place. -/
lemma Sound.step (h : Sound s) (ht : Transition s t) : Sound t := by
  cases ht with
  | @quiet c p hq =>
    obtain ⟨hc, hhand, hknows⟩ := hq.spec (h.knows c)
    exact h.goto (fun x => h.callers.ne_of_not_waiting hc) hhand hknows
  | lock | unlock => exact h.setOwner _ _
  | write => exact { h with }
  | wait hc _ hw => exact h.start hc hw
  | silent hs =>
    obtain ⟨hcaller, -, htimed, -, -, hres, hevent, hpushed, hlive⟩ := hs.frame
    exact h.move (.silent hs) hcaller (by simp [Wait.Parked, htimed, hres, hevent, hpushed])
      hlive.mp
  | push hc => exact h.push hc
  | @suspend w hc =>
    refine (h.move (.unlock hc) rfl ?_ ?_).setOwner _ _
    · cases ht : (s.wait w).timed <;> simp [Wait.Parked, Wait.Pushed, hc, ht]
    · simp [Wait.Live, hc]
  | timeoutLock ht _ => exact (h.move (.lock ht) rfl Iff.rfl id).setOwner _ _
  | timeoutEvaluate ht => exact h.move (.evaluate ht) rfl Iff.rfl id
  | @resumeNotified w hc =>
    have htimed := ((h.coherent w).started.of_callback (by simp [hc])).2
    refine h.resume ((h.coherent w).live_of_resuming hc) (.resumeNotified hc) rfl ?_
    simp [Wait.Parked, Wait.Pushed, Wait.resume, htimed]
  | @resumeTimedOut w ht =>
    have htimed := ((h.coherent w).started.of_timeout (by simp [ht])).2
    refine h.resume ((h.coherent w).live_of_won (by simp [ht])) (.resumeTimedOut ht)
      rfl ?_
    simp [Wait.Parked, Wait.Pushed, Wait.resume, htimed]
  | @popOne c w ws hc hws =>
    have hlisted := h.listed
    rw [hws] at hlisted
    refine h.exchange (fun x => h.callers.ne_of_not_waiting (by simp [hc])) ws s.lost ?_
      (State.visit_knows (hlisted w List.mem_cons_self) (by simp))
      fun x hx => hlisted x (List.mem_cons_of_mem w hx)
    have hnil : (s.pc c).inHand = [] := by
      rw [hc]
      rfl
    simpa [hnil, hws] using List.perm_append_singleton w (ws ++ s.lost)
  | @popAll c p hd =>
    obtain ⟨hc, hnil, hhand, hknows⟩ := hd.spec (c := c) h.listed
    refine h.exchange (fun x => h.callers.ne_of_not_waiting hc) [] s.lost ?_ hknows (by simp)
    simpa [hnil, hhand] using List.perm_append_comm
  | @spawn c e w ws hc he =>
    have hk := h.knows c
    rw [hc] at hk
    have hce : c ≠ e := by
      rintro rfl
      rw [hc] at he
      cases he
    refine h.handOver hce (by simp [hc]) he ?_ (fun x hx => hk x (List.mem_cons_of_mem w hx))
      (State.visit_knows (hk w List.mem_cons_self) (by simp))
    rw [hc]
    exact List.perm_append_singleton w ws
  | @refuse c w ws hc =>
    have hk := h.knows c
    rw [hc] at hk
    refine h.exchange (fun x => h.callers.ne_of_not_waiting (by simp [hc])) s.mAwaiters
      (w :: s.lost) ?_ (fun x hx => hk x (List.mem_cons_of_mem w hx)) h.listed
    rw [hc, List.append_assoc, List.append_assoc]
    exact List.perm_middle.symm.append_left s.mAwaiters
  | visit hc hv => exact h.visit hc hv
  | @hookLock c w k hc _ =>
    have hvisit := h.visit hc .lock
    rw [s.setWait_self] at hvisit
    exact hvisit.setOwner _ _
  | complete hc => exact (h.visit hc .complete).setOwner _ _
  | @hookUnlock c st w k hc hv _ =>
    have hvisit := h.visit hc hv
    rw [s.setWait_self] at hvisit
    exact hvisit.setOwner _ _
  | @leave c st w k p hc hl =>
    have hk := h.knows c
    rw [hc] at hk
    obtain ⟨hhand, hknows⟩ := hl.spec (s := s) (c := c)
    cases hl with
    | dead | notified => exact h.leave hc hk.1 hhand hknows
  | @requeue c w k hc =>
    have hk := h.knows c
    rw [hc] at hk
    obtain ⟨hhand, hknows⟩ := (Leaves.notified (k := k)).spec (s := s) (c := c)
    refine h.exchange (fun x => h.callers.ne_of_not_waiting (by simp [hc])) (w :: s.mAwaiters)
      s.lost ?_ (hknows hk.2) ?_
    · rw [hc, hhand]
      exact List.perm_middle.symm
    · intro x hx
      rcases List.mem_cons.mp hx with rfl | hx
      · exact hk.1
      · exact h.listed x hx
  | @resume c w k hc =>
    obtain ⟨hhand, hknows⟩ := (Leaves.notified (k := k)).spec (s := s) (c := c)
    exact h.resumeUntimed hc hhand hknows

end System

end Libcoro.TimedWait
