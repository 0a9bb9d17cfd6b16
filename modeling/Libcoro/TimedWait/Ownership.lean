import Libcoro.Foundations.Ownership
import Libcoro.TimedWait.Invariant

/-!
# Who holds the mutex of the user

Between the evaluation of its predicate and the resumption of its caller a wait has the mutex of the
user to itself: first the notifier owns it, and from the moment on in which the race is decided the
wait does, until its caller takes over.  A timeout task takes it for the wait after it has won.
`Guarded` says so, and that the result of the predicate is the value on the current data as long as
this lasts.
-/

namespace Libcoro.TimedWait

open Foundations ConditionVariable Function

variable {ι ω μ δ : Type*}

namespace Wait

/-- The caller has not yet released the mutex. -/
def Starting (y : Wait ι μ δ) : Prop :=
  y.controller = .push ∨ y.controller = .unlock

/-- The mutex is held for the wait. -/
def Holds (y : Wait ι μ δ) : Prop :=
  (y.winner = some .notify ∧ y.resumptions = 0) ∨ y.timeout = .evaluate ∨ y.timeout = .resume

/-- The result of the wait is there and the caller has not been resumed. -/
def Settled (y : Wait ι μ δ) : Prop :=
  (y.winner = some .notify ∧ y.resumptions = 0) ∨ y.timeout = .resume

end Wait

/-- The mutex that the coroutine `c` needs on account of its control point. -/
@[simp] def Pc.Claims (wait : ω → Wait ι μ δ) (c : ι) (m : μ) : Pc ω → Prop
  | .hook st w _ => st.Locked ∧ (wait w).mutex = m
  | .waiting w => (wait w).Starting ∧ (wait w).caller = c ∧ (wait w).mutex = m
  | _ => False

/-- Who needs which mutex. -/
def Claims (wait : ω → Wait ι μ δ) (pc : ι → Pc ω) : Holder ι ω → μ → Prop
  | .coroutine c, m => (pc c).Claims wait c m
  | .wait w, m => (wait w).Holds ∧ (wait w).mutex = m

/-- No wait is over before it has released the mutex, and the results are up to date. -/
structure Current (s : State ι ω μ δ) : Prop where
  starting : ∀ w, (s.wait w).Starting → (s.wait w).resumptions = 0
  settled : ∀ w, (s.wait w).Settled → (s.wait w).Agrees (s.data (s.wait w).mutex)
  evaluated : ∀ c w k, s.pc c = .hook .complete w k →
    (s.wait w).Agrees (s.data (s.wait w).mutex)

/-- The mutexes belong to those who need them, and the results are up to date. -/
structure Guarded (s : State ι ω μ δ) : Prop extends Sound s, Current s where
  owned : Owned s.owner (Claims s.wait s.pc)

/-! ## One wait -/

section Record

variable {y y' : Wait ι μ δ} {c : ι} {st st' : Stage}

/-- A silent step does not take the mutex. -/
lemma Silent.not_new (h : Silent y y') : (y'.Starting → y.Starting) ∧ (y'.Holds → y.Holds) ∧
    (y'.Settled → y.Settled) := by
  cases h <;> simp_all [Wait.Starting, Wait.Holds, Wait.Settled]

/-- A notifier evaluates a hook whose race is open. -/
lemma Coherent.not_settled (h : Coherent y) (hf : Fits c .evaluate y) : ¬ y.Settled := by
  rintro (⟨hw, -⟩ | ht)
  · cases htimed : y.timed with
    | true => simp [(hf htimed).2] at hw
    | false => simp [h.untimed htimed] at hw
  · have hwon := (h.of_won (by simp [ht])).1
    cases htimed : y.timed with
    | true => simp [(hf htimed).2] at hwon
    | false => simp [h.untimed htimed] at hwon

/-- Only the evaluation changes the result of the predicate. -/
lemma Visit.result_eq (h : Visit c st st' y y') :
    st = .evaluate ∨ y'.mPredicateResult = y.mPredicateResult := by
  cases h <;> simp

end Record

/-! ## Claims under elementary changes -/

namespace Claims

variable {wait : ω → Wait ι μ δ} {pc : ι → Pc ω} {c : ι} {w : ω} {y : Wait ι μ δ} {p : Pc ω}
  {h : Holder ι ω} {m : μ}

/-- The claims after a coroutine has moved. -/
lemma goto [DecidableEq ι] (hclaim : Claims wait (update pc c p) h m) :
    (Claims wait pc h m ∧ h ≠ .coroutine c) ∨ (h = .coroutine c ∧ p.Claims wait c m) := by
  cases h with
  | wait w => exact Or.inl ⟨hclaim, by simp⟩
  | coroutine d =>
    rcases eq_or_ne d c with rfl | hd
    · exact Or.inr ⟨rfl, by simpa [Claims] using hclaim⟩
    · exact Or.inl ⟨by simpa [Claims, hd] using hclaim, by simpa using hd⟩

/-- A coroutine that moves without claiming a mutex adds no claim. -/
lemma of_goto [DecidableEq ι] (hclaim : Claims wait (update pc c p) h m)
    (hp : ∀ n, ¬ p.Claims wait c n) : Claims wait pc h m ∧ h ≠ .coroutine c := by
  rcases hclaim.goto with hold | ⟨-, hnew⟩
  · exact hold
  · exact (hp m hnew).elim

variable [DecidableEq ω]

/-- The claims after a wait has changed. -/
lemma setWait (hclaim : Claims (update wait w y) pc h m) (hm : y.mutex = (wait w).mutex)
    (hcaller : y.caller = (wait w).caller) (hstart : y.Starting → (wait w).Starting) :
    (Claims wait pc h m ∧ h ≠ .wait w) ∨ (h = .wait w ∧ y.Holds ∧ (wait w).mutex = m) := by
  cases h with
  | wait x =>
    rcases eq_or_ne x w with rfl | hx
    · exact Or.inr ⟨rfl, by simpa [Claims, hm] using hclaim⟩
    · exact Or.inl ⟨by simpa [Claims, hx] using hclaim, by simpa using hx⟩
  | coroutine c =>
    refine Or.inl ⟨?_, by simp⟩
    simp only [Claims] at hclaim ⊢
    cases hpc : pc c with
    | hook st x k =>
      rw [hpc] at hclaim
      rcases eq_or_ne x w with rfl | hx
      · simpa [hm] using hclaim
      · simpa [hx] using hclaim
    | waiting x =>
      rw [hpc] at hclaim
      rcases eq_or_ne x w with rfl | hx
      · simp only [Pc.Claims, update_self, hm, hcaller] at hclaim
        exact ⟨hstart hclaim.1, hclaim.2⟩
      · simpa [hx] using hclaim
    | _ =>
      rw [hpc] at hclaim
      exact hclaim.elim

/-- A wait that changes without coming to hold the mutex adds no claim. -/
lemma of_setWait (hclaim : Claims (update wait w y) pc h m)
    (hm : y.mutex = (wait w).mutex) (hcaller : y.caller = (wait w).caller)
    (hstart : y.Starting → (wait w).Starting) (hholds : y.Holds → (wait w).Holds) :
    Claims wait pc h m := by
  rcases hclaim.setWait hm hcaller hstart with ⟨hold, -⟩ | ⟨rfl, hy, rfl⟩
  · exact hold
  · exact ⟨hholds hy, rfl⟩

/-- A wait that does not hold the mutex afterwards has no claim. -/
lemma of_setWait_not (hclaim : Claims (update wait w y) pc h m)
    (hm : y.mutex = (wait w).mutex) (hcaller : y.caller = (wait w).caller)
    (hstart : y.Starting → (wait w).Starting) (hholds : ¬ y.Holds) :
    Claims wait pc h m ∧ h ≠ .wait w := by
  rcases hclaim.setWait hm hcaller hstart with hold | ⟨-, hy, -⟩
  · exact hold
  · exact (hholds hy).elim

end Claims

/-! ## The claims after a step -/

section Owned

variable {s t : State ι ω μ δ} {wait : ω → Wait ι μ δ} {c : ι} {w : ω} {k : Option (List ω)}
  {p : Pc ω} {st : Stage}

/-- A notifier that begins to notify an awaiter needs no mutex yet. -/
lemma State.visit_not_claims (m : μ) : ¬ (s.visit w k).Claims wait c m := by
  rintro ⟨hl, -⟩
  split at hl <;> exact hl

/-- A quiet step leads to a control point that needs no mutex. -/
lemma Quiet.not_claims {q : Pc ω} (hq : Quiet s q p) (m : μ) : ¬ p.Claims wait c m := by
  cases hq with
  | next => exact State.visit_not_claims m
  | _ => exact id

/-- A notifier that detaches the awaiters needs no mutex. -/
lemma Detaches.not_claims {q : Pc ω} {ws : List ω} (hd : Detaches ws q p) (m : μ) :
    ¬ p.Claims wait c m := by
  cases hd <;> exact id

/-- A notifier that leaves `on_notify` needs no mutex. -/
lemma Leaves.not_claims (hl : Leaves k st p) (m : μ) : ¬ p.Claims wait c m := by
  cases hl <;> cases k <;> exact id

namespace Guarded

/-- The caller of a wait that has not released the mutex owns it and is suspended. -/
lemma owner_of_starting (h : Guarded s) (hw : (s.wait w).Starting) :
    s.owner (s.wait w).mutex = some (.coroutine (s.wait w).caller) ∧
      s.pc (s.wait w).caller = .waiting w := by
  have hctl : (s.wait w).controller ≠ .idle ∧ (s.wait w).controller ≠ .ready := by
    rcases hw with hw | hw <;> simp [hw]
  have hpc := h.callers w ⟨hctl.1, hctl.2, h.starting w hw⟩
  refine ⟨h.owned _ _ ?_, hpc⟩
  change (s.pc _).Claims s.wait _ _
  rw [hpc]
  exact ⟨hw, rfl, rfl⟩

/-- A notifier in a locked stage owns the mutex of the awaiter. -/
lemma owner_of_locked (h : Guarded s) (hc : s.pc c = .hook st w k) (hst : st.Locked) :
    s.owner (s.wait w).mutex = some (.coroutine c) := by
  refine h.owned _ _ ?_
  change (s.pc c).Claims s.wait c _
  rw [hc]
  exact ⟨hst, rfl⟩

/-- A wait for which the mutex is held owns it. -/
lemma owner_of_holds (h : Guarded s) (hw : (s.wait w).Holds) :
    s.owner (s.wait w).mutex = some (.wait w) :=
  h.owned _ _ ⟨hw, rfl⟩

variable [DecidableEq ι] [DecidableEq ω]

/-- A wait begins with the mutex of its caller. -/
lemma owned_wait (h : Guarded s) {m : μ} (hown : s.owner m = some (.coroutine c))
    (hw : (s.wait w).controller = .idle) {timed : Bool} {a : Awaiter δ} {stop : Bool} :
    Owned (TimedWait.wait s c w m timed a stop).owner
      (Claims (TimedWait.wait s c w m timed a stop).wait
        (TimedWait.wait s c w m timed a stop).pc) := by
  intro b n hclaim
  rcases hclaim.goto with ⟨hold, hne⟩ | ⟨rfl, hnew⟩
  · replace hold : Claims (update s.wait w (Wait.start c m timed a stop (s.data m))) s.pc b n :=
      hold
    refine h.owned b n ?_
    cases b with
    | wait x =>
      rcases eq_or_ne x w with rfl | hx
      · simp [Claims, Wait.start, Wait.idle, Wait.Holds] at hold
      · simpa [Claims, hx] using hold
    | coroutine d =>
      have hd : c ≠ d := fun hcd => hne (congrArg Holder.coroutine hcd.symm)
      simp only [Claims] at hold ⊢
      cases hpc : s.pc d with
      | hook st x k =>
        rw [hpc] at hold
        have hx : x ≠ w := by
          rintro rfl
          exact h.not_mem_hand_of_idle hw d (Sound.mem_hand hpc)
        simpa [hx] using hold
      | waiting x =>
        rw [hpc] at hold
        rcases eq_or_ne x w with rfl | hx
        · simp [Wait.start, Wait.idle, hd] at hold
        · simpa [hx] using hold
      | _ =>
        rw [hpc] at hold
        exact hold.elim
  · split at hnew
    · exact hnew.elim
    · obtain ⟨-, -, rfl⟩ := hnew
      simpa [TimedWait.wait, Wait.start, Wait.idle] using hown

variable [DecidableEq μ]

/-- A wait for which the mutex is held passes it on to its caller. -/
lemma owned_resume (h : Guarded s) {y : Wait ι μ δ} (hw : (s.wait w).Holds)
    (hm : y.mutex = (s.wait w).mutex) (hcaller : y.caller = (s.wait w).caller)
    (hstart : y.Starting → (s.wait w).Starting) (hholds : ¬ y.resume.Holds) :
    Owned (s.resume w y).owner (Claims (s.resume w y).wait (s.resume w y).pc) := by
  have hown := h.owner_of_holds hw
  rw [← hm] at hown
  refine h.owned.pass hown _ fun b n hk => ?_
  obtain ⟨hold, hne⟩ := (hk.of_goto fun _ => id).1.of_setWait_not hm hcaller hstart hholds
  exact Or.inl ⟨hold, fun hb => (hne hb).elim⟩

/-- The mutexes belong to those who need them after every step. -/
lemma owned_step (h : Guarded s) (ht : Transition s t) : Owned t.owner (Claims t.wait t.pc) := by
  cases ht with
  | quiet hq => exact h.owned.mono fun _ _ hk => (hk.of_goto hq.not_claims).1
  | lock _ hfree => exact h.owned.acquire hfree fun _ _ hk => Or.inl hk
  | @unlock c m hc hown =>
    refine h.owned.release hown fun b n hk => ⟨hk, ?_⟩
    rintro rfl
    simp [Claims, hc] at hk
  | write => exact h.owned
  | wait _ hown hw => exact h.owned_wait hown hw
  | silent hs =>
    obtain ⟨hcaller, hm, -⟩ := hs.frame
    obtain ⟨hstart, hholds, -⟩ := hs.not_new
    exact h.owned.mono fun _ _ hk => hk.of_setWait hm hcaller hstart hholds
  | push hc => exact h.owned.mono fun _ _ hk => hk.of_setWait rfl rfl (fun _ => Or.inl hc) id
  | @suspend w hc =>
    obtain ⟨hown, hpc⟩ := h.owner_of_starting (Or.inr hc)
    have hnot : ¬ ({ s.wait w with
        controller := if (s.wait w).timed then .startCallback else .done } :
          Wait ι μ δ).Starting := by
      cases ht : (s.wait w).timed <;> simp [Wait.Starting]
    refine h.owned.release hown fun b n hk =>
      ⟨hk.of_setWait rfl rfl (fun hs => (hnot hs).elim) id, ?_⟩
    rintro rfl
    replace hk : (s.pc (s.wait w).caller).Claims _ _ n := hk
    rw [hpc] at hk
    exact (hnot (by simpa using hk.1)).elim
  | @timeoutLock w ht hfree =>
    refine h.owned.acquire hfree fun b n hk => ?_
    rcases hk.setWait rfl rfl id with ⟨hold, -⟩ | ⟨rfl, -, rfl⟩
    · exact Or.inl hold
    · exact Or.inr ⟨rfl, rfl⟩
  | timeoutEvaluate ht =>
    exact h.owned.mono fun _ _ hk => hk.of_setWait rfl rfl id fun _ => Or.inr (Or.inl ht)
  | @resumeNotified w hc =>
    have hk := (h.coherent w).callback
    simp only [CallbackKnows, hc] at hk
    have hlive := (h.coherent w).live_of_resuming hc
    have hwon := ((h.coherent w).race.by_notify hk.2).2.1
    refine h.owned_resume (.inl ⟨hk.2, hlive.2.2⟩) rfl rfl id ?_
    rintro (⟨-, hr⟩ | ht | ht)
    · simp [Wait.resume] at hr
    all_goals
      have ht' : (s.wait w).timeout = _ := ht
      simp [ht'] at hwon
  | @resumeTimedOut w ht =>
    have hw := ((h.coherent w).of_won (by simp [ht])).1
    refine h.owned_resume (.inr (.inr ht)) rfl rfl id ?_
    simp [Wait.Holds, Wait.resume, hw]
  | popOne => exact h.owned.mono fun _ _ hk => (hk.of_goto State.visit_not_claims).1
  | popAll hd => exact h.owned.mono fun _ _ hk => (hk.of_goto hd.not_claims).1
  | spawn =>
    refine h.owned.mono fun _ _ hk => ?_
    exact ((hk.of_goto fun _ => id).1.of_goto State.visit_not_claims).1
  | refuse => exact h.owned.mono fun _ _ hk => (hk.of_goto fun _ => id).1
  | @visit c st st' w k y hc hv hl hw hd =>
    obtain ⟨hcaller, hm, -, -, hctl, hto, hres, -⟩ := hv.frame
    refine h.owned.mono fun b n hk => ?_
    rcases hk.goto with ⟨hset, -⟩ | ⟨rfl, hst, hn⟩
    · exact hset.of_setWait hm hcaller (by simp [Wait.Starting, hctl])
        (by simp [Wait.Holds, hw, hto, hres])
    · replace hn : (update s.wait w y w).mutex = n := hn
      rw [update_self, hm] at hn
      change (s.pc c).Claims s.wait c n
      rw [hc]
      exact ⟨hl hst, hn⟩
  | @hookLock c w k hc hfree =>
    refine h.owned.acquire hfree fun b n hk => ?_
    rcases hk.goto with ⟨hold, -⟩ | ⟨rfl, -, rfl⟩
    · exact Or.inl hold
    · exact Or.inr ⟨rfl, rfl⟩
  | @complete c w k hc =>
    refine h.owned.pass (h.owner_of_locked hc trivial) _ fun b n hk => ?_
    obtain ⟨hset, hne⟩ := hk.of_goto fun n hk => hk.1
    rcases hset.setWait rfl rfl id with ⟨hold, -⟩ | ⟨rfl, -, rfl⟩
    · exact Or.inl ⟨hold, fun hb => (hne hb).elim⟩
    · exact Or.inr ⟨rfl, rfl⟩
  | @hookUnlock c st w k hc hv hl =>
    refine h.owned.release (h.owner_of_locked hc trivial) fun b n hk => ?_
    obtain ⟨hold, hne⟩ := hk.of_goto fun n hk => hl hk.1
    exact ⟨hold, fun hb => (hne hb).elim⟩
  | leave hc hl =>
    refine h.owned.mono fun _ _ hk => ?_
    exact (hk.of_goto hl.not_claims).1.of_setWait rfl rfl id id
  | requeue => exact h.owned.mono fun _ _ hk => (hk.of_goto Leaves.notified.not_claims).1
  | @resume c w k hc =>
    have hf := h.knows c
    rw [hc] at hf
    have htimed : (s.wait w).timed = false := hf.1
    have hw := (h.coherent w).untimed htimed
    have hto : ¬ (s.wait w).timeout.Won := fun ht => by simp [((h.coherent w).of_won ht).1] at hw
    have hnot : ¬ (s.wait w).resume.Holds := by
      rintro (⟨hn, -⟩ | ht | ht)
      · simp [Wait.resume, hw] at hn
      all_goals
        have ht' : (s.wait w).timeout = _ := ht
        simp [ht'] at hto
    refine h.owned.pass (h.owner_of_locked hc trivial) _ fun b n hk => ?_
    obtain ⟨hk, hne⟩ := hk.of_goto Leaves.notified.not_claims
    obtain ⟨hold, -⟩ := (hk.of_goto fun _ => id).1.of_setWait_not rfl rfl id hnot
    exact Or.inl ⟨hold, fun hb => (hne hb).elim⟩

end Guarded

end Owned

/-! ## The results after a step -/

section Current

variable {s t : State ι ω μ δ} {c : ι} {w : ω} {y : Wait ι μ δ} {p : Pc ω}

/-- The result of the predicate has not changed. -/
lemma Wait.Agrees.congr {y y' : Wait ι μ δ} {d : δ} (h : y.Agrees d) (ha : y'.awaiter = y.awaiter)
    (hr : y'.mPredicateResult = y.mPredicateResult) : y'.Agrees d := by
  intro q hq
  rw [ha] at hq
  rw [hr]
  exact h q hq

/-- The timeout task evaluates the predicate. -/
lemma Wait.agrees_timedOut {d : δ} {k : Timeout} :
    ({ y with mPredicateResult := y.timedOut d, timeout := k } : Wait ι μ δ).Agrees d := by
  intro q hq
  simp only at hq
  simp [Wait.timedOut, hq]

/-- Whoever needs no mutex is not about to complete a wait. -/
lemma Pc.ne_complete (s : State ι ω μ δ) (c : ι) (hp : ∀ m, ¬ p.Claims s.wait c m) (x : ω)
    (l : Option (List ω)) : p ≠ .hook .complete x l := by
  rintro rfl
  exact hp _ ⟨trivial, rfl⟩

namespace Current

/-- Who owns what does not matter here. -/
lemma setOwner [DecidableEq μ] (h : Current s) (m : μ) (o : Option (Holder ι ω)) :
    Current (s.setOwner m o) :=
  { h with }

/-- A coroutine moves that is not about to complete a wait. -/
lemma goto [DecidableEq ι] (h : Current s) (hp : ∀ x l, p ≠ .hook .complete x l) :
    Current (s.goto c p) := by
  refine ⟨h.starting, h.settled, fun d x l hd => ?_⟩
  rcases eq_or_ne d c with rfl | hne
  · exact (hp x l (by simpa using hd)).elim
  · exact h.evaluated d x l (by simpa [hne] using hd)

/-- A wait changes without spoiling its result. -/
lemma setWait [DecidableEq ω] (h : Current s) (hstart : y.Starting → y.resumptions = 0)
    (hsettled : y.Settled → y.Agrees (s.data y.mutex))
    (hev : (s.wait w).Agrees (s.data (s.wait w).mutex) → y.Agrees (s.data y.mutex)) :
    Current (s.setWait w y) := by
  refine ⟨?_, ?_, fun d x l hd => ?_⟩
  · exact (forall_update_iff s.wait fun _ z => z.Starting → z.resumptions = 0).mpr
      ⟨hstart, fun x _ => h.starting x⟩
  · exact (forall_update_iff s.wait fun _ z => z.Settled → z.Agrees (s.data z.mutex)).mpr
      ⟨hsettled, fun x _ => h.settled x⟩
  · have hold := h.evaluated d x l hd
    rcases eq_or_ne x w with rfl | hx
    · simpa using hev hold
    · simpa [hx] using hold

/-- A wait changes, but for its result. -/
lemma keep [DecidableEq ω] (h : Current s) (hm : y.mutex = (s.wait w).mutex)
    (ha : y.awaiter = (s.wait w).awaiter)
    (hr : y.mPredicateResult = (s.wait w).mPredicateResult)
    (hstart : y.Starting → y.resumptions = 0) (hsettled : y.Settled → (s.wait w).Settled) :
    Current (s.setWait w y) := by
  have hev : (s.wait w).Agrees (s.data (s.wait w).mutex) → y.Agrees (s.data y.mutex) := by
    intro hold
    rw [hm]
    exact hold.congr ha hr
  exact h.setWait hstart (fun hs => hev (h.settled w (hsettled hs))) hev

end Current

namespace Guarded

/-- Nobody writes what a wait with a result depends on. -/
lemma current_write [DecidableEq μ] (h : Guarded s) {m : μ} {d : δ} (hc : s.pc c = .running)
    (hown : s.owner m = some (.coroutine c)) :
    Current { s with data := update s.data m d } := by
  refine ⟨h.starting, fun x hx => ?_, fun e x l he => ?_⟩
  · have hne : (s.wait x).mutex ≠ m := by
      rintro rfl
      rw [h.owner_of_holds (hx.imp id Or.inr)] at hown
      cases hown
    simpa [hne] using h.settled x hx
  · have hne : (s.wait x).mutex ≠ m := by
      rintro rfl
      rw [h.owner_of_locked he trivial] at hown
      obtain rfl := Holder.coroutine.inj (Option.some.inj hown)
      rw [he] at hc
      cases hc
    simpa [hne] using h.evaluated e x l he

variable [DecidableEq ι] [DecidableEq ω]

/-- A notifier takes a step inside `on_notify`. -/
lemma current_visit (h : Guarded s) {st st' : Stage} {k : Option (List ω)}
    (hc : s.pc c = .hook st w k) (hv : Visit c st st' (s.wait w) y)
    (hw : y.winner = (s.wait w).winner)
    (hd : st' = .complete → y.Agrees (s.data (s.wait w).mutex)) :
    Current ((s.setWait w y).goto c (.hook st' w k)) := by
  obtain ⟨-, hm, -, ha, hctl, hto, hres, -⟩ := hv.frame
  have hsettled : y.Settled → (s.wait w).Settled := by simp [Wait.Settled, hw, hto, hres]
  have hknows := h.knows c
  rw [hc] at hknows
  refine ⟨?_, ?_, fun e x l he => ?_⟩
  · refine (forall_update_iff s.wait fun _ z => z.Starting → z.resumptions = 0).mpr
      ⟨fun hs => ?_, fun x _ => h.starting x⟩
    rw [hres]
    exact h.starting w (by simpa [Wait.Starting, hctl] using hs)
  · refine (forall_update_iff s.wait
      fun _ z => z.Settled → z.Agrees (s.data z.mutex)).mpr ⟨fun hs => ?_, fun x _ => h.settled x⟩
    rw [hm]
    rcases hv.result_eq with rfl | hr
    · exact ((h.coherent w).not_settled hknows.1 (hsettled hs)).elim
    · exact (h.settled w (hsettled hs)).congr ha hr
  · rcases eq_or_ne e c with rfl | hne
    · simp only [State.goto, update_self, Pc.hook.injEq] at he
      obtain ⟨hst, rfl, rfl⟩ := he
      simpa [hm] using hd hst
    · -- The awaiter `w` is in the hands of `c` alone.
      have hpc : s.pc e = .hook .complete x l := by
        simpa [hne] using he
      have hxw : x ≠ w := by
        rintro rfl
        exact h.not_mem_hand (Sound.mem_hand hc) hne (Sound.mem_hand hpc)
      simpa [hxw] using h.evaluated e x l hpc

/-- A wait begins, or finds its predicate true. -/
lemma current_wait (h : Guarded s) (hw : (s.wait w).controller = .idle) {m : μ} {timed : Bool}
    {a : Awaiter δ} {stop : Bool} : Current (TimedWait.wait s c w m timed a stop) := by
  have hp : ∀ x l, (if a.awaitReady (s.data m) then .running else .waiting w) ≠
      Pc.hook .complete x l := by
    intro x l
    split <;> simp
  refine Current.goto ⟨?_, ?_, fun d x l hd => ?_⟩ hp
  · exact (forall_update_iff s.wait fun _ z => z.Starting → z.resumptions = 0).mpr
      ⟨fun _ => rfl, fun x _ => h.starting x⟩
  · refine (forall_update_iff s.wait
      fun _ z => z.Settled → z.Agrees (s.data z.mutex)).mpr ⟨?_, fun x _ => h.settled x⟩
    simp [Wait.Settled, Wait.start, Wait.idle]
  · have hxw : x ≠ w := by
      rintro rfl
      exact h.not_mem_hand_of_idle hw d (Sound.mem_hand hd)
    simpa [hxw] using h.evaluated d x l hd

variable [DecidableEq μ]

/-- The caller of a wait is resumed. -/
lemma current_resume (h : Guarded s) (hm : y.mutex = (s.wait w).mutex)
    (ha : y.awaiter = (s.wait w).awaiter)
    (hr : y.mPredicateResult = (s.wait w).mPredicateResult) (hstart : ¬ y.Starting)
    (hto : y.timeout ≠ .resume) : Current (s.resume w y) := by
  have hset : Current (s.setWait w y.resume) := by
    refine h.toCurrent.keep hm ha hr (fun hs => (hstart hs).elim) ?_
    rintro (⟨-, hzero⟩ | ht)
    · simp [Wait.resume] at hzero
    · exact (hto ht).elim
  exact (hset.setOwner y.mutex (some (.coroutine y.caller))).goto (by simp)

/-- The results are up to date after every step. -/
lemma current_step (h : Guarded s) (ht : Transition s t) : Current t := by
  cases ht with
  | @quiet c p hq => exact h.toCurrent.goto (Pc.ne_complete s c hq.not_claims)
  | lock | unlock => exact h.toCurrent.setOwner _ _
  | write hc hown => exact h.current_write hc hown
  | wait _ _ hw => exact h.current_wait hw
  | @silent w y hs =>
    obtain ⟨-, hm, -, ha, hr, hres, -⟩ := hs.frame
    obtain ⟨hstart, -, hsettled⟩ := hs.not_new
    exact h.toCurrent.keep hm ha hr (fun hs => hres.trans (h.starting w (hstart hs))) hsettled
  | @push w hc =>
    exact { h.toCurrent.keep (w := w) (y := { s.wait w with controller := .unlock })
      rfl rfl rfl (fun _ => h.starting w (Or.inl hc)) id with }
  | @suspend w hc =>
    refine Current.setOwner ?_ _ _
    exact h.toCurrent.keep rfl rfl rfl (fun _ => h.starting w (Or.inr hc)) id
  | @timeoutLock w ht _ =>
    refine Current.setOwner ?_ _ _
    exact h.toCurrent.keep rfl rfl rfl (h.starting w) (Or.imp_right fun hf => by cases hf)
  | @timeoutEvaluate w ht =>
    exact h.toCurrent.setWait (h.starting w) (fun _ => Wait.agrees_timedOut)
      fun _ => Wait.agrees_timedOut
  | @resumeNotified w hc =>
    have hk := (h.coherent w).callback
    simp only [CallbackKnows, hc] at hk
    have hwon := ((h.coherent w).race.by_notify hk.2).2.1
    obtain ⟨hctl, -⟩ := (h.coherent w).started.of_callback (by simp [hc])
    refine h.current_resume rfl rfl rfl ?_ ?_
    · rcases hctl with ⟨hctl, -⟩ | hctl <;> simp [Wait.Starting, hctl]
    · intro ht
      have ht' : (s.wait w).timeout = .resume := ht
      simp [ht'] at hwon
  | @resumeTimedOut w ht =>
    obtain ⟨hctl, -⟩ := (h.coherent w).started.of_timeout (by simp [ht])
    exact h.current_resume rfl rfl rfl (by simp [Wait.Starting, hctl]) (by simp)
  | @popOne c w ws =>
    exact { h.toCurrent.goto (c := c) (p := s.visit w none)
      (Pc.ne_complete s c State.visit_not_claims) with }
  | @popAll c p hd =>
    exact { h.toCurrent.goto (c := c) (Pc.ne_complete s c hd.not_claims) with }
  | @spawn c e w ws =>
    refine Current.goto (Current.goto h.toCurrent ?_) (by simp)
    exact Pc.ne_complete s e State.visit_not_claims
  | @refuse c w ws =>
    exact { h.toCurrent.goto (c := c) (p := .spawning ws) (by simp) with }
  | visit hc hv _ hw hd => exact h.current_visit hc hv hw hd
  | hookLock => exact (h.toCurrent.setOwner _ _).goto (by simp)
  | @complete c w k hc =>
    have hag := h.evaluated c w k hc
    refine Current.goto (Current.setOwner ?_ _ _) (by simp)
    exact h.toCurrent.setWait (h.starting w) (fun _ => hag.congr rfl rfl) fun _ => hag.congr rfl rfl
  | hookUnlock _ _ hl =>
    refine (h.toCurrent.setOwner _ _).goto fun x l heq => ?_
    obtain ⟨rfl, -⟩ := Pc.hook.inj heq
    exact hl trivial
  | @leave c st w k p hc hl =>
    refine Current.goto ?_ (Pc.ne_complete s c hl.not_claims)
    exact h.toCurrent.keep rfl rfl rfl (h.starting w) id
  | @requeue c w k hc =>
    exact { h.toCurrent.goto (c := c)
      (Pc.ne_complete s c (Leaves.notified (k := k)).not_claims) with }
  | @resume c w k hc =>
    have hf := h.knows c
    rw [hc] at hf
    have hw := (h.coherent w).untimed hf.1
    refine Current.goto ?_ (Pc.ne_complete s c (Leaves.notified (k := k)).not_claims)
    refine h.current_resume rfl rfl rfl ?_ ?_
    · -- The notifier has the mutex that a starting caller would have to have.
      intro hs
      obtain ⟨hown, hpc⟩ := h.owner_of_starting hs
      rw [h.owner_of_locked hc trivial] at hown
      obtain rfl := Holder.coroutine.inj (Option.some.inj hown)
      rw [hc] at hpc
      cases hpc
    · intro ht
      have hwon := ((h.coherent w).of_won (by simp [ht])).1
      rw [hw] at hwon
      cases hwon

/-- Every step keeps the mutexes where they are needed and the results up to date. -/
lemma step (h : Guarded s) (ht : Transition s t) : Guarded t where
  toSound := h.toSound.step ht
  toCurrent := h.current_step ht
  owned := h.owned_step ht

omit [DecidableEq ι] [DecidableEq ω] [DecidableEq μ] in
/-- A run begins with all mutexes free and no wait under way. -/
lemma init [Inhabited ι] [Inhabited μ] (d : μ → δ) : Guarded (start d : State ι ω μ δ) := by
  have hidle : Coherent (Wait.idle default default : Wait ι μ δ) := by
    refine ⟨⟨rfl, rfl, rfl, rfl⟩, fun _ => rfl, ⟨fun _ => ⟨rfl, rfl, fun _ => rfl, fun _ => rfl⟩,
      ?_, ?_⟩, trivial, trivial, ?_⟩ <;> simp [Wait.idle]
  refine ⟨⟨fun _ => hidle, ⟨?_, ?_, ?_⟩, fun _ => trivial, by simp [start], ?_⟩, ⟨?_, ?_, ?_⟩, ?_⟩
  · rintro (_ | c) <;> exact List.nodup_nil
  · rintro (_ | c) q w hw <;> cases hw
  · intro w
    refine ⟨fun hw => (hw.1.1 rfl).elim, ?_⟩
    rintro ⟨_ | c, hw⟩ <;> cases hw
  · exact fun w hw => (hw.1 rfl).elim
  · simp [start, Wait.idle]
  · simp [start, Wait.idle, Wait.Settled]
  · simp [start]
  · rintro (c | w) m hk
    · exact hk.elim
    · simp [Claims, start, Wait.idle, Wait.Holds] at hk

/-- In every run the mutexes are where they are needed and the results up to date. -/
lemma of_reachable [Inhabited ι] [Inhabited μ] {d : μ → δ} (hs : (machine ι ω d).Reachable s) :
    Guarded s :=
  hs.invariant (.init d) fun _ _ _ _ h hstep => h.step (step_transition hstep)

end Guarded

end Current

end Libcoro.TimedWait
