import Libcoro.TimedWait.Ownership

/-!
# Timed waits are completed once

The caller of a timed wait is resumed once, by the winner of the race for `m_awaiter_completed`,
with the mutex and with the result of the winner.  A notifier that finds the race lost to the
timeout task passes over the hook, whatever happens in the meantime.
-/

namespace Libcoro.TimedWait

open Foundations ConditionVariable

variable {ι ω μ δ : Type*}

/-- What there is to say about a step from `s` to `t` that resumes the caller of the timed wait
`w`. -/
structure Resumption (s t : State ι ω μ δ) (w : ω) : Prop where
  first : (s.wait w).resumptions = 0 ∧ (t.wait w).resumptions = 1
  -- The tasks of the wait own the mutex and leave it to the caller.
  owned : s.owner (s.wait w).mutex = some (.wait w)
  owns : t.owner (s.wait w).mutex = some (.coroutine (s.wait w).caller)
  runs : t.pc (s.wait w).caller = .running
  returns : ∃ status result, (t.wait w).returned = some (some status, result) ∧
    (status = .timeout ↔ (s.wait w).winner = some .timeout) ∧
    (status = .noTimeout ↔ (s.wait w).winner = some .notify) ∧
    ∀ p, predicate (s.wait w).awaiter = some p → result = p (s.data (s.wait w).mutex)

/-- The status that the winner leaves. -/
@[simp] def Winner.status : Winner → CvStatus
  | .notify => .noTimeout
  | .timeout => .timeout

/-- Whether an action is the next step of `c` inside a notify call. -/
def Action.advances [DecidableEq ι] (c : ι) : Action ι ω μ δ → Bool
  | .advance e => e = c
  | _ => false

/-- The way of a notifier past the hook of a wait that has timed out. -/
def Pc.passing (w : ω) (k : Option (List ω)) : ℕ → Pc ω
  | 0 => .hook .eventTest w k
  | 1 => .hook .deadUnlock w k
  | 2 => .hook .deadSet w k
  | _ => .again k

/-! ## The race is decided once -/

section Winner

variable {s t : State ι ω μ δ} {w : ω} {p : Winner}

/-- The silent steps of the tasks do not change a decided race. -/
lemma Silent.winner_eq {y y' : Wait ι μ δ} (hs : Silent y y') (h : Coherent y)
    (hw : y.winner = some p) : y'.winner = some p := by
  cases hs with
  | win _ hc =>
    rw [h.winner_eq_none hc] at hw
    cases hw
  | _ => exact hw

/-- A wait that changes does not lose what holds of it before and afterwards. -/
lemma State.setWait_of [DecidableEq ω] {P : Wait ι μ δ → Prop} {x : ω} {y : Wait ι μ δ}
    (hw : P (s.wait w)) (hy : P (s.wait x) → P y) : P ((s.setWait x y).wait w) := by
  rcases eq_or_ne w x with rfl | hne
  · simpa using hy hw
  · simpa [hne] using hw

variable [DecidableEq ι] [DecidableEq ω] [DecidableEq μ]

/-- No step changes a decided race. -/
lemma Sound.winner_step (h : Sound s) (ht : Transition s t) (hw : (s.wait w).winner = some p) :
    (t.wait w).winner = some p := by
  cases ht with
  | quiet | lock | unlock | write | popOne | popAll | spawn | refuse | hookLock | hookUnlock
  | requeue => exact hw
  | @wait c x m timed a stop _ _ hx =>
    refine State.setWait_of (P := fun y => y.winner = some p) hw fun hold => ?_
    have hst := (h.coherent x).started
    simp only [Started, hx] at hst
    rw [hst.2.2.1] at hold
    cases hold
  | @silent x y hs =>
    exact State.setWait_of (P := fun y => y.winner = some p) hw (hs.winner_eq (h.coherent x))
  | push | suspend | timeoutLock | timeoutEvaluate | resumeNotified | resumeTimedOut | leave
  | resume => exact State.setWait_of (P := fun y => y.winner = some p) hw id
  | visit _ _ _ heq _ =>
    exact State.setWait_of (P := fun y => y.winner = some p) hw heq.trans
  | @complete c x k hc =>
    refine State.setWait_of (P := fun y => y.winner = some p) hw fun hold => ?_
    have hk := h.knows c
    rw [hc] at hk
    rw [hk.1.2.2] at hold
    cases hold

end Winner

/-! ## The step that resumes the caller -/

section Resume

variable {s t : State ι ω μ δ} {w : ω}

/-- The caller is resumed by the winner, who has the mutex. -/
lemma Guarded.resumption [DecidableEq ι] [DecidableEq ω] [DecidableEq μ] (h : Guarded s)
    {y : Wait ι μ δ} {p : Winner} (hwin : (s.wait w).winner = some p)
    (hstatus : (s.wait w).mStatus = some p.status)
    (hsettled : (s.wait w).Settled) (hzero : (s.wait w).resumptions = 0)
    (hcaller : y.caller = (s.wait w).caller) (hm : y.mutex = (s.wait w).mutex)
    (hs : y.mStatus = (s.wait w).mStatus)
    (hr : y.mPredicateResult = (s.wait w).mPredicateResult)
    (hres : y.resumptions = (s.wait w).resumptions) : Resumption s (s.resume w y) w := by
  refine ⟨⟨hzero, ?_⟩, h.owner_of_holds (hsettled.imp id Or.inr), ?_, ?_, p.status,
    (s.wait w).mPredicateResult, ?_, ?_, ?_, h.settled w hsettled⟩
  · simp [Wait.resume, hres, hzero]
  · simp [hcaller, hm]
  · simp [hcaller]
  · simp [Wait.resume, hs, hstatus, hr]
  · cases p <;> simp [hwin]
  · cases p <;> simp [hwin]

variable [DecidableEq ι] [DecidableEq ω] [DecidableEq μ]

/-- Every step that resumes the caller of a timed wait is as it should be. -/
lemma Guarded.resumption_step (h : Guarded s) (ht : Transition s t)
    (htimed : (s.wait w).timed = true)
    (hne : (t.wait w).resumptions ≠ (s.wait w).resumptions) : Resumption s t w := by
  -- Most steps resume nobody.
  have hkeep : ∀ {x : ω} {y : Wait ι μ δ}, y.resumptions = (s.wait x).resumptions →
      ((s.setWait x y).wait w).resumptions = (s.wait w).resumptions := by
    intro x y hy
    exact State.setWait_of (P := fun z => z.resumptions = (s.wait w).resumptions) rfl hy.trans
  cases ht with
  | quiet | lock | unlock | write | popOne | popAll | spawn | refuse | hookLock | hookUnlock
  | requeue => exact (hne rfl).elim
  | @wait c x m timed a stop _ _ hx =>
    have hst := (h.coherent x).started
    simp only [Started, hx] at hst
    exact (hne (hkeep hst.2.2.2.symm)).elim
  | silent hs => exact (hne (hkeep hs.frame.2.2.2.2.2.1)).elim
  | push | suspend | timeoutLock | timeoutEvaluate | leave | complete =>
    exact (hne (hkeep rfl)).elim
  | visit _ hv => exact (hne (hkeep hv.frame.2.2.2.2.2.2.1)).elim
  | @resumeNotified x hc =>
    obtain rfl : x = w := by
      by_contra hxw
      exact hne (by simp [Ne.symm hxw])
    have hk := (h.coherent x).callback
    simp only [CallbackKnows, hc] at hk
    have hzero := ((h.coherent x).live_of_resuming hc).2.2
    obtain ⟨-, -, -, ⟨he, -⟩ | hs⟩ := (h.coherent x).race.by_notify hk.2
    · rw [hk.1] at he
      cases he
    · exact h.resumption hk.2 hs (Or.inl ⟨hk.2, hzero⟩) hzero rfl rfl rfl rfl rfl
  | @resumeTimedOut x ht =>
    obtain rfl : x = w := by
      by_contra hxw
      exact hne (by simp [Ne.symm hxw])
    obtain ⟨hw, -, hzero, hs⟩ := (h.coherent x).of_won (by simp [ht])
    exact h.resumption hw (hs (by simp [ht])) (Or.inr ht) hzero rfl rfl rfl rfl rfl
  | @resume c x k hc =>
    have hk := h.knows c
    rw [hc] at hk
    have hxw : w ≠ x := by
      rintro rfl
      rw [hk.1] at htimed
      cases htimed
    exact (hne (by simp [hxw])).elim

end Resume

/-! ## Passing over a dead hook -/

section Passing

variable [DecidableEq ι] [DecidableEq ω] [DecidableEq μ] {s t : State ι ω μ δ} {c e : ι} {w x : ω}
  {st : Stage} {k : Option (List ω)} {a : Action ι ω μ δ}

/-- A notifier inside `on_notify` moves nobody else, unless it resumes a caller. -/
lemma onNotify_pc (hstep : onNotify s e st x k = some t) (hce : c ≠ e)
    (hcaller : st = .resume → c ≠ (s.wait x).caller) : t.pc c = s.pc c := by
  cases st with simp only [onNotify] at hstep
  | eventLock | lock =>
    split_ifs at hstep
    cases hstep
    simp [hce]
  | resume =>
    cases hstep
    simp [hce, hcaller rfl]
  | _ =>
    cases hstep
    simp [hce]

/-- A coroutine inside a notify call moves nobody else inside `on_notify`. -/
lemma Sound.advance_pc (h : Sound s) (hstep : advance s e = some t) (hce : c ≠ e)
    (hcaller : ∀ x, (s.wait x).Live → c ≠ (s.wait x).caller) : t.pc c = s.pc c := by
  unfold advance at hstep
  split at hstep <;> rename_i he
  · split at hstep <;> cases hstep <;> simp [hce]
  iterate 5
    cases hstep
    simp [hce]
  · refine onNotify_pc hstep hce ?_
    rintro rfl
    exact hcaller _ (h.of_resume he).2.2
  all_goals cases hstep

/-- The tasks of a wait move nobody but a caller that is suspended. -/
lemma Sound.tasks_pc (h : Sound s) (hcaller : ∀ x, (s.wait x).Live → c ≠ (s.wait x).caller)
    (hstep : controller s x = some t ∨ callback s x = some t ∨ timeout s x = some t) :
    t.pc c = s.pc c := by
  rcases hstep with hstep | hstep | hstep
  · unfold controller at hstep
    dsimp only at hstep
    split at hstep
    iterate 4
      cases hstep
      rfl
    all_goals cases hstep
  · unfold callback at hstep
    dsimp only at hstep
    split at hstep <;> rename_i hcb
    · split at hstep
      iterate 2
        cases hstep
        rfl
      cases hstep
    · cases hstep
      simp [hcaller x ((h.coherent x).live_of_resuming hcb)]
    all_goals cases hstep
  · unfold timeout at hstep
    dsimp only at hstep
    split at hstep <;> rename_i ht
    case h_7 =>
      cases hstep
      have hlive := (h.coherent x).live_of_won (by simp [ht])
      simp [hcaller x hlive]
    case h_2 => split_ifs at hstep <;> cases hstep <;> rfl
    case h_1 | h_5 =>
      split_ifs at hstep
      cases hstep
      rfl
    case h_3 | h_4 | h_6 | h_8 =>
      cases hstep
      rfl
    all_goals cases hstep

/-- Nobody else moves a notifier that is inside `on_notify`. -/
lemma Sound.pc_hook_step (h : Sound s) (hstep : TimedWait.step s a = some t)
    (ha : a.advances c = false) (hc : s.pc c = .hook st w k) : t.pc c = s.pc c := by
  have hcaller : ∀ x, (s.wait x).Live → c ≠ (s.wait x).caller := fun x hx =>
    (h.callers.ne_of_not_waiting (by simp [hc]) hx).symm
  have hmove : ∀ {e : ι} {q : Pc ω}, s.pc e = q → q ≠ .hook st w k → c ≠ e := by
    rintro e q he hq rfl
    exact hq (he.symm.trans hc)
  cases a with simp only [TimedWait.step] at hstep
  | begin e | notifyOne e | notifyAll e | notifyAllExecutor e =>
    split_ifs at hstep with he
    cases hstep
    simp [hmove he (by simp)]
  | lock e m | unlock e m | write e m d =>
    split_ifs at hstep with he
    cases hstep
    rfl
  | wait e x m timed a stop =>
    split_ifs at hstep with he
    cases hstep
    simp [TimedWait.wait, hmove he.1 (by simp)]
  | requestStop x =>
    cases hstep
    rfl
  | spawn e l =>
    unfold spawn at hstep
    split at hstep
    · next he hl =>
      cases hstep
      simp [hmove he (by simp), hmove hl (by simp)]
    · cases hstep
  | refuse e =>
    unfold refuse at hstep
    split at hstep
    · next he =>
      cases hstep
      simp [hmove he (by simp)]
    · cases hstep
  | advance e =>
    have hce : c ≠ e := by
      rintro rfl
      simp [Action.advances] at ha
    exact h.advance_pc hstep hce hcaller
  | controller x => exact h.tasks_pc hcaller (Or.inl hstep)
  | callback x => exact h.tasks_pc hcaller (Or.inr (Or.inl hstep))
  | timerFires x =>
    split_ifs at hstep
    cases hstep
    rfl
  | timeout x => exact h.tasks_pc hcaller (Or.inr (Or.inr hstep))

/-- A notifier on its way past a dead hook goes on, and neither resumes anybody nor touches the
list. -/
lemma Sound.passing_step (h : Sound s) {n : ℕ} (hn : n ≤ 2)
    (hw : (s.wait w).winner = some .timeout) (hc : s.pc c = .passing w k n) :
    ∃ r, TimedWait.step s (.advance c) = some r ∧ r.pc c = .passing w k (n + 1) ∧
      r.mAwaiters = s.mAwaiters ∧ ∀ x, (r.wait x).resumptions = (s.wait x).resumptions := by
  have hcompleted := ((h.coherent w).race.by_timeout hw).1
  have hstep : TimedWait.step s (.advance c) = advance s c := rfl
  have hkeep : ∀ {y : Wait ι μ δ} {q : Pc ω} (x : ω), y.resumptions = (s.wait w).resumptions →
      (((s.setWait w y).goto c q).wait x).resumptions = (s.wait x).resumptions := by
    intro y q x hy
    exact State.setWait_of (P := fun z => z.resumptions = (s.wait x).resumptions) rfl hy.trans
  rw [hstep, advance, hc]
  interval_cases n
  · refine ⟨_, rfl, ?_, rfl, fun _ => rfl⟩
    simp [hcompleted, Pc.passing]
  · exact ⟨_, rfl, by simp [Pc.passing], rfl, fun x => hkeep x rfl⟩
  · exact ⟨_, rfl, by simp [Pc.passing], rfl, fun x => hkeep x rfl⟩

/-- Whatever the others do, a notifier on its way past a dead hook is where its own steps have
brought it. -/
lemma Guarded.passing_run [Inhabited ι] [Inhabited μ] {d : μ → δ} {l : List (Action ι ω μ δ)}
    (h : Guarded s) {n : ℕ} (hw : (s.wait w).winner = some .timeout)
    (hc : s.pc c = .passing w k n) (hrun : (machine ι ω d).run s l = some t)
    (hn : n + l.countP (Action.advances c) ≤ 2) :
    Guarded t ∧ (t.wait w).winner = some .timeout ∧
      t.pc c = .passing w k (n + l.countP (Action.advances c)) := by
  induction l generalizing s n with
  | nil =>
    cases hrun
    exact ⟨h, hw, hc⟩
  | cons a l ih =>
    obtain ⟨r, hstep, hrest⟩ := Machine.run_cons.mp hrun
    have ht := step_transition hstep
    have hr := h.step ht
    have hwr := h.toSound.winner_step ht hw
    cases ha : a.advances c with
    | false =>
      have hhook : ∃ st, Pc.passing w k n = .hook st w k := by
        have hle : n ≤ 2 := by omega
        interval_cases n <;> exact ⟨_, rfl⟩
      obtain ⟨st, hst⟩ := hhook
      have hpc := h.toSound.pc_hook_step hstep ha (hc.trans hst)
      rw [List.countP_cons_of_neg (by simp [ha])] at hn ⊢
      exact ih hr hwr (hpc.trans hc) hrest hn
    | true =>
      rw [List.countP_cons_of_pos ha] at hn ⊢
      obtain ⟨e, rfl, rfl⟩ : ∃ e, a = .advance e ∧ e = c := by
        cases a with
        | advance e => exact ⟨e, rfl, by simpa [Action.advances] using ha⟩
        | _ => cases ha
      obtain ⟨r', hstep', hpc, -⟩ := h.toSound.passing_step (by omega) hw hc
      obtain rfl : r = r' := Option.some.inj (hstep.symm.trans hstep')
      have hgo := ih hr hwr hpc hrest (by omega)
      rwa [Nat.add_right_comm, Nat.add_assoc] at hgo

end Passing

/-! ## The whole system -/

section System

variable [DecidableEq ι] [DecidableEq ω] [DecidableEq μ] [Inhabited ι] [Inhabited μ]
  {s : State ι ω μ δ}

/-- In every state `s` that a run reaches:

* the caller of a timed wait has been resumed at most once;
* a step that resumes it is the first to do so, leaves the mutex to the caller, and makes the wait
  return `timeout` if the timeout task has won `m_awaiter_completed` and `no_timeout` if a notifier
  has, together with the value of the predicate on the data under the mutex;
* a race that is decided stays so;
* a timed wait that finds its predicate true returns at once, with the mutex and this value;
* a notifier that finds a wait completed has met one that has timed out.  Whatever the others do, it
  takes three more steps to be where it was before it took this awaiter, ready for the next one, and
  these steps resume nobody and leave the list alone. -/
theorem timed_wait_completed_once {d : μ → δ} (hs : (machine ι ω d).Reachable s) :
    (∀ w, (s.wait w).timed = true → (s.wait w).resumptions ≤ 1) ∧
    (∀ a t w, (machine ι ω d).step s a = some t → (s.wait w).timed = true →
      (t.wait w).resumptions ≠ (s.wait w).resumptions → Resumption s t w) ∧
    (∀ a t w p, (machine ι ω d).step s a = some t → (s.wait w).winner = some p →
      (t.wait w).winner = some p) ∧
    (∀ c w m a stop t, (machine ι ω d).step s (.wait c w m true a stop) = some t →
      a.awaitReady (s.data m) = true →
      t.pc c = .running ∧ t.owner m = some (.coroutine c) ∧
      ∀ p, predicate a = some p → (t.wait w).mPredicateResult = p (s.data m)) ∧
    ∀ c w k, s.pc c = .hook .eventTest w k → (s.wait w).mAwaiterCompleted = true →
      (s.wait w).winner = some .timeout ∧
      ∀ l t, (machine ι ω d).run s l = some t → l.countP (Action.advances c) ≤ 2 →
        t.pc c = .passing w k (l.countP (Action.advances c)) ∧
        ∃ r, (machine ι ω d).step t (.advance c) = some r ∧
          r.pc c = .passing w k (l.countP (Action.advances c) + 1) ∧
          r.mAwaiters = t.mAwaiters ∧ ∀ x, (r.wait x).resumptions = (t.wait x).resumptions := by
  have h := Guarded.of_reachable hs
  refine ⟨?_, ?_, ?_, ?_, ?_⟩
  · intro w htimed
    cases hw : (s.wait w).winner with
    | none => simp [((h.coherent w).race.undecided hw).2.2.1 htimed]
    | some p =>
      cases p with
      | notify =>
        obtain ⟨-, -, ⟨-, hr⟩ | ⟨-, hr⟩, -⟩ := (h.coherent w).race.by_notify hw <;> simp [hr]
      | timeout =>
        obtain ⟨-, ⟨-, hr⟩ | ⟨-, hr⟩, -⟩ := (h.coherent w).race.by_timeout hw <;> simp [hr]
  · intro a t w hstep htimed hne
    exact h.resumption_step (step_transition hstep) htimed hne
  · intro a t w p hstep hw
    exact h.toSound.winner_step (step_transition hstep) hw
  · intro c w m a stop t hstep hready
    obtain ⟨⟨-, hown, -⟩, rfl⟩ : (s.pc c = .running ∧ s.owner m = some (.coroutine c) ∧
        (s.wait w).controller = .idle) ∧ wait s c w m true a stop = t := by
      simpa [machine, step] using hstep
    refine ⟨by simp [wait, hready], hown, fun p hp => ?_⟩
    cases a <;> simp_all [wait, Wait.start, predicate, Awaiter.awaitReady]
  · intro c w k hc hcompleted
    have hk := h.knows c
    rw [hc] at hk
    have hw : (s.wait w).winner = some .timeout := by
      cases hw : (s.wait w).winner with
      | none => simp [((h.coherent w).race.undecided hw).1] at hcompleted
      | some p =>
        cases p with
        | notify => exact (hk.1.2.1 hw).elim
        | timeout => rfl
    refine ⟨hw, fun l t hrun hn => ?_⟩
    obtain ⟨ht, hwt, hpc⟩ := h.passing_run (n := 0) hw hc hrun (by omega)
    rw [Nat.zero_add] at hpc
    exact ⟨hpc, ht.toSound.passing_step hn hwt hpc⟩

end System

/-- A coroutine waits without a time limit, and then another one with a predicate that does not hold
and a time limit, which expires.  The timeout task is about to resume its caller. -/
def expiring : List (Action ℕ ℕ Unit Bool) :=
  [.begin 1, .lock 1 (), .wait 1 1 () false .plain false, .controller 1, .controller 1,
    .begin 0, .lock 0 (), .wait 0 0 () true (.withPredicate id) false, .controller 0,
    .controller 0, .controller 0, .controller 0, .timerFires 0, .timeout 0, .timeout 0,
    .timeout 0, .timeout 0, .timeout 0, .timeout 0]

/-- The caller is resumed and releases the mutex, and a notifier meets the hook of its wait. -/
def meeting : List (Action ℕ ℕ Unit Bool) :=
  [.timeout 0, .unlock 0 (), .begin 2, .notifyOne 2, .advance 2, .advance 2]

/-- The caller is resumed as it should be, and the notifier passes over the hook. -/
theorem timed_wait_completed_once_expired : ∃ s t r : State ℕ ℕ Unit Bool,
    (machine ℕ ℕ fun _ => false).run (start fun _ => false) expiring = some s ∧
    step s (.timeout 0) = some t ∧ Resumption s t 0 ∧
    (machine ℕ ℕ fun _ => false).run (start fun _ => false) (expiring ++ meeting) = some r ∧
    (r.wait 0).resumptions ≤ 1 ∧ (r.wait 0).winner = some .timeout ∧
    ∃ q, (machine ℕ ℕ fun _ => false).run r [.advance 2, .advance 2] = some q ∧
      q.pc 2 = .hook .deadSet 0 none ∧
      ∃ q', step q (.advance 2) = some q' ∧ q'.pc 2 = .notifyOne ∧ q'.mAwaiters = [1] := by
  have hs := timed_wait_completed_once
    (Machine.reachable_of_run (M := machine ℕ ℕ fun _ : Unit => false) (l := expiring) rfl)
  have hr := timed_wait_completed_once
    (Machine.reachable_of_run (M := machine ℕ ℕ fun _ : Unit => false)
      (l := expiring ++ meeting) rfl)
  obtain ⟨hwin, hpass⟩ := hr.2.2.2.2 2 0 none rfl rfl
  obtain ⟨hpc, q', hstep, hpc', hlist, -⟩ := hpass [.advance 2, .advance 2] _ rfl (by decide)
  exact ⟨_, _, _, rfl, rfl, hs.2.1 (.timeout 0) _ 0 rfl rfl (by decide), rfl, hr.1 0 rfl, hwin,
    _, rfl, hpc, q', hstep, hpc', hlist⟩

end Libcoro.TimedWait
