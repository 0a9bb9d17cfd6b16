import Libcoro.TimedWait.Completion

/-!
# When the awaiter of a timed wait is touched

The controller, the callback task and the timeout task of a timed wait refer to the awaiter object
of its caller, which is gone once the caller has been resumed.  The code has it that only the winner
of `m_awaiter_completed` may touch the awaiter from then on.  Two orders of events break this rule.

* A notifier that meets the hook of a wait that has timed out sets `m_notify_callback` nevertheless,
  and the callback task then reads `m_status` through the awaiter.
* A notifier that wins before the controller has started the timeout task lets the callback task
  resume the caller, and the controller then reads `m_executor` and `m_wait_for`.

In all other runs the rule is kept.
-/

namespace Libcoro.TimedWait

open Foundations ConditionVariable Function

variable {ι ω μ δ : Type*}

/-! ## The steps that touch an awaiter -/

/-- The controller reads `m_lock` when it makes and pushes the hook and when it releases the mutex,
and `m_executor` and `m_wait_for` when it starts the timeout task. -/
def Controller.touches : Controller → Bool
  | .push | .unlock | .startTimeout => true
  | _ => false

/-- The callback task reads `m_status` and then `m_awaiting_coroutine`. -/
def Callback.touches : Callback → Bool
  | .ready | .resuming => true
  | _ => false

/-- The timeout task writes `m_status`, reads `m_lock`, writes `m_predicate_result` and reads
`m_awaiting_coroutine`. -/
def Timeout.touches : Timeout → Bool
  | .setStatus | .lock | .evaluate | .resume => true
  | _ => false

/-- A notifier writes `m_predicate_result`, if there is a predicate, and `m_status`, both by way of
the data of the controller.  In the stage `lock` it reads the lock of the caller. -/
def Stage.touches (y : Wait ι μ δ) : Stage → Bool
  | .lock | .setStatus => true
  | .evaluate => (predicate y.awaiter).isSome
  | _ => false

/-- The timed wait whose awaiter an action touches. -/
def touches (s : State ι ω μ δ) : Action ι ω μ δ → Option ω
  | .controller w => if (s.wait w).timed && (s.wait w).controller.touches then some w else none
  | .callback w => if (s.wait w).callback.touches then some w else none
  | .timeout w => if (s.wait w).timeout.touches then some w else none
  | .advance c =>
    match s.pc c with
    | .hook st w _ => if (s.wait w).timed && st.touches (s.wait w) then some w else none
    | _ => none
  | _ => none

/-! ## Timely notifiers -/

/-- The next step of `c` comes too late for a wait, since it is completed, or completes a wait too
early, since its timeout task has not been started. -/
def State.untimely (s : State ι ω μ δ) (c : ι) : Bool :=
  match s.pc c with
  | .hook .eventTest w _ => (s.wait w).mAwaiterCompleted
  | .hook .complete w _ => (s.wait w).timeout = .notStarted
  | _ => false

/-- No notifier comes too late or too early. -/
def Timely (s : State ι ω μ δ) : Action ι ω μ δ → Prop
  | .advance c => s.untimely c = false
  | _ => True

instance (s : State ι ω μ δ) (a : Action ι ω μ δ) : Decidable (Timely s a) := by
  unfold Timely
  split <;> infer_instance

/-- A notifier has found a wait completed. -/
@[simp] def Pc.Dead : Pc ω → Prop
  | .hook .deadUnlock _ _ | .hook .deadSet _ _ => True
  | _ => False

/-- The event is set by a winner only, a notifier that wins finds the timeout task started, and
nobody has found a wait completed. -/
structure Prompt (s : State ι ω μ δ) : Prop where
  notified : ∀ w, (s.wait w).mNotifyCallback = true → (s.wait w).winner = some .notify
  started : ∀ w, (s.wait w).winner = some .notify → (s.wait w).timeout ≠ .notStarted
  alive : ∀ c, ¬ (s.pc c).Dead

namespace Prompt

variable {s : State ι ω μ δ} {c : ι} {w : ω} {y : Wait ι μ δ} {p : Pc ω}

/-- A coroutine moves that has not found a wait completed. -/
lemma goto [DecidableEq ι] (h : Prompt s) (hp : ¬ p.Dead) : Prompt (s.goto c p) :=
  ⟨h.notified, h.started,
    (forall_update_iff s.pc fun _ (q : Pc ω) => ¬ q.Dead).mpr ⟨hp, fun e _ => h.alive e⟩⟩

/-- A wait changes in keeping with the rules. -/
lemma setWait [DecidableEq ω] (h : Prompt s)
    (hn : y.mNotifyCallback = true → y.winner = some .notify)
    (hs : y.winner = some .notify → y.timeout ≠ .notStarted) : Prompt (s.setWait w y) where
  notified := (forall_update_iff s.wait
    fun _ z => z.mNotifyCallback = true → z.winner = some .notify).mpr
      ⟨hn, fun x _ => h.notified x⟩
  started := (forall_update_iff s.wait
    fun _ z => z.winner = some .notify → z.timeout ≠ .notStarted).mpr ⟨hs, fun x _ => h.started x⟩
  alive := h.alive

/-- Who owns what does not matter here. -/
lemma setOwner [DecidableEq μ] (h : Prompt s) (m : μ) (o : Option (Holder ι ω)) :
    Prompt (s.setOwner m o) :=
  { h with }

end Prompt

section Alive

variable {s : State ι ω μ δ} {c : ι} {w : ω} {k : Option (List ω)} {st : Stage}

/-- In timely runs the tasks of a wait touch its awaiter only while the caller is suspended. -/
lemma Prompt.tasks_alive (h : Prompt s) (hw : Coherent (s.wait w)) :
    ((s.wait w).controller = .startTimeout → (s.wait w).resumptions = 0) ∧
    ((s.wait w).callback.touches = true → (s.wait w).resumptions = 0) ∧
    ((s.wait w).timeout.touches = true → (s.wait w).resumptions = 0) := by
  refine ⟨fun hc => ?_, fun hc => ?_, fun ht => ?_⟩
  · have hst := hw.started
    simp only [Started, hc] at hst
    cases hwin : (s.wait w).winner with
    | none => exact (hw.race.undecided hwin).2.2.1 hst.1
    | some p =>
      cases p with
      | notify => exact (h.started w hwin hst.2).elim
      | timeout =>
        -- The timeout task cannot have won before it has been started.
        refine (hw.race.not_timeout ?_ ?_ hwin).elim <;> simp [hst.2]
  · have hevent : (s.wait w).mNotifyCallback = true := by
      have hk := hw.callback
      unfold CallbackKnows at hk
      cases hcb : (s.wait w).callback <;> simp_all [Callback.touches]
    obtain ⟨-, -, ⟨-, hr⟩ | ⟨hdone, -⟩, -⟩ := hw.race.by_notify (h.notified w hevent)
    · exact hr
    · simp [hdone, Callback.touches] at hc
  · refine (hw.of_won ?_).2.2.1
    cases hto : (s.wait w).timeout <;> simp_all [Timeout.touches]

/-- A notifier touches an awaiter only while the caller is suspended. -/
lemma Sound.notifier_alive (h : Sound s) (hc : s.pc c = .hook st w k)
    (htimed : (s.wait w).timed = true) (hst : st.touches (s.wait w) = true) :
    (s.wait w).resumptions = 0 := by
  have hk := h.knows c
  rw [hc] at hk
  have hw := h.coherent w
  cases st with
  | lock | evaluate => exact (hw.race.undecided (hk.1 htimed).2).2.2.1 htimed
  | setStatus =>
    -- The caller waits for the event, which only this notifier can set.
    have hparked := (h.parked_of_mem_hand (mem_hand hc)).2
    rw [htimed] at hparked
    obtain ⟨-, -, ⟨-, hr⟩ | ⟨hdone, -⟩, -⟩ := hw.race.by_notify hk.1.2
    · exact hr
    · have hevent := hw.callback
      simp only [CallbackKnows, hdone] at hevent
      rw [hevent] at hparked
      cases hparked
  | _ => cases hst

end Alive

section Step

variable {s t : State ι ω μ δ} {c : ι} {w : ω} {k : Option (List ω)} {st : Stage} {p : Pc ω}

/-- A timeout task that has been started stays so. -/
lemma Silent.timeout_ne {y y' : Wait ι μ δ} (h : Silent y y') (ht : y.timeout ≠ .notStarted) :
    y'.timeout ≠ .notStarted := by
  cases h <;> simp_all

/-- A notifier that begins to notify an awaiter has not found it completed. -/
lemma State.visit_not_dead : ¬ (s.visit w k).Dead := by
  unfold State.visit
  split <;> exact id

/-- A quiet step does not find a wait completed. -/
lemma Quiet.not_dead {q : Pc ω} (hq : Quiet s q p) : ¬ p.Dead := by
  cases hq with
  | next => exact State.visit_not_dead
  | _ => exact id

/-- A notifier that has detached the awaiters has not found one completed. -/
lemma Detaches.not_dead {q : Pc ω} {ws : List ω} (hd : Detaches ws q p) : ¬ p.Dead := by
  cases hd <;> exact id

/-- A notifier that has left `on_notify` has done with the wait. -/
lemma Leaves.not_dead (hl : Leaves k st p) : ¬ p.Dead := by
  cases hl <;> cases k <;> exact id

variable [DecidableEq ι] [DecidableEq ω] [DecidableEq μ]

/-- A step keeps the rules, or somebody comes too late or too early. -/
lemma Prompt.transition (h : Prompt s) (hsound : Sound s) (ht : Transition s t) :
    Prompt t ∨ ∃ c st w k, s.pc c = .hook st w k ∧ t.pc c ≠ s.pc c ∧ s.untimely c = true := by
  cases ht with
  | quiet hq => exact Or.inl (h.goto hq.not_dead)
  | lock | unlock => exact Or.inl (h.setOwner _ _)
  | write => exact Or.inl { h with }
  | @wait c w m timed a stop =>
    refine Or.inl ((h.setWait (fun hn => ?_) fun hw => ?_).goto ?_)
    · cases hn
    · cases hw
    · split <;> exact id
  | @silent w y hs =>
    refine Or.inl (h.setWait (fun hn => ?_) fun hw => ?_)
    · rw [hs.frame.2.2.2.2.2.2.1] at hn
      exact hs.winner_eq (hsound.coherent w) (h.notified w hn)
    · by_contra hnot
      refine hs.timeout_ne (h.started w ?_) hnot
      by_contra hne
      exact (Move.silent hs).winner_ne hne hw
  | @push w =>
    have hset := h.setWait (w := w) (y := { s.wait w with controller := .unlock }) (h.notified w)
      (h.started w)
    exact Or.inl { hset with }
  | @suspend w =>
    refine Or.inl (Prompt.setOwner ?_ _ _)
    exact h.setWait (h.notified w) (h.started w)
  | @timeoutLock w =>
    refine Or.inl (Prompt.setOwner ?_ _ _)
    exact h.setWait (h.notified w) (by simp)
  | @timeoutEvaluate w => exact Or.inl (h.setWait (h.notified w) (by simp))
  | @resumeNotified w =>
    refine Or.inl (Prompt.goto (Prompt.setOwner ?_ _ _) id)
    exact h.setWait (h.notified w) (h.started w)
  | @resumeTimedOut w =>
    refine Or.inl (Prompt.goto (Prompt.setOwner ?_ _ _) id)
    exact h.setWait (h.notified w) (by simp [Wait.resume])
  | @popOne c w ws =>
    have hgo := h.goto (c := c) (State.visit_not_dead (s := s) (w := w) (k := none))
    exact Or.inl { hgo with }
  | @popAll c p hd =>
    have hgo := h.goto (c := c) hd.not_dead
    exact Or.inl { hgo with }
  | spawn => exact Or.inl ((h.goto State.visit_not_dead).goto id)
  | @refuse c w ws =>
    have hgo := h.goto (c := c) (p := .spawning ws) id
    exact Or.inl { hgo with }
  | @visit c st st' w k y hc hv _ hw _ =>
    obtain ⟨-, -, -, -, -, hto, -, hevent⟩ := hv.frame
    have hset : Prompt (s.setWait w y) := by
      refine h.setWait ?_ ?_
      · rw [hevent, hw]
        exact h.notified w
      · rw [hw, hto]
        exact h.started w
    cases hv with
    | dead hcompleted =>
      refine Or.inr ⟨c, .eventTest, w, k, hc, ?_, ?_⟩
      · simp [hc]
      · simpa [State.untimely, hc] using hcompleted
    | deadUnlock => exact (h.alive c (by simp [hc])).elim
    | _ => exact Or.inl (hset.goto id)
  | hookLock => exact Or.inl ((h.setOwner _ _).goto id)
  | @complete c w k hc =>
    by_cases hto : (s.wait w).timeout = .notStarted
    · refine Or.inr ⟨c, .complete, w, k, hc, ?_, ?_⟩
      · simp [hc]
      · simp [State.untimely, hc, hto]
    · refine Or.inl (Prompt.goto (Prompt.setOwner ?_ _ _) id)
      exact h.setWait (fun _ => rfl) fun _ => hto
  | @hookUnlock c st w k hc hv _ => cases hv <;> exact Or.inl ((h.setOwner _ _).goto id)
  | @leave c st w k p hc hl =>
    have hk := hsound.knows c
    rw [hc] at hk
    refine Or.inl (Prompt.goto ?_ hl.not_dead)
    cases hl with
    | dead => exact (h.alive c (by simp [hc])).elim
    | notified =>
      have hpushed := (hsound.parked_of_mem_hand (Sound.mem_hand hc)).1
      have hw := (hsound.coherent w).race.winner_of_status hpushed.2.1 hk.1
      exact h.setWait (fun _ => hw) (h.started w)
  | @requeue c w k =>
    have hgo := h.goto (c := c) (Leaves.notified (k := k)).not_dead
    exact Or.inl { hgo with }
  | @resume c w k =>
    refine Or.inl (Prompt.goto (Prompt.goto (Prompt.setOwner ?_ _ _) id) Leaves.notified.not_dead)
    exact h.setWait (h.notified w) (h.started w)

/-- A timely step keeps the rules. -/
lemma Prompt.step {a : Action ι ω μ δ} (h : Prompt s) (hsound : Sound s) (ha : Timely s a)
    (hstep : TimedWait.step s a = some t) : Prompt t := by
  rcases h.transition hsound (step_transition hstep) with ht | ⟨c, st, w, k, hc, hne, hbad⟩
  · exact ht
  · -- Only its own step moves a notifier inside `on_notify`.
    obtain rfl : a = .advance c := by
      by_contra hnot
      refine hne (hsound.pc_hook_step hstep ?_ hc)
      cases a with
      | advance e =>
        have hec : e ≠ c := fun hec => hnot (congrArg Action.advance hec)
        simp [Action.advances, hec]
      | _ => rfl
    rw [show s.untimely c = false from ha] at hbad
    cases hbad

/-- In every timely run the rules are kept. -/
lemma Prompt.of_reachable [Inhabited ι] [Inhabited μ] {d : μ → δ}
    (hs : (machine ι ω d).ReachableUnder Timely s) : Prompt s := by
  refine hs.invariant ⟨?_, ?_, fun _ => id⟩ fun s a t hr h ha hstep => ?_
  · simp [machine, start, Wait.idle]
  · simp [machine, start, Wait.idle]
  · exact h.step (Guarded.of_reachable hr.reachable).toSound ha hstep

/-- In every run in which no notifier meets a wait that has been completed, and none completes a
wait whose timeout task has not been started: whoever can touch the awaiter of a timed wait in a
state that is reached finds its caller not yet resumed. -/
theorem touched_before_resumed [Inhabited ι] [Inhabited μ] {d : μ → δ}
    (hs : (machine ι ω d).ReachableUnder Timely s) :
    ∀ a t w, (machine ι ω d).step s a = some t → touches s a = some w →
      (s.wait w).resumptions = 0 := by
  have h := Guarded.of_reachable hs.reachable
  have hprompt := Prompt.of_reachable hs
  intro a t w _ htouch
  cases a with
  | controller x =>
    obtain ⟨⟨htimed, hctl⟩, rfl⟩ : ((s.wait x).timed = true ∧
        (s.wait x).controller.touches = true) ∧ x = w := by simpa [touches] using htouch
    cases hx : (s.wait x).controller with
    | push => exact h.starting x (Or.inl hx)
    | unlock => exact h.starting x (Or.inr hx)
    | startTimeout => exact (hprompt.tasks_alive (h.coherent x)).1 hx
    | _ => simp [hx, Controller.touches] at hctl
  | callback x =>
    obtain ⟨hcb, rfl⟩ : (s.wait x).callback.touches = true ∧ x = w := by
      simpa [touches] using htouch
    exact (hprompt.tasks_alive (h.coherent x)).2.1 hcb
  | timeout x =>
    obtain ⟨hto, rfl⟩ : (s.wait x).timeout.touches = true ∧ x = w := by
      simpa [touches] using htouch
    exact (hprompt.tasks_alive (h.coherent x)).2.2 hto
  | advance c =>
    simp only [touches] at htouch
    split at htouch
    · next st x k hc =>
      obtain ⟨⟨htimed, hst⟩, rfl⟩ : ((s.wait x).timed = true ∧ st.touches (s.wait x) = true) ∧
          x = w := by simpa using htouch
      exact h.toSound.notifier_alive hc htimed hst
    · cases htouch
  | _ => cases htouch

end Step

/-- A coroutine waits with a time limit and is notified in time: the callback task is about to read
the status. -/
def notified : List (Action ℕ ℕ Unit Bool) :=
  [.begin 0, .lock 0 (), .wait 0 0 () true .plain false, .controller 0, .controller 0,
    .controller 0, .controller 0, .begin 1, .notifyOne 1, .advance 1, .advance 1, .advance 1,
    .advance 1, .advance 1, .advance 1, .advance 1, .advance 1, .advance 1]

/-- The callback task reads the status before the caller is resumed. -/
theorem touched_before_resumed_notified : ∃ s : State ℕ ℕ Unit Bool,
    (machine ℕ ℕ fun _ => false).runUnder Timely (start fun _ => false) notified = some s ∧
    touches s (.callback 0) = some 0 ∧ (s.wait 0).resumptions = 0 := by
  have hreach := Machine.reachableUnder_of_run (M := machine ℕ ℕ fun _ : Unit => false)
    (G := Timely) (l := notified) rfl
  exact ⟨_, rfl, rfl, touched_before_resumed hreach (.callback 0) _ 0 rfl rfl⟩

/-- A coroutine waits with a time limit and is notified before the controller has started the other
tasks.  The callback task finds the event set and resumes the caller. -/
def overtaken : List (Action ℕ ℕ Unit Bool) :=
  [.begin 0, .lock 0 (), .wait 0 0 () true .plain false, .controller 0, .controller 0,
    .begin 1, .notifyOne 1, .advance 1, .advance 1, .advance 1, .advance 1, .advance 1,
    .advance 1, .advance 1, .advance 1, .advance 1, .controller 0, .callback 0, .callback 0]

/-- The callback task of a wait that has timed out reads the status after the caller has been
resumed, once a notifier has passed over its hook; and the controller starts the timeout task of a
wait that has been notified early after the caller has been resumed. -/
theorem touched_after_resumed : (∃ s : State ℕ ℕ Unit Bool,
    (machine ℕ ℕ fun _ => false).run (start fun _ => false)
      (expiring ++ meeting ++ [.advance 2, .advance 2, .advance 2]) = some s ∧
    (s.wait 0).resumptions = 1 ∧ touches s (.callback 0) = some 0 ∧
    (step s (.callback 0)).isSome = true) ∧
    ∃ s : State ℕ ℕ Unit Bool,
      (machine ℕ ℕ fun _ => false).run (start fun _ => false) overtaken = some s ∧
      (s.wait 0).resumptions = 1 ∧ touches s (.controller 0) = some 0 ∧
      (step s (.controller 0)).isSome = true := by
  exact ⟨⟨_, rfl, rfl, rfl, rfl⟩, _, rfl, rfl, rfl, rfl⟩

end Libcoro.TimedWait
