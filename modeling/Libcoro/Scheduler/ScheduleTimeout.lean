import Libcoro.Foundations.Duration
import Libcoro.WhenAny.Progress

/-!
# `schedule` with a timeout

`schedule(task, timeout)` converts the timeout to milliseconds.  If nothing is left, it awaits
`schedule(task)`; otherwise it awaits `when_any` of the task and of a timer, and turns the
alternative that has come first into a value or into `timeout_status::timeout`.

Time is counted from the call.  The code takes no time: the clock goes on only when nobody has a
step to take, so that what happens before the timer fires is known before it fires.  When a timer
fires that has been set to so many milliseconds is a parameter of the machine.

The awaiting coroutine is served as it should be in two cases (`InTime`): a timer is set and the
task does not throw before it fires, or no timer is set and the task finishes before the timeout
would be over.  Every step that leads out of them leads to a state in which it is not.
-/

namespace Libcoro.Scheduler.ScheduleTimeout

open Foundations Function

/-- `coro::timeout_status`. -/
inductive TimeoutStatus where
  | noTimeout
  | timeout
  deriving DecidableEq, Repr

/-- `timeout_ms` of the source. -/
def timeoutMs (d : Duration) : ℤ :=
  max (d.castTo .milli) 0

/-! ## The two ways to run the task -/

/-- What the awaitables of `when_any` return: the task and `make_timeout_task`. -/
def Returns (β : Type) : Fin 2 → Type
  | 0 => β
  | 1 => TimeoutStatus

/-- Where `schedule(task)` is. -/
inductive PlainPc (ε : Type*) (β : Type) where
  | scheduling
  | running
  | returned (r : Except ε β)

/-- What `schedule(task, timeout)` awaits: `schedule(task)` or `when_any`. -/
inductive Path (ε : Type*) (β : Type) where
  | plain (pc : PlainPc ε β)
  | race (s : WhenAny.State 2 ε (Returns β))

/-- The call, and the time since then. -/
structure State (ε : Type*) (β : Type) where
  clock : ℚ
  path : Path ε β
  -- History, read by no step: when the task has finished, and how.
  finished : Option (ℚ × Except ε β)

/-- Time passes, the task finishes, the timer fires, or the code takes its next step: that of
`schedule(task)`, one of `when_any`, or a compare-exchange that fails without a reason. -/
inductive Action (ε : Type*) (β : Type) where
  | wait (δ : ℚ)
  | finish (r : Except ε β)
  | fire
  | resume
  | code (b : WhenAny.Action 2 ε (Returns β))
  | spurious

variable {ε : Type*} {β : Type}

/-- What `schedule(task)` gives, as the result of `schedule(task, timeout)`: a value, or an
exception that is thrown again. -/
def passed (r : Except ε β) : Except ε (Except TimeoutStatus β) :=
  r.map .ok

/-- The result for the alternative that `when_any` has returned. -/
def expected : (Σ i, Returns β i) → Except TimeoutStatus β
  | ⟨0, v⟩ => .ok v
  | ⟨1, status⟩ => .error status

/-- What the awaiting coroutine has got. -/
def State.result (s : State ε β) : Option (Except ε (Except TimeoutStatus β)) :=
  match s.path with
  | .plain (.returned r) => some (passed r)
  | .plain _ => none
  | .race s => if s.caller = .returned then s.returned.map fun r => .ok (expected r) else none

/-- Nobody has a step to take. -/
def Path.AtRest (stopSource : Bool) : Path ε β → Prop
  | .plain .scheduling => False
  | .plain _ => True
  | .race s => WhenAny.AtRest .tuple stopSource s

instance (stopSource : Bool) (p : Path ε β) : Decidable (p.AtRest stopSource) := by
  unfold Path.AtRest
  split <;> infer_instance

/-- The timer has been set and has not fired. -/
@[simp] def Path.timerPending : Path ε β → Bool
  | .plain _ => false
  | .race s => (s.outcome 1).isNone

/-- The task of `when_any` completes. -/
def taskCompletes (r : Except ε β) : WhenAny.Action 2 ε (Returns β) :=
  .complete 0 r

/-- The timer of `when_any` completes. -/
def timerCompletes : WhenAny.Action 2 ε (Returns β) :=
  .complete 1 (.ok TimeoutStatus.timeout)

/-- The next step of `when_any`. -/
@[simp] def State.raceStep (stopSource : Bool) (s : State ε β)
    (b : WhenAny.Action 2 ε (Returns β)) : Option (State ε β) :=
  match s.path with
  | .plain _ => none
  | .race r => (WhenAny.step .tuple stopSource r b).map fun r => { s with path := .race r }

/-- One step of the system, where `delay` is the time at which the timer fires. -/
def step (delay : ℚ) (stopSource : Bool) (s : State ε β) : Action ε β → Option (State ε β)
  | .wait δ =>
    if 0 < δ ∧ s.path.AtRest stopSource ∧ (s.path.timerPending = true → s.clock + δ ≤ delay) then
      some { s with clock := s.clock + δ }
    else none
  | .finish r =>
    match s.path with
    | .plain .running =>
      some { s with path := .plain (.returned r), finished := some (s.clock, r) }
    | .plain _ => none
    | .race _ =>
      (s.raceStep stopSource (taskCompletes r)).map fun t =>
        { t with finished := some (s.clock, r) }
  | .fire =>
    if s.clock = delay then s.raceStep stopSource timerCompletes else none
  | .resume =>
    match s.path with
    | .plain .scheduling => some { s with path := .plain .running }
    | _ => none
  | .code b => if b.Code then s.raceStep stopSource b else none
  | .spurious => s.raceStep stopSource .spurious

/-- A call of `schedule(task, timeout)`, with or without a stop source, as a machine; `fires` says
when a timer that is set to so many milliseconds fires. -/
def machine (ε : Type*) (β : Type) (d : Duration) (fires : ℤ → ℚ) (stopSource : Bool) :
    Machine (State ε β) (Action ε β) where
  start :=
    { clock := 0
      path := if timeoutMs d = 0 then .plain .scheduling else .race (WhenAny.start .tuple)
      finished := none }
  step := step (fires (timeoutMs d)) stopSource

/-- The task does not throw before the time `delay` is over. -/
def NoThrow (delay : ℚ) (s : State ε β) : Action ε β → Prop
  | .finish (.error _) => delay ≤ s.clock
  | _ => True

/-- The time `delay` is not over before the task has finished. -/
def FinishesBefore (delay : ℚ) (s : State ε β) : Action ε β → Prop
  | .wait δ => s.finished.isNone → s.clock + δ < delay
  | _ => True

/-- If a timer is set the task does not throw before the timeout is over, and otherwise it finishes
before. -/
def InTime (d : Duration) (s : State ε β) (a : Action ε β) : Prop :=
  if timeoutMs d = 0 then FinishesBefore (d.lengthIn .second) s a
  else NoThrow (d.lengthIn .second) s a

instance (d : Duration) (s : State ε β) (a : Action ε β) : Decidable (InTime d s a) := by
  unfold InTime
  rcases a with δ | (r | r) | _ | _ | _ | _ <;> dsimp only [FinishesBefore, NoThrow] <;>
    infer_instance

/-- The code or the timer takes a step. -/
def Action.Prompt : Action ε β → Prop
  | .fire => True
  | .resume => True
  | .code _ => True
  | _ => False

variable {delay : ℚ} {stopSource : Bool} {s t : State ε β}

/-! ## The race against the timer -/

/-- What holds of a `when_any` at the time `clock`, with the history of the task. -/
structure Timed (delay : ℚ) (stopSource : Bool) (clock : ℚ) (finished : Option (ℚ × Except ε β))
    (r : WhenAny.State 2 ε (Returns β)) : Prop where
  reachable : (WhenAny.machine 2 ε (Returns β) .tuple stopSource).Reachable r
  task : r.outcome 0 = finished.map Prod.snd
  timer : r.outcome 1 = none ∨ r.outcome 1 = some (.ok TimeoutStatus.timeout)
  pending : r.outcome 1 = none → clock ≤ delay
  fired : r.outcome 1 ≠ none → delay ≤ clock
  past : ∀ x ∈ finished, x.1 ≤ clock
  noThrow : ∀ x ∈ finished, x.1 < delay → ∃ v, x.2 = .ok v
  -- Once time has passed, what had happened before has been answered.
  answered : ∀ x ∈ finished, x.1 < clock → r.caller = .returned
  expired : delay < clock → r.caller = .returned
  -- The winner is the one who comes first.
  early : ∀ x ∈ finished, x.1 < delay → r.wins ≠ [1]
  late : (∀ x ∈ finished, delay < x.1) → r.wins ≠ [0]

namespace Timed

variable {clock : ℚ} {finished : Option (ℚ × Except ε β)} {r r' : WhenAny.State 2 ε (Returns β)}

/-- The task wins only if it has finished. -/
lemma wins_ne_zero (h : Timed delay stopSource clock finished r) (hf : finished = none) :
    r.wins ≠ [0] := by
  intro hw
  obtain ⟨a, ha⟩ := WhenAny.outcome_of_wins h.reachable hw
  rw [h.task, hf] at ha
  cases ha

/-- The timer wins only if it has fired. -/
lemma wins_ne_one (h : Timed delay stopSource clock finished r) (hclock : clock < delay) :
    r.wins ≠ [1] := by
  intro hw
  obtain ⟨a, ha⟩ := WhenAny.outcome_of_wins h.reachable hw
  exact absurd (h.fired (by simp [ha])) (not_le.mpr hclock)

/-- `when_any` takes a step of its own. -/
lemma code (h : Timed delay stopSource clock finished r) {b : WhenAny.Action 2 ε (Returns β)}
    (hb : ∀ i x, b ≠ .complete i x) (hstep : WhenAny.step .tuple stopSource r b = some r') :
    Timed delay stopSource clock finished r' := by
  have hraced := WhenAny.raced_of_reachable h.reachable
  have ht := WhenAny.step_transition hstep
  have hreach := h.reachable.tail hstep
  have hout : r'.outcome = r.outcome := WhenAny.outcome_of_step hb hstep
  have hret : r.caller = .returned → r'.caller = .returned :=
    WhenAny.returned_of_transition hraced ht
  -- a new winner is one that `when_any` has not returned without
  have hnew : ∀ i, r'.wins = [i] → r.wins = [i] ∨ r.caller ≠ .returned := by
    intro i hw
    by_cases hnil : r.wins = []
    · refine Or.inr fun hc => ?_
      obtain ⟨j, -, hj, -⟩ := WhenAny.returned_spec h.reachable hc
      simp [hnil] at hj
    · exact Or.inl ((WhenAny.wins_of_transition hraced ht hnil).symm.trans hw)
  refine ⟨hreach, by rw [hout, h.task], by rw [hout]; exact h.timer, by rw [hout]; exact h.pending,
    by rw [hout]; exact h.fired, h.past, h.noThrow, fun x hx hlt => hret (h.answered x hx hlt),
    fun hlt => hret (h.expired hlt), fun x hx hlt hw => ?_, fun hlate hw => ?_⟩
  · obtain ⟨a, ha⟩ := WhenAny.outcome_of_wins hreach hw
    have hfired := h.fired (by rw [← hout]; simp [ha])
    rcases hnew 1 hw with hold | hc
    · exact h.early x hx hlt hold
    · exact hc (h.answered x hx (hlt.trans_le hfired))
  · obtain ⟨a, ha⟩ := WhenAny.outcome_of_wins hreach hw
    rw [hout, h.task] at ha
    obtain ⟨x, hx, -⟩ := Option.map_eq_some_iff.mp ha
    rcases hnew 0 hw with hold | hc
    · exact h.late hlate hold
    · exact hc (h.expired ((hlate x hx).trans_le (h.past x hx)))

/-- The task finishes. -/
lemma finish (h : Timed delay stopSource clock finished r) {x : Except ε β}
    (hthrow : ∀ e, x = .error e → delay ≤ clock)
    (hstep : WhenAny.step .tuple stopSource r (taskCompletes x) = some r') :
    Timed delay stopSource clock (some (clock, x)) r' := by
  obtain ⟨hnone, hout, hwins, hcaller⟩ := WhenAny.complete_spec h.reachable hstep
  have hf : finished = none := by
    rw [h.task] at hnone
    exact Option.map_eq_none_iff.mp hnone
  have hzero : r'.outcome 0 = some x := (congrFun hout 0).trans (update_self ..)
  have hone : r'.outcome 1 = r.outcome 1 := by rw [hout, update_of_ne (by decide)]
  refine ⟨h.reachable.tail (a := taskCompletes x) hstep, hzero, hone ▸ h.timer, hone ▸ h.pending,
    hone ▸ h.fired, ?_, ?_, ?_, fun hlt => hcaller.trans (h.expired hlt), ?_, ?_⟩
  · rintro _ ⟨rfl⟩
    exact le_rfl
  · rintro _ ⟨rfl⟩ hlt
    cases x with
    | ok v => exact ⟨v, rfl⟩
    | error e => exact absurd (hthrow e rfl) (not_le.mpr hlt)
  · rintro _ ⟨rfl⟩ hlt
    exact absurd hlt (lt_irrefl _)
  · rintro _ ⟨rfl⟩ hlt
    exact hwins ▸ h.wins_ne_one hlt
  · exact fun _ => hwins ▸ h.wins_ne_zero hf

/-- The timer fires. -/
lemma fire (h : Timed delay stopSource clock finished r) (hclock : clock = delay)
    (hstep : WhenAny.step .tuple stopSource r timerCompletes = some r') :
    Timed delay stopSource clock finished r' := by
  obtain ⟨-, hout, hwins, hcaller⟩ := WhenAny.complete_spec h.reachable hstep
  have hzero : r'.outcome 0 = r.outcome 0 := by rw [hout, update_of_ne (by decide)]
  have hone : r'.outcome 1 = some (.ok TimeoutStatus.timeout) :=
    (congrFun hout 1).trans (update_self ..)
  exact ⟨h.reachable.tail (a := timerCompletes) hstep, hzero.trans h.task, Or.inr hone,
    fun _ => hclock.le, fun _ => hclock.ge, h.past, h.noThrow,
    fun x hx hlt => hcaller.trans (h.answered x hx hlt), fun hlt => hcaller.trans (h.expired hlt),
    hwins ▸ h.early, hwins ▸ h.late⟩

/-- At rest, a `when_any` whose task has returned has itself returned. -/
lemma returned_of_finished (h : Timed delay stopSource clock finished r)
    (hrest : WhenAny.AtRest .tuple stopSource r) {x : ℚ × Except ε β} (hx : x ∈ finished)
    (hlt : x.1 < delay) : r.caller = .returned := by
  obtain ⟨v, hv⟩ := h.noThrow x hx hlt
  have hout : r.outcome 0 = some (.ok v) := by
    rw [h.task, Option.mem_def.mp hx, Option.map_some, hv]
    rfl
  exact hrest.returned h.reachable (hrest.wins_ne_nil h.reachable hout)

/-- At rest, a `when_any` whose timer has fired has returned. -/
lemma returned_of_fired (h : Timed delay stopSource clock finished r)
    (hrest : WhenAny.AtRest .tuple stopSource r) (hfired : r.outcome 1 ≠ none) :
    r.caller = .returned := by
  have hout := h.timer.resolve_left hfired
  exact hrest.returned h.reachable (hrest.wins_ne_nil h.reachable hout)

/-- Time passes. -/
lemma wait (h : Timed delay stopSource clock finished r) {δ : ℚ} (hδ : 0 < δ)
    (hrest : WhenAny.AtRest .tuple stopSource r)
    (hpending : r.outcome 1 = none → clock + δ ≤ delay) :
    Timed delay stopSource (clock + δ) finished r := by
  have hle : clock ≤ clock + δ := by linarith
  have hover : delay < clock + δ → r.caller = .returned := fun hlt =>
    h.returned_of_fired hrest fun hnone => absurd (hpending hnone) (not_le.mpr hlt)
  refine ⟨h.reachable, h.task, h.timer, hpending, fun hf => (h.fired hf).trans hle,
    fun x hx => (h.past x hx).trans hle, h.noThrow, fun x hx hlt => ?_, hover, h.early, h.late⟩
  rcases lt_or_ge x.1 delay with hin | hout
  · exact h.returned_of_finished hrest hx hin
  · exact hover (hout.trans_lt hlt)

/-- What `when_any` has returned for a task that has finished in time. -/
lemma returned_value (h : Timed delay stopSource clock finished r) (hret : r.caller = .returned)
    {x : ℚ × Except ε β} (hx : x ∈ finished) (hlt : x.1 < delay) :
    r.returned.map (fun y => Except.ok (expected y)) = some (passed x.2) := by
  obtain ⟨i, a, hw, hout, hvalue⟩ := WhenAny.returned_spec h.reachable hret
  rw [hvalue nofun]
  have hearly := h.early x hx hlt
  fin_cases i
  · have htask := h.task
    rw [Option.mem_def.mp hx] at htask
    obtain hok : x.2 = .ok a := Option.some.inj (htask.symm.trans hout)
    rw [hok]
    rfl
  · exact (hearly hw).elim

/-- What `when_any` has returned for a task that has not finished in time. -/
lemma returned_timeout (h : Timed delay stopSource clock finished r) (hret : r.caller = .returned)
    (hlate : ∀ x ∈ finished, delay < x.1) :
    r.returned.map (fun y => (Except.ok (expected y) : Except ε _)) =
      some (.ok (.error .timeout)) := by
  obtain ⟨i, a, hw, hout, hvalue⟩ := WhenAny.returned_spec h.reachable hret
  rw [hvalue nofun]
  have hnot := h.late hlate
  fin_cases i
  · exact (hnot hw).elim
  · rcases h.timer with htimer | htimer
    · cases htimer.symm.trans hout
    · obtain rfl : TimeoutStatus.timeout = a := by
        have heq := Option.some.inj (htimer.symm.trans hout)
        exact Except.ok.inj heq
      rfl

end Timed

/-! ## The whole call -/

section Call

variable {d : Duration} {fires : ℤ → ℚ} {r r' : WhenAny.State 2 ε (Returns β)}

/-- What a step of `when_any` does to the call. -/
lemma raceStep_eq_some {b : WhenAny.Action 2 ε (Returns β)} (hp : s.path = .race r)
    (h : s.raceStep stopSource b = some t) :
    ∃ r', WhenAny.step .tuple stopSource r b = some r' ∧ { s with path := .race r' } = t := by
  unfold State.raceStep at h
  rw [hp] at h
  exact Option.map_eq_some_iff.mp h

/-- A step of the call keeps what holds of its `when_any`. -/
lemma timed_step {a : Action ε β} (h : Timed delay stopSource s.clock s.finished r)
    (hp : s.path = .race r) (hthrow : NoThrow delay s a)
    (hstep : step delay stopSource s a = some t) :
    ∃ r', t.path = .race r' ∧ Timed delay stopSource t.clock t.finished r' := by
  cases a with
  | wait δ =>
    simp only [step, hp] at hstep
    split_ifs at hstep with hguard
    cases hstep
    obtain ⟨hδ, hrest, hpending⟩ := hguard
    exact ⟨r, rfl, h.wait hδ hrest fun hnone => hpending (by simp [hnone])⟩
  | finish x =>
    simp only [step, hp] at hstep
    obtain ⟨u, hu, rfl⟩ := Option.map_eq_some_iff.mp hstep
    obtain ⟨r', hr, rfl⟩ := raceStep_eq_some hp hu
    refine ⟨r', rfl, h.finish ?_ hr⟩
    rintro e rfl
    exact hthrow
  | fire =>
    simp only [step] at hstep
    split_ifs at hstep with hclock
    obtain ⟨r', hr, rfl⟩ := raceStep_eq_some hp hstep
    exact ⟨r', rfl, h.fire hclock hr⟩
  | resume => simp [step, hp] at hstep
  | code b =>
    simp only [step] at hstep
    split_ifs at hstep with hcode
    obtain ⟨r', hr, rfl⟩ := raceStep_eq_some hp hstep
    refine ⟨r', rfl, h.code ?_ hr⟩
    rintro i x rfl
    exact hcode
  | spurious =>
    obtain ⟨r', hr, rfl⟩ := raceStep_eq_some hp hstep
    exact ⟨r', rfl, h.code (fun i x hb => by cases hb) hr⟩

/-- With a timeout that is not lost in the conversion the call awaits `when_any`. -/
lemma timed_of_reachable (hms : timeoutMs d ≠ 0) (hpos : 0 < fires (timeoutMs d))
    (h : (machine ε β d fires stopSource).ReachableUnder (NoThrow (fires (timeoutMs d))) s) :
    ∃ r, s.path = .race r ∧ Timed (fires (timeoutMs d)) stopSource s.clock s.finished r := by
  refine h.invariant (I := fun s => ∃ r, s.path = .race r ∧
    Timed (fires (timeoutMs d)) stopSource s.clock s.finished r) ?_ ?_
  · refine ⟨WhenAny.start .tuple, if_neg hms, Machine.Reachable.start, rfl, Or.inl rfl,
      fun _ => hpos.le, fun hne => (hne rfl).elim, nofun, nofun, nofun, fun hlt => ?_, nofun, nofun⟩
    exact absurd hlt (not_lt.mpr hpos.le)
  · rintro s a t _ ⟨r, hp, hr⟩ hthrow hstep
    exact timed_step hr hp hthrow hstep

/-- The steps of `when_any` are steps of the call. -/
lemma path_of_code (hp : s.path = .race r)
    (hpath : (WhenAny.machine 2 ε (Returns β) .tuple stopSource).Path (fun _ b => b.Code) r r') :
    (machine ε β d fires stopSource).Path (fun _ a => a.Prompt) s { s with path := .race r' } := by
  induction hpath with
  | refl =>
    rw [← hp]
    exact .refl s
  | @tail q q' b _ hcode hstep ih =>
    refine ih.tail (a := .code b) trivial ?_
    simp only [machine, step, if_pos hcode, State.raceStep]
    exact Option.map_eq_some_iff.mpr ⟨_, hstep, rfl⟩

/-- The code comes to rest without any time. -/
lemma exists_rest (d : Duration) (fires : ℤ → ℚ) (hp : s.path = .race r)
    (hr : (WhenAny.machine 2 ε (Returns β) .tuple stopSource).Reachable r) :
    ∃ r', (machine ε β d fires stopSource).Path (fun _ a => a.Prompt) s
        { s with path := .race r' } ∧
      (WhenAny.machine 2 ε (Returns β) .tuple stopSource).Reachable r' ∧
      WhenAny.AtRest .tuple stopSource r' ∧ r'.outcome = r.outcome := by
  obtain ⟨r', hpath, hr', hrest⟩ := WhenAny.exists_atRest hr
  refine ⟨r', path_of_code hp hpath, hr', hrest, ?_⟩
  refine hpath.invariant (I := fun q => q.outcome = r.outcome) rfl ?_
  intro q b q' hq hcode hstep
  refine (WhenAny.outcome_of_step ?_ hstep).trans hq
  rintro i x rfl
  exact hcode

/-- Whatever the code and the timer do, the task has no part in it. -/
lemma reachableUnder_of_prompt
    (h : (machine ε β d fires stopSource).ReachableUnder (NoThrow delay) s)
    (hpath : (machine ε β d fires stopSource).Path (fun _ a => a.Prompt) s t) :
    (machine ε β d fires stopSource).ReachableUnder (NoThrow delay) t := by
  refine Machine.Path.trans h (hpath.mono fun _ a ha => ?_)
  cases a with
  | finish x => exact ha.elim
  | _ => trivial

/-- The awaiting coroutine gets `x`: it has got nothing else, and the steps of the code and of the
timer lead there before any more time passes. -/
def Gets (M : Machine (State ε β) (Action ε β)) (s : State ε β)
    (x : Except ε (Except TimeoutStatus β)) : Prop :=
  (∀ y, s.result = some y → y = x) ∧
    ∃ t, M.Path (fun _ a => a.Prompt) s t ∧ t.result = some x

/-- What `schedule(task, timeout)` owes to the coroutine that awaits it. -/
structure Served (M : Machine (State ε β) (Action ε β)) (delay : ℚ) (s : State ε β) : Prop where
  -- A task that has finished in time is passed on, as by `schedule(task)`.
  passes : ∀ x ∈ s.finished, x.1 < delay →
    Gets M s (passed x.2) ∧ (x.1 < s.clock → s.result = some (passed x.2))
  -- Before the timeout an unfinished task is waited for.
  waits : s.finished = none → s.clock < delay → s.result = none
  -- After the timeout it is not.
  timesOut : (∀ x ∈ s.finished, delay < x.1) → delay ≤ s.clock →
    Gets M s (.ok (.error .timeout)) ∧
      (delay < s.clock → s.result = some (.ok (.error .timeout)))

lemma result_race (hp : s.path = .race r) (hret : r.caller = .returned) :
    s.result = r.returned.map fun y => .ok (expected y) := by
  simp only [State.result, hp, if_pos hret]

/-- The result for a task that has finished in time. -/
lemma result_passed (hp : s.path = .race r) (hr : Timed delay stopSource s.clock s.finished r)
    (hret : r.caller = .returned) {x : ℚ × Except ε β} (hx : x ∈ s.finished) (hlt : x.1 < delay) :
    s.result = some (passed x.2) :=
  (result_race hp hret).trans (hr.returned_value hret hx hlt)

/-- The result for a task that has not finished in time. -/
lemma result_timeout (hp : s.path = .race r) (hr : Timed delay stopSource s.clock s.finished r)
    (hret : r.caller = .returned) (hlate : ∀ x ∈ s.finished, delay < x.1) :
    s.result = some (.ok (.error .timeout)) :=
  (result_race hp hret).trans (hr.returned_timeout hret hlate)

/-- There is no result before `when_any` has returned. -/
lemma returned_of_result (hp : s.path = .race r) {y : Except ε (Except TimeoutStatus β)}
    (hy : s.result = some y) : r.caller = .returned := by
  simp only [State.result, hp] at hy
  split_ifs at hy with hret
  exact hret

/-- A timer that is due fires at once, and the code comes to rest. -/
lemma exists_fired_rest (hp : s.path = .race r)
    (hr : (WhenAny.machine 2 ε (Returns β) .tuple stopSource).Reachable r)
    (hclock : s.clock = fires (timeoutMs d)) :
    ∃ r', (machine ε β d fires stopSource).Path (fun _ a => a.Prompt) s
        { s with path := .race r' } ∧
      WhenAny.AtRest .tuple stopSource r' ∧ r'.outcome 1 ≠ none := by
  obtain ⟨q, hpath, hq, hrest, -⟩ := exists_rest d fires hp hr
  by_cases hnone : q.outcome 1 = none
  · -- the timer is running, since the code is at rest
    obtain ⟨hrunning, hawaiting⟩ := hrest.running hq hnone
    obtain ⟨q', hstep⟩ : ∃ q', WhenAny.step .tuple stopSource q timerCompletes = some q' := by
      simp [WhenAny.step, timerCompletes, WhenAny.complete, hrunning, hawaiting]
    have hfire : (machine ε β d fires stopSource).step { s with path := .race q } .fire =
        some { s with path := .race q' } := by
      simp only [machine, step, if_pos hclock, State.raceStep]
      exact Option.map_eq_some_iff.mpr ⟨q', hstep, rfl⟩
    obtain ⟨r', hpath', -, hrest', hout⟩ :=
      exists_rest d fires (s := { s with path := .race q' }) rfl
        (hq.tail (a := timerCompletes) hstep)
    refine ⟨r', (hpath.tail (a := Action.fire) trivial hfire).trans hpath', hrest', ?_⟩
    rw [hout, (WhenAny.complete_spec hq hstep).2.1, update_self]
    exact Option.some_ne_none _
  · exact ⟨q, hpath, hrest, hnone⟩

/-- What holds of the `when_any` that the code and the timer lead to. -/
lemma timed_of_prompt (hms : timeoutMs d ≠ 0) (hpos : 0 < fires (timeoutMs d))
    (h : (machine ε β d fires stopSource).ReachableUnder (NoThrow (fires (timeoutMs d))) s)
    (hpath : (machine ε β d fires stopSource).Path (fun _ a => a.Prompt) s
      { s with path := .race r }) :
    Timed (fires (timeoutMs d)) stopSource s.clock s.finished r := by
  obtain ⟨r', hr', hr⟩ := timed_of_reachable hms hpos (reachableUnder_of_prompt h hpath)
  obtain rfl : r = r' := Path.race.inj hr'
  exact hr

/-- With a timer, the awaiting coroutine is served in every run in which the task does not throw
before it fires. -/
lemma served_race (hms : timeoutMs d ≠ 0) (hpos : 0 < fires (timeoutMs d))
    (h : (machine ε β d fires stopSource).ReachableUnder (NoThrow (fires (timeoutMs d))) s) :
    Served (machine ε β d fires stopSource) (fires (timeoutMs d)) s := by
  obtain ⟨r, hp, hr⟩ := timed_of_reachable hms hpos h
  refine ⟨fun x hx hlt => ⟨⟨fun y hy => ?_, ?_⟩, fun hclock => ?_⟩, fun hf hclock => ?_,
    fun hlate hclock => ⟨⟨fun y hy => ?_, ?_⟩, fun hlt => ?_⟩⟩
  · have hret := returned_of_result hp hy
    exact Option.some.inj (hy.symm.trans (result_passed hp hr hret hx hlt))
  · obtain ⟨q, hpath, -, hrest, -⟩ := exists_rest d fires hp hr.reachable
    have hq := timed_of_prompt hms hpos h hpath
    have hret := hq.returned_of_finished hrest hx hlt
    exact ⟨_, hpath, result_passed (s := { s with path := .race q }) rfl hq hret hx hlt⟩
  · exact result_passed hp hr (hr.answered x hx hclock) hx hlt
  · refine Option.eq_none_iff_forall_ne_some.mpr fun y hy => ?_
    obtain ⟨i, -, hw, -⟩ := WhenAny.returned_spec hr.reachable (returned_of_result hp hy)
    fin_cases i
    · exact hr.wins_ne_zero hf hw
    · exact hr.wins_ne_one hclock hw
  · have hret := returned_of_result hp hy
    exact Option.some.inj (hy.symm.trans (result_timeout hp hr hret hlate))
  · rcases hclock.eq_or_lt with heq | hlt
    · -- the timer is due, and fires before any time passes
      obtain ⟨q, hpath, hrest, hfired⟩ := exists_fired_rest hp hr.reachable heq.symm
      have hq := timed_of_prompt hms hpos h hpath
      have hret := hq.returned_of_fired hrest hfired
      exact ⟨_, hpath, result_timeout (s := { s with path := .race q }) rfl hq hret hlate⟩
    · exact ⟨s, .refl s, result_timeout hp hr (hr.expired hlt) hlate⟩
  · exact result_timeout hp hr (hr.expired hlt) hlate

/-! ## Without a timer -/

/-- A call without a timer has returned what the task gives, if that has finished. -/
inductive Plain (s : State ε β) : Prop
  | scheduling : s.path = .plain .scheduling → s.finished = none → Plain s
  | running : s.path = .plain .running → s.finished = none → Plain s
  | returned {x : ℚ × Except ε β} : s.path = .plain (.returned x.2) → s.finished = some x → Plain s

/-- The time `delay` is not over, or the task has finished before. -/
def OnTime (delay : ℚ) (s : State ε β) : Prop :=
  (s.finished = none → s.clock < delay) ∧ ∀ x ∈ s.finished, x.1 < delay

/-- A step of a call without a timer. -/
lemma Plain.step (delay : ℚ) {fire : ℚ} {a : Action ε β} (h : Plain s)
    (hstep : ScheduleTimeout.step fire stopSource s a = some t) :
    Plain t ∧ (OnTime delay s → FinishesBefore delay s a → OnTime delay t) := by
  cases h with
  | scheduling hp hf =>
    cases a with
    | wait δ | finish r | fire | code b | spurious =>
      simp [ScheduleTimeout.step, Path.AtRest, hp] at hstep
    | resume =>
      simp only [ScheduleTimeout.step, hp, Option.some.injEq] at hstep
      subst hstep
      exact ⟨.running rfl hf, fun hon _ => hon⟩
  | running hp hf =>
    cases a with
    | wait δ =>
      simp only [ScheduleTimeout.step, hp, Option.ite_none_right_eq_some,
        Option.some.injEq] at hstep
      obtain ⟨-, rfl⟩ := hstep
      exact ⟨.running rfl hf, fun hon hbefore => ⟨fun _ => hbefore (by simp [hf]), hon.2⟩⟩
    | finish r =>
      simp only [ScheduleTimeout.step, hp, Option.some.injEq] at hstep
      subst hstep
      refine ⟨.returned rfl rfl, fun hon _ => ⟨nofun, ?_⟩⟩
      rintro x ⟨⟩
      exact hon.1 hf
    | fire | resume | code b | spurious =>
      simp [ScheduleTimeout.step, hp] at hstep
  | returned hp hf =>
    cases a with
    | wait δ =>
      simp only [ScheduleTimeout.step, hp, Option.ite_none_right_eq_some,
        Option.some.injEq] at hstep
      obtain ⟨-, rfl⟩ := hstep
      exact ⟨.returned rfl hf, fun hon _ => ⟨fun hnone => by simp [hf] at hnone, hon.2⟩⟩
    | finish r | fire | resume | code b | spurious =>
      simp [ScheduleTimeout.step, hp] at hstep

/-- Every run of a call without a timer. -/
lemma plain_of_reachable (hms : timeoutMs d = 0)
    (h : (machine ε β d fires stopSource).Reachable s) : Plain s :=
  h.invariant (.scheduling (if_pos hms) rfl) fun _ _ _ _ hs hstep => (hs.step 0 hstep).1

/-- Without a timer, the awaiting coroutine is served in every run in which the task finishes before
the time is over. -/
lemma served_plain (hms : timeoutMs d = 0) (hpos : 0 < delay)
    (h : (machine ε β d fires stopSource).ReachableUnder (FinishesBefore delay) s) :
    Served (machine ε β d fires stopSource) delay s := by
  have hon : OnTime delay s := h.invariant ⟨fun _ => hpos, nofun⟩ fun s _ _ hs hon hbefore hstep =>
    ((plain_of_reachable hms hs.reachable).step _ hstep).2 hon hbefore
  cases plain_of_reachable hms h.reachable with
  | scheduling hp hf | running hp hf =>
    refine ⟨fun x hx => by simp [hf] at hx, fun _ _ => by simp [State.result, hp],
      fun _ hle => absurd hle (not_le.mpr (hon.1 hf))⟩
  | @returned x hp hf =>
    have hresult : s.result = some (passed x.2) := by simp [State.result, hp]
    refine ⟨fun y hy _ => ?_, fun hnone => by simp [hf] at hnone, fun hlate => ?_⟩
    · obtain rfl : x = y := Option.some.inj (hf.symm.trans hy)
      exact ⟨⟨fun z hz => Option.some.inj (hz.symm.trans hresult), s, .refl s, hresult⟩,
        fun _ => hresult⟩
    · exact absurd (hlate x hf) (not_lt.mpr (hon.2 x hf).le)

/-! ## Outside of the condition -/

/-- A call with a timer remains one. -/
lemma race_of_step {a : Action ε β} (hp : ∃ r, s.path = .race r)
    (hstep : step delay stopSource s a = some t) : ∃ r, t.path = .race r := by
  obtain ⟨r, hp⟩ := hp
  cases a with
  | wait δ =>
    simp only [step, Option.ite_none_right_eq_some, Option.some.injEq] at hstep
    obtain ⟨-, rfl⟩ := hstep
    exact ⟨r, hp⟩
  | finish x =>
    simp only [step, hp] at hstep
    obtain ⟨u, hu, rfl⟩ := Option.map_eq_some_iff.mp hstep
    obtain ⟨r', -, rfl⟩ := raceStep_eq_some hp hu
    exact ⟨r', rfl⟩
  | fire | code b =>
    simp only [step, Option.ite_none_right_eq_some] at hstep
    obtain ⟨r', -, rfl⟩ := raceStep_eq_some hp hstep.2
    exact ⟨r', rfl⟩
  | resume => simp [step, hp] at hstep
  | spurious =>
    obtain ⟨r', -, rfl⟩ := raceStep_eq_some hp hstep
    exact ⟨r', rfl⟩

/-- `when_any` throws nothing, so an exception of the task is never passed on. -/
lemma not_served_of_throw {c : ℚ} {e : ε} (hp : ∃ r, t.path = .race r)
    (hf : t.finished = some (c, .error e)) (hlt : c < delay) :
    ¬ Served (machine ε β d fires stopSource) delay t := by
  intro hserved
  obtain ⟨u, hpath, hresult⟩ := (hserved.passes _ hf hlt).1.2
  obtain ⟨r, hr⟩ := hpath.invariant (I := fun u => ∃ r, u.path = .race r) hp
    fun _ _ _ hu _ hstep => race_of_step hu hstep
  simp only [State.result, hr] at hresult
  split_ifs at hresult
  obtain ⟨y, -, hy⟩ := Option.map_eq_some_iff.mp hresult
  cases hy

/-- A task that runs without a timer is waited for however long that takes. -/
lemma not_served_of_running (hp : t.path = .plain .running) (hf : t.finished = none)
    (hle : delay ≤ t.clock) : ¬ Served (machine ε β d fires stopSource) delay t := by
  intro hserved
  obtain ⟨u, hpath, hresult⟩ := (hserved.timesOut (by simp [hf]) hle).1.2
  have hu : u.path = .plain .running := by
    refine hpath.invariant (I := fun u => u.path = .plain .running) hp ?_
    intro u a v hu ha hstep
    cases a with
    | wait δ | finish r | spurious => exact ha.elim
    | fire | resume | code b => simp [machine, step, hu] at hstep
  simp [State.result, hu] at hresult

/-- For every positive duration of any type, with or without a stop source, and for every
interleaving of the code, if the timer fires when the duration is over: in every run in which a
timer is set and the task does not throw before it fires, or none is set and the task finishes
before the duration is over, a task that has finished before is passed on, and for one that has not
the awaiting coroutine gets `timeout`.  And every step outside of this condition leads to a state in
which that is not so. -/
theorem schedule_passes_or_times_out (hd : 0 < d.lengthIn .second)
    (hfires : fires (timeoutMs d) = d.lengthIn .second) :
    (∀ s, (machine ε β d fires stopSource).ReachableUnder (InTime d) s →
      Served (machine ε β d fires stopSource) (d.lengthIn .second) s) ∧
    ∀ s a t, (machine ε β d fires stopSource).Reachable s →
      (machine ε β d fires stopSource).step s a = some t → ¬ InTime d s a →
      ¬ Served (machine ε β d fires stopSource) (d.lengthIn .second) t := by
  by_cases hms : timeoutMs d = 0
  · have hguard : ∀ (s : State ε β) a, InTime d s a → FinishesBefore (d.lengthIn .second) s a :=
      fun s a ha => by rwa [InTime, if_pos hms] at ha
    refine ⟨fun s h => served_plain hms hd (Machine.Path.mono h hguard),
      fun s a t h hstep hnot => ?_⟩
    rw [InTime, if_pos hms] at hnot
    cases a with
    | wait δ =>
      -- the task is running, since the code is at rest
      obtain ⟨hf, hle⟩ : s.finished.isNone ∧ d.lengthIn .second ≤ s.clock + δ := by
        simpa [FinishesBefore] using hnot
      simp only [machine, step, Option.ite_none_right_eq_some, Option.some.injEq] at hstep
      obtain ⟨⟨-, hrest, -⟩, rfl⟩ := hstep
      cases plain_of_reachable hms h with
      | scheduling hp => simp [hp, Path.AtRest] at hrest
      | running hp hnone => exact not_served_of_running hp hnone hle
      | returned _ hsome => simp [hsome] at hf
    | _ => exact absurd trivial hnot
  · have hguard : ∀ (s : State ε β) a, InTime d s a → NoThrow (d.lengthIn .second) s a :=
      fun s a ha => by rwa [InTime, if_neg hms] at ha
    refine ⟨fun s h => ?_, fun s a t h hstep hnot => ?_⟩
    · rw [← hfires] at hd hguard ⊢
      exact served_race hms hd (Machine.Path.mono h hguard)
    · rw [InTime, if_neg hms] at hnot
      have hrace : ∃ r, s.path = .race r :=
        h.invariant (I := fun s => ∃ r, s.path = .race r) ⟨_, if_neg hms⟩
          fun _ _ _ _ hs hst => race_of_step hs hst
      change step (fires (timeoutMs d)) stopSource s a = some t at hstep
      have hrace' := race_of_step hrace hstep
      cases a with
      | finish x =>
        cases x with
        | ok v => exact absurd trivial hnot
        | error e =>
          refine not_served_of_throw (e := e) hrace' ?_ (not_le.mp hnot)
          obtain ⟨r, hp⟩ := hrace
          simp only [step, hp] at hstep
          obtain ⟨u, -, rfl⟩ := Option.map_eq_some_iff.mp hstep
          rfl
      | _ => exact absurd trivial hnot

end Call

/-- A timer that is exact. -/
def exactTimer (ms : ℤ) : ℚ :=
  ms / 1000

/-- Two milliseconds. -/
def twoMs : Duration :=
  .signed .milli 2 (by decide)

/-- The call starts the task and the timer, and waits for them. -/
def beginRace : List (Action String ℕ) :=
  [.code .controller, .code .controller, .code .controller, .code .controller, .code .controller,
    .code .caller, .code .caller, .code .caller, .code .caller]

/-- The task finishes after one millisecond of two, and `when_any` is resumed. -/
def inTimeTrace : List (Action String ℕ) :=
  beginRace.append [.wait (1 / 1000), .finish (.ok 7), .code (.task 0), .code (.task 0),
    .code (.task 0), .code (.task 0), .code .caller, .code .caller, .code (.task 0),
    .wait (1 / 2000)]

/-- After the run above the awaiting coroutine has got the value of the task. -/
theorem schedule_passes_in_time : ∃ s : State String ℕ,
    (machine String ℕ twoMs exactTimer true).ReachableUnder (InTime twoMs) s ∧
    s.finished = some (1 / 1000, .ok 7) ∧ s.clock = 3 / 2000 ∧
    Served (machine String ℕ twoMs exactTimer true) (twoMs.lengthIn .second) s := by
  have hrun : ((machine String ℕ twoMs exactTimer true).runUnder (InTime twoMs)
      (machine String ℕ twoMs exactTimer true).start inTimeTrace).map
        (fun s => (s.finished, s.clock)) = some (some (1 / 1000, .ok 7), 3 / 2000) := by
    decide +kernel
  obtain ⟨s, hs, hfacts⟩ := Option.map_eq_some_iff.mp hrun
  obtain ⟨hf, hclock⟩ := Prod.mk.inj hfacts
  have h := Machine.reachableUnder_of_run hs
  exact ⟨s, h, hf, hclock,
    (schedule_passes_or_times_out (by decide +kernel) (by decide +kernel)).1 s h⟩

/-- Half a millisecond. -/
def shortTimeout : Duration :=
  .signed ⟨1, 1000000, Nat.one_pos, by decide⟩ 500 (by decide)

/-- The task throws at once, and the timer fires after two milliseconds. -/
def throwTrace : List (Action String ℕ) :=
  beginRace.append [.finish (.error "thrown"), .code (.task 0), .wait (1 / 500), .fire,
    .code (.task 1), .code (.task 1), .code (.task 1), .code (.task 1), .code .caller]

/-- A timeout of half a millisecond is none: one second after the call the task has not finished,
the awaiting coroutine has got nothing, and neither the code nor a timer has a step to take.  And
for a task that has thrown, which `schedule(task)` throws again, the awaiting coroutine gets
`timeout`. -/
theorem schedule_timeout_lost :
    (0 < shortTimeout.lengthIn .second ∧ ∃ s : State String ℕ,
      (machine String ℕ shortTimeout (fun _ => shortTimeout.lengthIn .second) false).Reachable s ∧
      s.finished = none ∧ shortTimeout.lengthIn .second < s.clock ∧ s.result = none ∧
      ∀ a, a.Prompt → (machine String ℕ shortTimeout
        (fun _ => shortTimeout.lengthIn .second) false).step s a = none) ∧
    ∃ s : State String ℕ,
      (machine String ℕ twoMs exactTimer false).Reachable s ∧
      s.finished = some (0, .error "thrown") ∧ s.result = some (.ok (.error .timeout)) := by
  refine ⟨⟨by decide +kernel, ?_⟩, ?_⟩
  · refine ⟨{ clock := 1, path := .plain .running, finished := none }, ?_, rfl, by decide +kernel,
      rfl, ?_⟩
    · have hms : timeoutMs shortTimeout = 0 := by decide
      refine (Machine.Reachable.start.tail (a := Action.resume)
        (t := { clock := 0, path := .plain .running, finished := none }) ?_).tail
        (a := Action.wait 1) ?_
      · simp [machine, step, hms]
      · simp [machine, step, Path.AtRest]
    · intro a ha
      cases a with
      | wait δ | finish r | spurious => exact ha.elim
      | fire | resume | code b => simp [machine, step]
  · have hrun : ((machine String ℕ twoMs exactTimer false).run
        (machine String ℕ twoMs exactTimer false).start throwTrace).map
          (fun s => (s.finished, s.result)) =
        some (some (0, .error "thrown"), some (.ok (.error .timeout))) := by
      decide +kernel
    obtain ⟨s, hs, hfacts⟩ := Option.map_eq_some_iff.mp hrun
    obtain ⟨hf, hresult⟩ := Prod.mk.inj hfacts
    exact ⟨s, Machine.reachable_of_run hs, hf, hresult⟩

end Libcoro.Scheduler.ScheduleTimeout
