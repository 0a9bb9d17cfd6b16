import Libcoro.WhenAny.Model

/-!
# The race of the tasks of `when_any`

The tasks of `when_any` are inside the tasks of the `when_all` of the controller (`Nested`).  At
most one of them wins `first_completed`, and until it has set `notify` the coroutine of `when_any`
is not past its `co_await` (`Stage`).
-/

namespace Libcoro.WhenAny

open Foundations Event Function

variable {n : ℕ} {ε : Type*} {α : Fin n → Type*} {kind : Kind} {stopSource : Bool}
  {s t : State n ε α}

/-! ## The tasks inside `when_all` -/

/-- What the control point of a task says about how its awaitable has completed. -/
def TaskPc.Holds {β : Type*} (result : Option β) (outcome : Option (Except ε β)) : TaskPc → Prop
  | .awaiting => outcome = none
  | .ended => outcome.isSome = true
  | _ => ∃ a, result = some a ∧ outcome = some (.ok a)

/-- Between the return of its awaitable and its end a task holds what was returned. -/
lemma TaskPc.holds_iff {β : Type*} {result : Option β} {outcome : Option (Except ε β)}
    {p : TaskPc} (ha : p ≠ .awaiting) (he : p ≠ .ended) :
    p.Holds result outcome ↔ ∃ a, result = some a ∧ outcome = some (.ok a) := by
  cases p with
  | awaiting => exact (ha rfl).elim
  | ended => exact (he rfl).elim
  | _ => exact Iff.rfl

/-- The tasks agree with those of the `when_all` around them. -/
structure Nested (kind : Kind) (s : State n ε α) : Prop where
  all : (WhenAll.machine n ε (fun _ => Unit) kind.form).Reachable s.all
  ended : ∀ i, s.task i = .ended ↔ (s.all.task i).Completed
  created : ∀ i, s.all.task i = .created → s.task i = .awaiting
  holds : ∀ i, (s.task i).Holds (s.result i) (s.outcome i)

namespace Nested

variable {i : Fin n}

/-- A task whose awaitable has returned and that has not ended is running for `when_all`. -/
lemma running (h : Nested kind s) (ha : s.task i ≠ .awaiting) (he : s.task i ≠ .ended) :
    s.all.task i = .running := by
  have hnot := (h.ended i).not.mp he
  cases hi : s.all.task i with
  | created => exact (ha (h.created i hi)).elim
  | running => rfl
  | _ => exact (hnot (by simp [hi, WhenAll.TaskPc.Completed])).elim

/-- What a task holds between the return of its awaitable and its end. -/
lemma returned (h : Nested kind s) (ha : s.task i ≠ .awaiting)
    (he : s.task i ≠ .ended) : ∃ a, s.result i = some a ∧ s.outcome i = some (.ok a) :=
  (TaskPc.holds_iff ha he).mp (h.holds i)

/-- A running task moves on and does not end. -/
lemma moved (h : Nested kind s) {p : TaskPc} {result : (i : Fin n) → Option (α i)}
    {outcome : (i : Fin n) → Option (Except ε (α i))} (hrun : s.all.task i = .running)
    (hp : p ≠ .ended) (hholds : p.Holds (result i) (outcome i))
    (hresult : ∀ j, j ≠ i → result j = s.result j)
    (houtcome : ∀ j, j ≠ i → outcome j = s.outcome j) :
    Nested kind { s with
      task := update s.task i p
      result := result
      outcome := outcome } := by
  refine ⟨h.all, fun j => ?_, fun j hj => ?_, fun j => ?_⟩
  · rcases eq_or_ne j i with rfl | hji
    · simp [hp, hrun, WhenAll.TaskPc.Completed]
    · simpa [hji] using h.ended j
  · rcases eq_or_ne j i with rfl | hji
    · simp [hrun] at hj
    · simpa [hji] using h.created j hj
  · rcases eq_or_ne j i with rfl | hji
    · simpa using hholds
    · simpa [hji, hresult, houtcome] using h.holds j

/-- A running task ends. -/
lemma finish (h : Nested kind s) {r : Except ε Unit}
    {outcome : (i : Fin n) → Option (Except ε (α i))} (hrun : s.all.task i = .running)
    (hsome : (outcome i).isSome = true) (houtcome : ∀ j, j ≠ i → outcome j = s.outcome j) :
    Nested kind { s.finish i r with outcome := outcome } := by
  have hstep :
      WhenAll.step kind.form s.all (.complete i r) = some (WhenAll.complete s.all i r) := by
    simp [WhenAll.step, hrun]
  have hall : (WhenAll.machine n ε (fun _ => Unit) kind.form).Reachable
      (WhenAll.complete s.all i r) := h.all.tail (a := .complete i r) hstep
  refine ⟨hall, fun j => ?_, fun j hj => ?_, fun j => ?_⟩
  · rcases eq_or_ne j i with rfl | hji
    · simp [WhenAll.complete, WhenAll.TaskPc.Completed]
    · simpa [WhenAll.complete, hji] using h.ended j
  · rcases eq_or_ne j i with rfl | hji
    · simp [WhenAll.complete] at hj
    · have hj : s.all.task j = .created := by simpa [WhenAll.complete, hji] using hj
      simpa [hji] using h.created j hj
  · rcases eq_or_ne j i with rfl | hji
    · simpa [TaskPc.Holds] using hsome
    · simpa [hji, houtcome] using h.holds j

/-- A task that has its value moves on towards its end. -/
lemma advance (h : Nested kind s) {p : TaskPc} (ha : s.task i ≠ .awaiting)
    (he : s.task i ≠ .ended) (hp : p ≠ .awaiting ∧ p ≠ .ended) :
    Nested kind { s with task := update s.task i p } :=
  h.moved (h.running ha he) hp.2 ((TaskPc.holds_iff hp.1 hp.2).mpr (h.returned ha he))
    (fun _ _ => rfl) fun _ _ => rfl

/-- A task that has its value ends. -/
lemma finish_ok (h : Nested kind s) (ha : s.task i ≠ .awaiting)
    (he : s.task i ≠ .ended) : Nested kind (s.finish i (.ok ())) := by
  obtain ⟨a, -, hout⟩ := h.returned ha he
  exact h.finish (r := .ok ()) (h.running ha he) (by simp [hout]) fun _ _ => rfl

/-- The `when_all` of the controller makes a step that completes no task. -/
lemma step_all (h : Nested kind s) {a : WhenAll.Action n ε fun _ => Unit}
    {all : WhenAll.State n ε fun _ => Unit} (hstep : WhenAll.step kind.form s.all a = some all)
    (htask : ∀ i, ((all.task i).Completed ↔ (s.all.task i).Completed) ∧
      (all.task i = .created → s.all.task i = .created)) :
    Nested kind { s with all := all } :=
  ⟨h.all.tail hstep, fun i => (h.ended i).trans (htask i).1.symm,
    fun i hi => h.created i ((htask i).2 hi), h.holds⟩

/-- Every transition keeps the tasks inside those of `when_all`. -/
lemma transition (h : Nested kind s) (ht : Transition kind stopSource s t) : Nested kind t := by
  cases ht with
  | controller hawait =>
    exact h.step_all (a := .await) hawait ((WhenAll.latched_of_reachable h.all).await_task hawait)
  | @notify i a _ hnotify => exact h.step_all (a := .notify i) hnotify (WhenAll.notify_task hnotify)
  | @returns i a hrun _ =>
    refine h.moved hrun nofun ⟨a, by simp, by simp⟩ ?_ ?_
    all_goals
      intro j hj
      simp [hj]
  | @throws i e hrun _ =>
    refine h.finish hrun (by simp) ?_
    intro j hj
    simp [hj]
  | lose hi _ => exact h.finish_ok (by simp [hi]) (by simp [hi])
  | @win i hi _ =>
    exact { h.advance (i := i) (p := kind.won) (by simp [hi]) (by simp [hi])
      (by cases kind <;> simp [Kind.won]) with }
  | @write i hi =>
    exact { h.advance (i := i) (p := .set) (by simp [hi]) (by simp [hi]) (by simp) with }
  | @setAwaited i hi _ =>
    exact { h.advance (i := i) (p := .resume) (by simp [hi]) (by simp [hi]) (by simp) with }
  | @setAlone i hi _ | @resume i hi =>
    exact { h.finish_ok (i := i) (by simp [hi]) (by simp [hi]) with }
  | _ => exact { h with }

end Nested

/-- The tasks are inside those of `when_all` in every reachable state. -/
lemma nested_of_reachable (h : (machine n ε α kind stopSource).Reachable s) : Nested kind s := by
  refine h.invariant ?_ ?_
  · refine ⟨Machine.Reachable.start, fun i => ?_, fun _ _ => rfl, fun _ => rfl⟩
    simp [machine, start, WhenAll.start, WhenAll.TaskPc.Completed]
  · intro s a t _ hs hstep
    exact hs.transition (step_transition hstep)

/-! ## The winner and the coroutine of `when_any` -/

/-- The coroutine of `when_any` is not past its `co_await`. -/
def CallerPc.Waiting : CallerPc → Prop
  | .controller => True
  | .awaitReady => True
  | .suspendLoad => True
  | .suspendExchange => True
  | .suspended => True
  | _ => False

/-- The winner has yet to write `return_value`, to set `notify` or to resume. -/
@[simp] def TaskPc.Ahead : TaskPc → Prop
  | .write => True
  | .set => True
  | .resume => True
  | _ => False

/-- `notify` has not been set, and the coroutine of `when_any` waits for it or is about to. -/
structure Open (s : State n ε α) : Prop where
  notify : s.notify ≠ .this
  caller : s.caller.Waiting
  suspended : s.caller = .suspended ↔ s.notify = .awaiter ()

/-- What the `i`-th awaitable has returned is in `return_value`, if there is one. -/
def Stored (kind : Kind) (s : State n ε α) (i : Fin n) : Prop :=
  ∃ a, s.outcome i = some (.ok a) ∧ (kind ≠ .voidRange → s.returnValue = some ⟨i, a⟩)

/-- How far the race is. -/
inductive Stage (kind : Kind) (s : State n ε α) : Prop
  | racing : s.wins = [] → Open s → Stage kind s
  | writing {i : Fin n} : s.wins = [i] → s.task i = .write → Open s → Stage kind s
  | setting {i : Fin n} : s.wins = [i] → s.task i = .set → Open s → Stored kind s i → Stage kind s
  | resuming {i : Fin n} : s.wins = [i] → s.task i = .resume → s.notify = .this →
      s.caller = .suspended → Stored kind s i → Stage kind s
  | settled {i : Fin n} : s.wins = [i] → s.task i = .ended → s.notify = .this →
      s.caller ≠ .suspended → Stored kind s i → Stage kind s

/-- The race is fair: one winner, whom everybody who has lost comes after. -/
structure Raced (kind : Kind) (s : State n ε α) : Prop where
  first : s.firstCompleted = true ↔ s.wins ≠ []
  ahead : ∀ i, (s.task i).Ahead → s.wins = [i]
  lost : ∀ i a, s.task i = .ended → s.outcome i = some (.ok a) → s.wins ≠ []
  stage : Stage kind s

/-- A quiet move of the coroutine of `when_any`. -/
lemma Quiet.spec {q p : CallerPc} (h : Quiet stopSource s q p) :
    q ≠ .suspended ∧ p ≠ .suspended ∧ (s.notify ≠ .this → p.Waiting) := by
  cases h with
  | ready hset | loadSet hset
  | reloadSet hset => exact ⟨nofun, by cases stopSource <;> nofun, fun hnot => (hnot hset).elim⟩
  | _ => exact ⟨nofun, nofun, fun _ => trivial⟩

namespace Stage

/-- The winner has its value and has won. -/
lemma winner (h : Stage kind s) {i : Fin n} (hi : s.wins = [i]) :
    (s.task i).Ahead ∨ s.task i = .ended := by
  cases h with
  | racing hw _ => simp [hw] at hi
  | writing hw ht _ | setting hw ht _ _ | resuming hw ht _ _ _ =>
    obtain rfl : _ = i := by simpa [hw] using hi
    exact Or.inl (by simp [ht])
  | settled hw ht _ _ _ =>
    obtain rfl : _ = i := by simpa [hw] using hi
    exact Or.inr ht

/-- The stage of the race depends on the winner, on `notify`, `return_value` and the coroutine of
`when_any`. -/
lemma congr (h : Stage kind s) (hwins : t.wins = s.wins) (hnotify : t.notify = s.notify)
    (hcaller : t.caller = s.caller) (hvalue : t.returnValue = s.returnValue)
    (htask : ∀ i, s.wins = [i] → t.task i = s.task i ∧ t.outcome i = s.outcome i) :
    Stage kind t := by
  have hopen : Open s → Open t := by
    rintro ⟨hn, hc, hs⟩
    exact ⟨hnotify ▸ hn, hcaller ▸ hc, by rw [hcaller, hnotify, hs]⟩
  have hstored : ∀ i, s.wins = [i] → Stored kind s i → Stored kind t i := by
    rintro i hi ⟨a, hout, hret⟩
    exact ⟨a, (htask i hi).2.trans hout, fun hk => hvalue.trans (hret hk)⟩
  cases h with
  | racing hw ho => exact .racing (hwins.trans hw) (hopen ho)
  | writing hw ht ho => exact .writing (hwins.trans hw) ((htask _ hw).1.trans ht) (hopen ho)
  | setting hw ht ho hs =>
    exact .setting (hwins.trans hw) ((htask _ hw).1.trans ht) (hopen ho) (hstored _ hw hs)
  | resuming hw ht hn hc hs =>
    exact .resuming (hwins.trans hw) ((htask _ hw).1.trans ht) (hnotify.trans hn)
      (hcaller.trans hc) (hstored _ hw hs)
  | settled hw ht hn hc hs =>
    exact .settled (hwins.trans hw) ((htask _ hw).1.trans ht) (hnotify.trans hn)
      (hcaller ▸ hc) (hstored _ hw hs)

/-- The coroutine of `when_any` moves on. -/
lemma quiet (h : Stage kind s) {p : CallerPc} (hq : Quiet stopSource s s.caller p) :
    Stage kind { s with caller := p } := by
  obtain ⟨hold, hnew, hwaiting⟩ := hq.spec
  have hopen : Open s → Open { s with caller := p } := by
    rintro ⟨hn, _, hs⟩
    exact ⟨hn, hwaiting hn, iff_of_false hnew fun ha => hold (hs.mpr ha)⟩
  cases h with
  | racing hw ho => exact .racing hw (hopen ho)
  | writing hw ht ho => exact .writing hw ht (hopen ho)
  | setting hw ht ho hs => exact .setting hw ht (hopen ho) hs
  | resuming _ _ _ hc _ => exact (hold hc).elim
  | settled hw ht hn _ hs => exact .settled hw ht hn hnew hs

/-- The coroutine of `when_any` suspends. -/
lemma suspend (h : Stage kind s) (hnull : s.notify = .null) {k : ℕ} :
    Stage kind { s with notify := .awaiter (), caller := .suspended, suspensions := k } := by
  have hopen : Open { s with notify := .awaiter (), caller := .suspended, suspensions := k } :=
    ⟨nofun, trivial, iff_of_true rfl rfl⟩
  cases h with
  | racing hw _ => exact .racing hw hopen
  | writing hw ht _ => exact .writing hw ht hopen
  | setting hw ht _ hs => exact .setting hw ht hopen hs
  | resuming _ _ hn _ _ | settled _ _ hn _ _ => simp [hnull] at hn

/-- Once the coroutine of `when_any` is past its `co_await` the race is settled. -/
lemma settled_of_past (h : Stage kind s) (hc : ¬ s.caller.Waiting) :
    ∃ i, s.wins = [i] ∧ s.task i = .ended ∧ s.notify = .this ∧ Stored kind s i := by
  cases h with
  | racing _ ho | writing _ _ ho | setting _ _ ho _ => exact (hc ho.caller).elim
  | resuming _ _ _ hs _ => exact (hc (by simp [hs, CallerPc.Waiting])).elim
  | settled hw ht hn _ hs => exact ⟨_, hw, ht, hn, hs⟩

end Stage

namespace Raced

variable {i : Fin n}

/-- The winner is about to write: `notify` has not been set. -/
lemma open_of_write (h : Raced kind s) (hi : s.task i = .write) :
    s.wins = [i] ∧ Open s := by
  have hw := h.ahead i (by simp [hi])
  refine ⟨hw, ?_⟩
  cases h.stage with
  | racing _ ho | writing _ _ ho | setting _ _ ho _ => exact ho
  | resuming hw' ht _ _ _ | settled hw' ht _ _ _ =>
    obtain rfl : _ = i := by simpa [hw] using hw'.symm
    simp [hi] at ht

/-- The winner is about to set `notify`: the value has been stored. -/
lemma open_of_set (h : Raced kind s) (hi : s.task i = .set) :
    s.wins = [i] ∧ Open s ∧ Stored kind s i := by
  have hw := h.ahead i (by simp [hi])
  refine ⟨hw, ?_⟩
  cases h.stage with
  | racing hw' _ => simp [hw] at hw'
  | setting hw' _ ho hs =>
    obtain rfl : _ = i := by simpa [hw] using hw'.symm
    exact ⟨ho, hs⟩
  | writing hw' ht _ | resuming hw' ht _ _ _ | settled hw' ht _ _ _ =>
    obtain rfl : _ = i := by simpa [hw] using hw'.symm
    simp [hi] at ht

/-- The winner is about to resume: the coroutine of `when_any` is suspended. -/
lemma suspended_of_resume (h : Raced kind s) (hi : s.task i = .resume) :
    s.wins = [i] ∧ s.notify = .this ∧ s.caller = .suspended ∧ Stored kind s i := by
  have hw := h.ahead i (by simp [hi])
  refine ⟨hw, ?_⟩
  cases h.stage with
  | racing hw' _ => simp [hw] at hw'
  | resuming hw' _ hn hc hs =>
    obtain rfl : _ = i := by simpa [hw] using hw'.symm
    exact ⟨hn, hc, hs⟩
  | writing hw' ht _ | setting hw' ht _ _ | settled hw' ht _ _ _ =>
    obtain rfl : _ = i := by simpa [hw] using hw'.symm
    simp [hi] at ht

/-- A task that has not won the flag, and does not, moves on. -/
lemma other (h : Raced kind s) {p : TaskPc} {all : WhenAll.State n ε fun _ => Unit}
    {result : (i : Fin n) → Option (α i)} {outcome : (i : Fin n) → Option (Except ε (α i))}
    (hi : s.task i = .awaiting ∨ s.task i = .exchange) (hp : ¬ p.Ahead)
    (hlost : ∀ a, p = .ended → outcome i = some (.ok a) → s.wins ≠ [])
    (houtcome : ∀ j, j ≠ i → outcome j = s.outcome j) :
    Raced kind { s with
      task := update s.task i p
      all := all
      result := result
      outcome := outcome } := by
  refine ⟨h.first, fun j hj => ?_, fun j a hj hout => ?_, h.stage.congr rfl rfl rfl rfl ?_⟩
  · rcases eq_or_ne j i with rfl | hji
    · exact (hp (by simpa using hj)).elim
    · exact h.ahead j (by simpa [hji] using hj)
  · rcases eq_or_ne j i with rfl | hji
    · exact hlost a (by simpa using hj) hout
    · exact h.lost j a (by simpa [hji] using hj) (by simpa [houtcome j hji] using hout)
  · intro j hw
    -- the winner has passed the flag
    have hji : j ≠ i := by
      rintro rfl
      rcases hi with hi | hi
      all_goals simpa [hi] using h.stage.winner hw
    simp [hji, houtcome j hji]

/-- The winner moves on, into a state of the right stage. -/
lemma advance (h : Raced kind s) {p : TaskPc} (hw : s.wins = [i])
    (htask : t.task = update s.task i p) (hwins : t.wins = s.wins)
    (hfirst : t.firstCompleted = s.firstCompleted) (hstage : Stage kind t) : Raced kind t := by
  refine ⟨by rw [hfirst, hwins, h.first], fun j hj => ?_, fun j a _ _ => ?_, hstage⟩
  · rcases eq_or_ne j i with rfl | hji
    · exact hwins.trans hw
    · exact hwins.trans (h.ahead j (by simpa [htask, hji] using hj))
  · simp [hwins, hw]

/-- A task wins the flag. -/
lemma win (h : Raced kind s) (hnested : Nested kind s) (hi : s.task i = .exchange)
    (hfirst : s.firstCompleted = false) :
    Raced kind { s with
      firstCompleted := true
      task := update s.task i kind.won
      wins := i :: s.wins } := by
  have hnone : s.wins = [] := by simpa [hfirst] using h.first.not
  have hopen : Open s := by
    cases h.stage with
    | racing _ ho | writing _ _ ho | setting _ _ ho _ => exact ho
    | resuming hw _ _ _ _ | settled hw _ _ _ _ => simp [hnone] at hw
  refine ⟨by simp, fun j hj => ?_, by simp, ?_⟩
  · rcases eq_or_ne j i with rfl | hji
    · simp [hnone]
    · simpa [hnone] using h.ahead j (by simpa [hji] using hj)
  · have hw : i :: s.wins = [i] := by rw [hnone]
    obtain ⟨a, -, hout⟩ := hnested.returned (i := i) (by simp [hi]) (by simp [hi])
    cases kind with
    | tuple | range => exact .writing hw (update_self _ _ _) { hopen with }
    | voidRange =>
      exact .setting hw (update_self _ _ _) { hopen with }
        ⟨a, hout, fun hk => (hk rfl).elim⟩

/-- Every transition keeps the race fair. -/
lemma transition (h : Raced kind s) (hnested : Nested kind s)
    (ht : Transition kind stopSource s t) : Raced kind t := by
  cases ht with
  | quiet hq => exact ⟨h.first, h.ahead, h.lost, h.stage.quiet hq⟩
  | suspend _ hnull => exact ⟨h.first, h.ahead, h.lost, h.stage.suspend hnull⟩
  | requestStop hc | readValue hc =>
    obtain ⟨i, hw, hi, hn, hs⟩ := h.stage.settled_of_past (by simp [hc, CallerPc.Waiting])
    exact ⟨h.first, h.ahead, h.lost, .settled hw hi hn nofun hs⟩
  | controller | destroy | notify =>
    exact ⟨h.first, h.ahead, h.lost, h.stage.congr rfl rfl rfl rfl fun _ _ => ⟨rfl, rfl⟩⟩
  | @returns i a _ hi =>
    exact h.other (Or.inl hi) nofun nofun fun j hj => by simp [hj]
  | @throws i e _ hi =>
    exact h.other (Or.inl hi) nofun (by simp) fun j hj => by simp [hj]
  | @lose i hi hfirst =>
    exact h.other (Or.inr hi) nofun (fun _ _ _ => h.first.mp hfirst) fun _ _ => rfl
  | win hi hfirst => exact h.win hnested hi hfirst
  | @write i hi =>
    obtain ⟨hw, hopen⟩ := h.open_of_write hi
    obtain ⟨a, hres, hout⟩ := hnested.returned (i := i) (by simp [hi]) (by simp [hi])
    refine h.advance hw rfl rfl rfl ?_
    exact .setting hw (update_self _ _ _) { hopen with }
      ⟨a, hout, fun _ => by simp [hres]⟩
  | @setAwaited i hi hawaited =>
    obtain ⟨hw, hopen, hs⟩ := h.open_of_set hi
    refine h.advance hw rfl rfl rfl ?_
    exact .resuming hw (update_self _ _ _) rfl (hopen.suspended.mpr hawaited) hs
  | @setAlone i hi halone =>
    obtain ⟨hw, hopen, hs⟩ := h.open_of_set hi
    refine h.advance hw rfl rfl rfl ?_
    exact .settled hw (update_self _ _ _) rfl (hopen.suspended.not.mpr halone) hs
  | @resume i hi =>
    obtain ⟨hw, hn, -, hs⟩ := h.suspended_of_resume hi
    refine h.advance hw rfl rfl rfl ?_
    exact .settled hw (update_self _ _ _) hn (by cases stopSource <;> nofun) hs

end Raced

/-- The race is fair in every reachable state. -/
lemma raced_of_reachable (h : (machine n ε α kind stopSource).Reachable s) : Raced kind s := by
  refine h.invariant ?_ ?_
  · have hopen : Open (machine n ε α kind stopSource).start :=
      ⟨nofun, trivial, by simp [machine, start]⟩
    exact ⟨by simp [machine, start], nofun, nofun, .racing rfl hopen⟩
  · intro s a t hr hs hstep
    exact hs.transition (nested_of_reachable hr) (step_transition hstep)

end Libcoro.WhenAny
