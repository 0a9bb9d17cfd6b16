import Libcoro.Scheduler.PollCompletion

/-!
# Every poll is completed at most once

An event of a descriptor, the stop token and the timer of one poll may all be in one batch, in any
order, and the loop looks at `m_processed` before it ends the poll by one of them.  The proof
follows a poll through the loop: it is open, or it is among those that were found due, or the loop
is about to take its entry out of `m_timed_events`, or it waits for the coroutine to suspend, or its
handle has been appended to `m_handles_to_resume` (`Record.At`).  At each of these places it is
fixed whether the poll is processed, what was taken up first for it, and whether it still has an
entry.

An entry leaves `m_timed_events` in one of two ways: with those that are due, or through the
iterator in `m_timer_pos`.  An event cannot come before the iterator is stored (`Agrees.waiting`),
so that an entry is in the map whenever it is erased through its iterator.
-/

namespace Libcoro.Scheduler.PollCompletion

open Foundations Poll Function

variable {π φ : Type*}

/-! ## The polling coroutine -/

/-- The poll is past its insertion into `m_timed_events`, if it makes one. -/
def Pc.Begun : Pc → Prop
  | .idle => False
  | .addTimer _ => False
  | _ => True

/-- The poll has stored its timer position, if it has one, and its handle is not handed over. -/
@[simp] def Pc.Waiting : Pc → Prop
  | .watch => True
  | .watchCancel => True
  | .suspend => True
  | .suspended => True
  | _ => False

/-- The handle of the poll has been handed over. -/
@[simp] def Pc.Resumed : Pc → Prop
  | .resumed => True
  | .returned => True
  | _ => False

/-- How the coroutine, its `poll_info` and its time point fit together. -/
structure Agrees (c : Pc) (pi : PollInfo φ) (tp : Option ℤ) : Prop where
  token : pi.mCancelTrigger.isSome → pi.mFd.isSome
  pos : pi.mTimerPos = true → tp.isSome
  timed : tp.isSome → c.Begun
  processed : pi.mProcessed = true → c.Begun
  assign : c = .assignPos → tp.isSome
  waiting : c.Waiting → pi.mFd.isSome → tp.isSome → pi.mTimerPos = true

/-- An event has been reported for a poll only if it can have one. -/
def Reported (c : Pc) (pi : PollInfo φ) (st : PollStatus) : Prop :=
  st ≠ .timeout ∧ pi.mFd.isSome ∧ (c.Waiting ∨ c.Resumed)

/-! ## The place of a poll in the loop -/

/-- What the loop is doing with a poll. -/
inductive Role where
  | free
  | due
  | removing (status : PollStatus)
  | awaitEvent
  | awaitTimeout
  deriving DecidableEq, Repr

/-- What is recorded of a poll: its flag and status, what was taken up first for it, whether its
handle has been appended, whether it has an entry in `m_timed_events`, its time point, and the time
at which it was found due. -/
structure Record where
  processed : Bool
  status : PollStatus
  first : Option PollStatus
  appended : Prop
  listed : Prop
  timePoint : Option ℤ
  timedOutAt : Option ℤ

namespace Record

/-- The poll was found due, and its time point was over. -/
def Expired (r : Record) : Prop :=
  ∃ tp now, r.timePoint = some tp ∧ r.timedOutAt = some now ∧ tp ≤ now

/-- Nothing has been taken up for the poll. -/
structure Open (r : Record) : Prop where
  processed : r.processed = false
  first : r.first = none
  appended : ¬r.appended

/-- The loop is ending the poll with the status `st`. -/
structure Ended (r : Record) (st : PollStatus) : Prop where
  processed : r.processed = true
  first : r.first = some st
  appended : ¬r.appended

/-- The loop has appended the handle of the poll. -/
structure Done (r : Record) : Prop where
  processed : r.processed = true
  first : r.first = some r.status
  appended : r.appended
  listed : ¬r.listed
  expired : r.status = .timeout → r.Expired

/-- What holds of a poll, given what the loop is doing with it. -/
def At (r : Record) : Role → Prop
  | .free => (r.Open ∧ (r.timePoint.isSome → r.listed)) ∨ r.Done
  | .due => r.Open ∧ ¬r.listed ∧ r.Expired
  | .removing st => r.Ended st ∧ r.listed ∧ st ≠ .timeout
  | .awaitEvent => r.Ended r.status ∧ ¬r.listed ∧ r.status ≠ .timeout
  | .awaitTimeout => r.Ended .timeout ∧ ¬r.listed ∧ r.Expired

variable {r : Record} {role : Role}

/-- A poll whose handle has been appended is done with. -/
lemma At.done_of_appended (h : r.At role) (happ : r.appended) : r.Done := by
  cases role with
  | free => exact h.resolve_left fun hopen => hopen.1.appended happ
  | due | removing st | awaitEvent | awaitTimeout => exact absurd happ h.1.appended

/-- The loop does nothing with a poll that is not processed and has no time point. -/
lemma At.open_of_untimed (h : r.At role) (hproc : r.processed ≠ true) (htp : r.timePoint = none) :
    role = .free ∧ r.Open := by
  cases role with
  | free =>
    rcases h with ⟨hopen, -⟩ | hdone
    · exact ⟨rfl, hopen⟩
    · exact absurd hdone.processed hproc
  | due =>
    obtain ⟨tp, now, hsome, -, -⟩ := h.2.2
    cases htp.symm.trans hsome
  | removing st | awaitEvent | awaitTimeout => exact absurd h.1.processed hproc

end Record

/-- The polls that were found due and that the loop has not yet finished with. -/
def LoopPc.due : LoopPc π → List π
  | .timeouts due => due
  | .awaitTimeout p due => p :: due
  | _ => []

variable [DecidableEq π]

/-- What the loop is doing with the poll `p`. -/
@[simp] def LoopPc.role (p : π) : LoopPc π → Role
  | .removeTimer q status => if p = q then .removing status else .free
  | .awaitEvent q => if p = q then .awaitEvent else .free
  | .timeouts due => if p ∈ due then .due else .free
  | .awaitTimeout q due => if p = q then .awaitTimeout else if p ∈ due then .due else .free
  | _ => .free

/-- The record of the poll `p`. -/
@[simp] def State.record (s : State π φ) (p : π) : Record where
  processed := (s.info p).mProcessed
  status := (s.info p).mPollStatus
  first := s.occurred.lookup p
  appended := p ∈ s.appended
  listed := p ∈ s.mTimedEvents.keys
  timePoint := s.timePoint p
  timedOutAt := s.timedOutAt p

/-! ## The invariant -/

/-- Every poll has at most one entry in `m_timed_events`, with its own time point. -/
structure Timed (q : TimedQueue ℤ π) (timePoint : π → Option ℤ) : Prop where
  nodup : q.keys.Nodup
  timePoint : ∀ e ∈ q.entries, timePoint e.2 = some e.1

/-- Only appended handles are resumed, and a poll returns the status that it has. -/
structure Handles (s : State π φ) : Prop where
  nodup : s.appended.Nodup
  queued : ∀ p, some p ∈ s.mHandlesToResume → p ∈ s.appended
  resumed : ∀ p, (s.pc p).Resumed → p ∈ s.appended
  returned : ∀ p st, s.returned p = some st → p ∈ s.appended ∧ (s.info p).mPollStatus = st

/-- The polls, the map and the loop fit together. -/
structure Sound (s : State π φ) : Prop where
  agrees : ∀ p, Agrees (s.pc p) (s.info p) (s.timePoint p)
  reported : ∀ p st, .poll p st ∈ s.mRecentEvents → Reported (s.pc p) (s.info p) st
  timed : Timed s.mTimedEvents s.timePoint
  due : s.loop.due.Nodup
  place : ∀ p, (s.record p).At (s.loop.role p)
  handles : Handles s

variable {s t : State π φ} {p q : π} {st : PollStatus}

variable {m : TimedQueue ℤ π}

omit [DecidableEq π] in
/-- An entry of a poll has its time point. -/
lemma Timed.isSome {tp : π → Option ℤ} (h : Timed m tp) (hp : p ∈ m.keys) :
    (tp p).isSome := by
  obtain ⟨e, he, rfl⟩ := List.mem_map.mp hp
  rw [h.timePoint e he]
  rfl

/-- Nothing happens in the loop to a poll that has not made its entry. -/
lemma Sound.open_of_not_begun (h : Sound s) (hc : ¬(s.pc p).Begun) :
    s.loop.role p = .free ∧ (s.record p).Open ∧ s.timePoint p = none := by
  have htp : s.timePoint p = none := by
    by_contra hne
    exact hc ((h.agrees p).timed (Option.isSome_iff_ne_none.mpr hne))
  obtain ⟨hr, hopen⟩ := (h.place p).open_of_untimed (fun hp => hc ((h.agrees p).processed hp)) htp
  exact ⟨hr, hopen, htp⟩

/-- While the loop goes through the events, a poll that is not processed is open. -/
lemma Sound.open_of_processing (h : Sound s) (hl : s.loop = .processing)
    (hp : (s.info p).mProcessed = false) :
    (s.record p).Open ∧ ((s.timePoint p).isSome → p ∈ s.mTimedEvents.keys) := by
  have hat := h.place p
  rw [hl] at hat
  rcases hat with hopen | hdone
  · exact hopen
  · exact absurd hdone.processed (by simp [hp])

/-- A poll for which an event was reported and that is not processed has not been resumed. -/
lemma Sound.waiting_of_open (h : Sound s) (hr : Reported (s.pc p) (s.info p) st)
    (ho : (s.record p).Open) : (s.pc p).Waiting :=
  hr.2.2.resolve_right fun hres => ho.appended (h.handles.resumed p hres)

/-! ## The coroutines and the reported events -/

variable {pi : PollInfo φ} {c : Pc} {tp : Option ℤ}

omit [DecidableEq π] in
/-- What the loop writes into a `poll_info` leaves the agreement as it is. -/
lemma Agrees.of_eq {pi' : PollInfo φ} (h : Agrees c pi tp)
    (hfd : pi'.mFd = pi.mFd) (htok : pi'.mCancelTrigger = pi.mCancelTrigger)
    (hpos : pi'.mTimerPos = pi.mTimerPos) (hproc : pi'.mProcessed = true → c.Begun) :
    Agrees c pi' tp where
  token := by rw [htok, hfd]; exact h.token
  pos := by rw [hpos]; exact h.pos
  timed := h.timed
  processed := hproc
  assign := h.assign
  waiting := by rw [hfd, hpos]; exact h.waiting

/-- A coroutine goes on after its entry is made. -/
lemma Agrees.move {c' : Pc} (h : Agrees c pi tp)
    (hb : c'.Begun) (ha : c' ≠ .assignPos) (hw : c'.Waiting → c.Waiting) : Agrees c' pi tp where
  token := h.token
  pos := h.pos
  timed _ := hb
  processed _ := hb
  assign heq := absurd heq ha
  waiting hc := h.waiting (hw hc)

/-- Only a poll that has been registered is reported. -/
lemma Reported.begun (h : Reported c pi st) : c.Begun := by
  obtain ⟨-, -, hc⟩ := h
  cases c <;> simp_all [Pc.Begun]

/-- The agreement after a `poll_info` is overwritten. -/
lemma agrees_setInfo (h : ∀ q, Agrees (s.pc q) (s.info q) (s.timePoint q))
    (hp : Agrees (s.pc p) pi (s.timePoint p)) (q : π) :
    Agrees ((s.setInfo p pi).pc q) ((s.setInfo p pi).info q) ((s.setInfo p pi).timePoint q) := by
  rcases eq_or_ne q p with rfl | hq
  · simpa using hp
  · simpa [hq] using h q

/-- The agreement after a coroutine has moved. -/
lemma agrees_goto (h : ∀ q, Agrees (s.pc q) (s.info q) (s.timePoint q))
    (hp : Agrees c (s.info p) (s.timePoint p)) (q : π) :
    Agrees ((s.goto p c).pc q) ((s.goto p c).info q) ((s.goto p c).timePoint q) := by
  rcases eq_or_ne q p with rfl | hq
  · simpa using hp
  · simpa [hq] using h q

/-- The agreement of a new `poll_info`. -/
lemma Agrees.begin (hproc : pi.mProcessed = false)
    (hpos : pi.mTimerPos = false) (htok : pi.mCancelTrigger.isSome → pi.mFd.isSome)
    (hc : c ≠ .assignPos) : Agrees c pi none where
  token := htok
  pos hp := by simp [hpos] at hp
  timed hp := by simp at hp
  processed hp := by simp [hproc] at hp
  assign heq := absurd heq hc
  waiting _ _ hp := by simp at hp

/-- The agreement after the entry of a poll is made. -/
lemma Agrees.addTimer (h : Agrees c pi tp) (tp' : ℤ) :
    Agrees (if pi.mFd.isSome then .assignPos else .suspend) pi (some tp') := by
  split_ifs with hfd
  · exact ⟨h.token, fun _ => rfl, fun _ => trivial, fun _ => trivial, fun _ => rfl, nofun⟩
  · exact ⟨h.token, fun _ => rfl, fun _ => trivial, fun _ => trivial, fun _ => rfl,
      fun _ hsome => absurd hsome hfd⟩

/-- The agreement after the iterator of the entry is stored. -/
lemma Agrees.assignPos (h : Agrees .assignPos pi tp) :
    Agrees .watch { pi with mTimerPos := true } tp :=
  ⟨h.token, fun _ => h.assign rfl, fun _ => trivial, fun _ => trivial, nofun, fun _ _ _ => rfl⟩

/-- Every step keeps the agreement. -/
lemma Sound.agrees_transition (h : Sound s) (ht : Transition s t) (q : π) :
    Agrees (t.pc q) (t.info q) (t.timePoint q) := by
  cases ht with
  | tick | nextEvents | timerEvent | otherEvent | discardEvent | appendEvent | timeoutLock
  | timeoutsDone | discardTimeout => exact h.agrees q
  | @begin p pi c hc hproc hpos htok hstart =>
    have htp := (h.open_of_not_begun (p := p) (by simp [hc, Pc.Begun])).2.2
    have hp : Agrees c pi none := .begin hproc hpos htok (by rintro rfl; simp at hstart)
    rcases eq_or_ne q p with rfl | hq
    · simpa [htp] using hp
    · simpa [hq] using h.agrees q
  | @addTimer p tp hc =>
    rcases eq_or_ne q p with rfl | hq
    · simpa using (h.agrees q).addTimer tp
    · simpa [hq] using h.agrees q
  | @assignPos p hc =>
    have hp := h.agrees p
    rw [hc] at hp
    rcases eq_or_ne q p with rfl | hq
    · simpa using hp.assignPos
    · simpa [hq] using h.agrees q
  | @quiet p c hquiet =>
    have hp := h.agrees p
    refine agrees_goto h.agrees ?_ q
    generalize s.pc p = c0 at hquiet hp
    cases hquiet with
    | watch | watchCancel => exact hp.move trivial nofun fun _ => trivial
  | @suspend p hc =>
    have hp : Agrees (s.pc p) { s.info p with mAwaitingCoroutine := true } (s.timePoint p) :=
      (h.agrees p).of_eq rfl rfl rfl (h.agrees p).processed
    rw [hc] at hp
    rcases eq_or_ne q p with rfl | hq
    · have hp' : Agrees .suspended _ _ := hp.move trivial nofun fun _ => trivial
      simpa using hp'
    · simpa [hq] using h.agrees q
  | @awaitResume p hc =>
    refine agrees_goto h.agrees ?_ q
    exact (h.agrees p).move trivial nofun nofun
  | resumeAll hl =>
    by_cases hmem : some q ∈ s.mHandlesToResume
    · have hq : Agrees .resumed _ _ := (h.agrees q).move trivial nofun nofun
      simpa [hmem] using hq
    · simpa [hmem] using h.agrees q
  | @endTimed p st rest hl he hproc hpos | @endUntimed p st rest hl he hproc hpos =>
    have hr := h.reported p st (by simp [he])
    refine agrees_setInfo h.agrees ?_ q
    exact (h.agrees p).of_eq rfl rfl rfl fun _ => hr.begun
  | @removeTimer p st hl | @appendTimeout p due hl =>
    refine agrees_setInfo h.agrees ?_ q
    exact (h.agrees p).of_eq rfl rfl rfl (h.agrees p).processed
  | @endByTimeout p due hl hproc =>
    have hat : (s.record p).At .due := by simpa [hl] using h.place p
    obtain ⟨tp, now, htp, -, -⟩ := hat.2.2
    have hb := (h.agrees p).timed (Option.isSome_of_eq_some htp)
    refine agrees_setInfo h.agrees ?_ q
    exact (h.agrees p).of_eq rfl rfl rfl fun _ => hb

omit [DecidableEq π] in
/-- What `next_events` puts into the list can be reported. -/
lemma Sound.reported_event (h : ∀ q, Agrees (s.pc q) (s.info q) (s.timePoint q)) {r : Ready π}
    (hr : s.event r = some (.poll p st)) : Reported (s.pc p) (s.info p) st := by
  cases r with
  | timer | schedule | shutdown => simp [State.event] at hr
  | fd p' events =>
    simp only [State.event, Option.ite_none_right_eq_some, Option.map_eq_some_iff] at hr
    obtain ⟨⟨hc, hfd⟩, st', hst, heq⟩ := hr
    cases heq
    refine ⟨(ne_timeout_ne_cancelled_of_event hst).1, hfd, ?_⟩
    cases hpc : s.pc p <;> simp_all [Pc.watched]
  | cancel p' =>
    simp only [State.event, Option.ite_none_right_eq_some, Option.some.injEq] at hr
    obtain ⟨⟨hc, htok⟩, heq⟩ := hr
    cases heq
    refine ⟨by simp, (h p).token htok, ?_⟩
    cases hpc : s.pc p <;> simp_all [Pc.watchedCancel]

/-- What was reported stays so when a `poll_info` is overwritten. -/
lemma Reported.setInfo (h : Reported (s.pc q) (s.info q) st)
    (hfd : pi.mFd = (s.info p).mFd) : Reported (s.pc q) (update s.info p pi q) st := by
  rcases eq_or_ne q p with rfl | hq
  · simpa [Reported, hfd] using h
  · simpa [hq] using h

/-- What was reported stays so when a coroutine moves on. -/
lemma Reported.goto (h : Reported (s.pc q) pi st)
    (hc : (s.pc p).Waiting ∨ (s.pc p).Resumed → c.Waiting ∨ c.Resumed) :
    Reported (update s.pc p c q) pi st := by
  rcases eq_or_ne q p with rfl | hq
  · simpa [Reported] using ⟨h.1, h.2.1, hc h.2.2⟩
  · simpa [hq] using h

/-- In every step only events are taken up that can be reported. -/
lemma Sound.reported_transition (h : Sound s) (ht : Transition s t)
    (hm : .poll q st ∈ t.mRecentEvents) : Reported (t.pc q) (t.info q) st := by
  cases ht with
  | tick | appendEvent | timeoutLock | timeoutsDone | discardTimeout => exact h.reported q st hm
  | @begin p pi c hc =>
    have hr := h.reported q st hm
    -- the poll that begins cannot be the reported one
    have hq : q ≠ p := by
      rintro rfl
      exact (by simpa [hc, Pc.Begun] using hr.begun)
    simpa [hq] using hr
  | @addTimer p tp hc =>
    have hr := h.reported q st hm
    exact hr.goto (by simp [hc])
  | @assignPos p hc =>
    have hr : Reported _ ((s.setInfo p { s.info p with mTimerPos := true }).info q) st :=
      (h.reported q st hm).setInfo rfl
    exact hr.goto fun _ => Or.inl trivial
  | @quiet p c hquiet =>
    refine (h.reported q st hm).goto fun _ => ?_
    generalize s.pc p = c0 at hquiet
    cases hquiet with
    | watch | watchCancel => exact Or.inl trivial
  | @suspend p hc =>
    have hr : Reported _ ((s.setInfo p { s.info p with mAwaitingCoroutine := true }).info q) st :=
      (h.reported q st hm).setInfo rfl
    exact hr.goto fun _ => Or.inl trivial
  | @awaitResume p hc => exact (h.reported q st hm).goto fun _ => Or.inr trivial
  | nextEvents hl =>
    obtain ⟨r, -, hr⟩ := List.mem_filterMap.mp hm
    exact Sound.reported_event h.agrees hr
  | resumeAll hl =>
    have hr := h.reported q st hm
    by_cases hmem : some q ∈ s.mHandlesToResume
    · simpa [hmem] using ⟨hr.1, hr.2.1, Or.inr trivial⟩
    · simpa [hmem] using hr
  | timerEvent hl he | otherEvent hl he
  | discardEvent hl he => exact h.reported q st (he ▸ List.mem_cons_of_mem _ hm)
  | endTimed hl he | endUntimed hl he =>
    exact (h.reported q st (he ▸ List.mem_cons_of_mem _ hm)).setInfo rfl
  | removeTimer | endByTimeout | appendTimeout => exact (h.reported q st hm).setInfo rfl

/-! ## The map and the polls that are due -/

variable {f : π → Option ℤ}

omit [DecidableEq π] in
/-- A poll without an entry is inserted. -/
lemma Timed.emplace [DecidableEq π] (h : Timed m f)
    (hp : f p = none) (tp : ℤ) : Timed (m.emplace tp p) (update f p (some tp)) where
  nodup := by
    rw [(m.keys_emplace_perm tp p).nodup_iff, List.nodup_cons]
    refine ⟨fun hmem => ?_, h.nodup⟩
    have hsome := h.isSome hmem
    simp [hp] at hsome
  timePoint := by
    intro e he
    rcases TimedQueue.mem_insertEntry.mp he with rfl | he
    · simp
    · have hne : e.2 ≠ p := by
        intro heq
        have hsome := h.timePoint e he
        rw [heq, hp] at hsome
        simp at hsome
      rw [update_of_ne hne]
      exact h.timePoint e he

/-- A poll is erased. -/
lemma Timed.erase (h : Timed m f) (p : π) :
    Timed (m.erase p) f where
  nodup := by
    rw [m.keys_erase p]
    exact h.nodup.erase p
  timePoint e he := h.timePoint e (List.eraseP_sublist.mem he)

omit [DecidableEq π] in
/-- The polls that are due are taken out. -/
lemma Timed.dropDue (h : Timed m f) (now : ℤ) :
    Timed (m.dropDue now) f where
  nodup := by
    have hnodup := h.nodup
    rw [← m.keys_due_append now] at hnodup
    exact hnodup.of_append_right
  timePoint e he := h.timePoint e ((List.dropWhile_sublist _).mem he)

/-- Every step keeps the map in order. -/
lemma Sound.timed_transition (h : Sound s) (ht : Transition s t) :
    Timed t.mTimedEvents t.timePoint := by
  cases ht with
  | @addTimer p tp hc =>
    have hopen := h.open_of_not_begun (p := p) (by simp [hc, Pc.Begun])
    exact h.timed.emplace hopen.2.2 tp
  | removeTimer => exact h.timed.erase _
  | timeoutLock => exact h.timed.dropDue _
  | _ => exact h.timed

/-- Every step keeps the polls that are due apart. -/
lemma Sound.due_transition (h : Sound s) (ht : Transition s t) : t.loop.due.Nodup := by
  have hd := h.due
  cases ht with
  | tick | begin | addTimer | assignPos | quiet | suspend | awaitResume | otherEvent
  | discardEvent => exact hd
  | nextEvents | resumeAll | timerEvent | endTimed | endUntimed | removeTimer | appendEvent
  | timeoutsDone => exact List.nodup_nil
  | timeoutLock =>
    have hnodup := h.timed.nodup
    rw [← s.mTimedEvents.keys_due_append _] at hnodup
    exact hnodup.of_append_left
  | discardTimeout hl | appendTimeout hl =>
    rw [hl] at hd
    exact (List.nodup_cons.mp hd).2
  | endByTimeout hl => rwa [hl] at hd

/-! ## The place of a poll -/

variable {l : List (π × PollStatus)}

/-- Taking up something for another poll. -/
lemma lookup_takeUp_of_ne (hq : q ≠ p) :
    (l ++ [(p, st)]).lookup q = l.lookup q := by
  simp [List.lookup_append, List.lookup_cons, beq_false_of_ne hq]

/-- What is taken up for an open poll is the first. -/
lemma lookup_takeUp_of_none (h : l.lookup p = none) :
    (l ++ [(p, st)]).lookup p = some st := by
  simp [List.lookup_append, h]

/-- The first one remains the first. -/
lemma lookup_takeUp_of_some {st' : PollStatus}
    (h : l.lookup p = some st') : (l ++ [(q, st)]).lookup p = some st' := by
  simp [List.lookup_append, h]

/-- The coroutine's own writes to its `poll_info` are not recorded. -/
lemma Sound.place_setInfo (h : Sound s)
    (hproc : pi.mProcessed = (s.info p).mProcessed)
    (hst : pi.mPollStatus = (s.info p).mPollStatus) (q : π) :
    ((s.setInfo p pi).record q).At (s.loop.role q) := by
  rcases eq_or_ne q p with rfl | hq
  · simpa [hproc, hst] using h.place q
  · simpa [hq] using h.place q

/-- A poll that begins is open. -/
lemma Sound.place_begin (h : Sound s) (hc : s.pc p = .idle)
    (hproc : pi.mProcessed = false) (q : π) :
    (((s.setInfo p pi).goto p c).record q).At (s.loop.role q) := by
  rcases eq_or_ne q p with rfl | hq
  · obtain ⟨hr, hopen, htp⟩ := h.open_of_not_begun (p := q) (by simp [hc, Pc.Begun])
    rw [hr]
    refine Or.inl ⟨⟨?_, hopen.first, hopen.appended⟩, ?_⟩
    · simpa using hproc
    · simp [htp]
  · simpa [hq] using h.place q

/-- A poll has its entry once it is made. -/
lemma Sound.place_addTimer (h : Sound s) {tp : ℤ} (hc : s.pc p = .addTimer tp) (q : π) :
    (State.record { s.goto p c with
      mTimedEvents := s.mTimedEvents.emplace tp p
      timePoint := update s.timePoint p (some tp) } q).At (s.loop.role q) := by
  rcases eq_or_ne q p with rfl | hq
  · obtain ⟨hr, hopen, -⟩ := h.open_of_not_begun (p := q) (by simp [hc, Pc.Begun])
    rw [hr]
    exact Or.inl ⟨{ hopen with },
      fun _ => TimedQueue.mem_keys_emplace.mpr (Or.inl rfl)⟩
  · simpa [hq, TimedQueue.mem_keys_emplace] using h.place q

/-- An event of a processed poll is discarded. -/
lemma Sound.place_discardEvent (h : Sound s) (hl : s.loop = .processing)
    (hproc : (s.info p).mProcessed = true) (q : π) :
    ((s.takeUp p st).record q).At (s.loop.role q) := by
  rcases eq_or_ne q p with rfl | hq
  · have hat : (s.record q).At .free := by simpa [hl] using h.place q
    rw [hl]
    rcases hat with ⟨hopen, -⟩ | hdone
    · exact absurd (hopen.processed.symm.trans hproc) (by simp)
    · exact Or.inr ⟨hdone.processed, lookup_takeUp_of_some hdone.first, hdone.appended,
        hdone.listed, hdone.expired⟩
  · simpa [lookup_takeUp_of_ne hq] using h.place q

/-- The event of an open poll with a timer ends it; its entry is in the map. -/
lemma Sound.place_endTimed (h : Sound s) (hl : s.loop = .processing)
    (hr : Reported (s.pc p) (s.info p) st) (hproc : (s.info p).mProcessed = false)
    (hpos : (s.info p).mTimerPos = true) (q : π) :
    (((s.takeUp p st).setInfo p { s.info p with mProcessed := true }).record q).At
      (LoopPc.role q (.removeTimer p st)) := by
  rcases eq_or_ne q p with rfl | hq
  · obtain ⟨hopen, hlisted⟩ := h.open_of_processing hl hproc
    simp only [LoopPc.role, if_true]
    refine ⟨⟨?_, lookup_takeUp_of_none hopen.first, hopen.appended⟩, ?_, hr.1⟩
    · simp
    · exact hlisted ((h.agrees q).pos hpos)
  · have hat := h.place q
    rw [hl] at hat
    simpa [hq, lookup_takeUp_of_ne hq]
      using hat

/-- The event of an open poll without a timer ends it; it has no entry in the map. -/
lemma Sound.place_endUntimed (h : Sound s) (hl : s.loop = .processing)
    (hr : Reported (s.pc p) (s.info p) st) (hproc : (s.info p).mProcessed = false)
    (hpos : (s.info p).mTimerPos = false) (q : π) :
    (((s.takeUp p st).setInfo p
      { s.info p with mProcessed := true, mPollStatus := st }).record q).At
      (LoopPc.role q (.awaitEvent p)) := by
  rcases eq_or_ne q p with rfl | hq
  · obtain ⟨hopen, -⟩ := h.open_of_processing hl hproc
    -- an entry would have been stored in `m_timer_pos` before the descriptor was registered
    have hlisted : q ∉ s.mTimedEvents.keys := by
      intro hmem
      have htrue := (h.agrees q).waiting (h.waiting_of_open hr hopen) hr.2.1 (h.timed.isSome hmem)
      simp [hpos] at htrue
    simp only [LoopPc.role, if_true]
    refine ⟨⟨?_, ?_, hopen.appended⟩, hlisted, ?_⟩
    · simp
    · simpa using lookup_takeUp_of_none hopen.first
    · simpa using hr.1
  · have hat := h.place q
    rw [hl] at hat
    simpa [hq, lookup_takeUp_of_ne hq]
      using hat

/-- The entry of the ended poll is erased. -/
lemma Sound.place_removeTimer (h : Sound s) (hl : s.loop = .removeTimer p st) (q : π) :
    (State.record { s.setInfo p { s.info p with mPollStatus := st } with
      mTimedEvents := s.mTimedEvents.erase p } q).At (LoopPc.role q (.awaitEvent p)) := by
  rcases eq_or_ne q p with rfl | hq
  · have hat : (s.record q).At (.removing st) := by simpa [hl] using h.place q
    obtain ⟨hend, -, hst⟩ := hat
    simp only [LoopPc.role, if_true]
    refine ⟨⟨?_, ?_, hend.appended⟩, ?_, ?_⟩
    · simpa using hend.processed
    · simpa using hend.first
    · simp [TimedQueue.mem_keys_erase h.timed.nodup]
    · simpa using hst
  · have hat := h.place q
    rw [hl] at hat
    simpa [hq, TimedQueue.mem_keys_erase h.timed.nodup]
      using hat

/-- The handle of a poll that was ended by an event is appended. -/
lemma Sound.place_appendEvent (h : Sound s) (hl : s.loop = .awaitEvent p) (q : π) :
    ((s.append p).record q).At (LoopPc.role q .processing) := by
  rcases eq_or_ne q p with rfl | hq
  · have hat : (s.record q).At .awaitEvent := by simpa [hl] using h.place q
    obtain ⟨hend, hlisted, hst⟩ := hat
    refine Or.inr ⟨hend.processed, hend.first, ?_, hlisted, fun heq => absurd heq hst⟩
    simp
  · have hat := h.place q
    rw [hl] at hat
    simpa [hq] using hat

/-- The polls that are due at `now` are taken out of the map. -/
lemma Sound.place_timeoutLock (h : Sound s) {now : ℤ} (hl : s.loop = .timeoutLock now) (q : π) :
    (State.record { s with
      mTimedEvents := s.mTimedEvents.dropDue now
      timedOutAt := fun p =>
        if p ∈ (s.mTimedEvents.due now).map Prod.snd then some now else s.timedOutAt p } q).At
      (LoopPc.role q (.timeouts ((s.mTimedEvents.due now).map Prod.snd))) := by
  have hat : (s.record q).At .free := by simpa [hl] using h.place q
  have hkeys := TimedQueue.mem_keys_dropDue h.timed.nodup (t := now) (j := q)
  by_cases hq : q ∈ (s.mTimedEvents.due now).map Prod.snd
  · obtain ⟨e, he, rfl⟩ := List.mem_map.mp hq
    obtain ⟨hmem, hle⟩ := TimedQueue.of_mem_due he
    have hlisted : e.2 ∈ s.mTimedEvents.keys := List.mem_map_of_mem hmem
    simp only [LoopPc.role, hq, if_true]
    rcases hat with ⟨hopen, -⟩ | hdone
    · refine ⟨{ hopen with }, fun hin => (hkeys.mp hin).1 hq, ?_⟩
      exact ⟨e.1, now, h.timed.timePoint e hmem, if_pos hq, hle⟩
    · exact absurd hlisted hdone.listed
  · simp only [LoopPc.role, hq, if_false]
    simp only [not_false_eq_true, hq, true_and] at hkeys
    simpa [hq, hkeys] using hat

variable {due : List π}

/-- The timeout of an open poll ends it. -/
lemma Sound.place_endByTimeout (h : Sound s) (hl : s.loop = .timeouts (p :: due))
    (q : π) :
    (((s.takeUp p .timeout).setInfo p { s.info p with mProcessed := true }).record q).At
      (LoopPc.role q (.awaitTimeout p due)) := by
  rcases eq_or_ne q p with rfl | hq
  · have hat : (s.record q).At .due := by simpa [hl] using h.place q
    obtain ⟨hopen, hlisted, hexp⟩ := hat
    simp only [LoopPc.role, if_true]
    refine ⟨⟨?_, lookup_takeUp_of_none hopen.first, hopen.appended⟩, hlisted, hexp⟩
    simp
  · have hat := h.place q
    rw [hl] at hat
    simpa [hq, lookup_takeUp_of_ne hq]
      using hat

/-- The handle of a poll that was ended by its timeout is appended. -/
lemma Sound.place_appendTimeout (h : Sound s) (hl : s.loop = .awaitTimeout p due)
    (q : π) :
    (((s.append p).setInfo p { s.info p with mPollStatus := .timeout }).record q).At
      (LoopPc.role q (.timeouts due)) := by
  rcases eq_or_ne q p with rfl | hq
  · have hat : (s.record q).At .awaitTimeout := by simpa [hl] using h.place q
    obtain ⟨hend, hlisted, hexp⟩ := hat
    have hdue : q ∉ due := by
      have hnodup := h.due
      rw [hl] at hnodup
      exact (List.nodup_cons.mp hnodup).1
    simp only [LoopPc.role, hdue, if_false]
    refine Or.inr ⟨?_, ?_, ?_, hlisted, fun _ => hexp⟩
    · simpa using hend.processed
    · simpa using hend.first
    · simp
  · have hat := h.place q
    rw [hl] at hat
    simpa [hq] using hat

/-- A poll that is due is not processed, so that no timeout is discarded. -/
lemma Sound.not_discardTimeout (h : Sound s) (hl : s.loop = .timeouts (p :: due)) :
    (s.info p).mProcessed = false := by
  have hat : (s.record p).At .due := by simpa [hl] using h.place p
  exact hat.1.processed

/-- Every step keeps the polls at their places. -/
lemma Sound.place_transition (h : Sound s) (ht : Transition s t) (q : π) :
    (t.record q).At (t.loop.role q) := by
  have hat := h.place q
  cases ht with
  | tick | quiet | awaitResume | otherEvent => exact hat
  | begin hc hproc => exact h.place_begin hc hproc q
  | addTimer hc => exact h.place_addTimer hc q
  | assignPos | suspend => refine h.place_setInfo ?_ ?_ q <;> rfl
  | nextEvents hl | resumeAll hl | timerEvent hl | timeoutsDone hl =>
    rw [hl] at hat
    exact hat
  | discardEvent hl _ hproc => exact h.place_discardEvent hl hproc q
  | endTimed hl he hproc hpos =>
    exact h.place_endTimed hl (h.reported _ _ (by simp [he])) hproc hpos q
  | endUntimed hl he hproc hpos =>
    exact h.place_endUntimed hl (h.reported _ _ (by simp [he])) hproc hpos q
  | removeTimer hl => exact h.place_removeTimer hl q
  | appendEvent hl => exact h.place_appendEvent hl q
  | timeoutLock hl => exact h.place_timeoutLock hl q
  | discardTimeout hl hproc => simp [h.not_discardTimeout hl] at hproc
  | endByTimeout hl => exact h.place_endByTimeout hl q
  | appendTimeout hl => exact h.place_appendTimeout hl q

/-! ## The handles -/

/-- A coroutine that is not resumed by its move. -/
lemma Handles.goto (h : Handles s) (hc : c.Resumed → p ∈ s.appended) :
    Handles (s.goto p c) where
  nodup := h.nodup
  queued := h.queued
  resumed := (forall_update_iff s.pc fun q c => c.Resumed → q ∈ s.appended).mpr
    ⟨hc, fun q _ => h.resumed q⟩
  returned := h.returned

/-- The status of a poll changes only before its handle is appended. -/
lemma Handles.setInfo (h : Handles s)
    (hp : p ∈ s.appended → pi.mPollStatus = (s.info p).mPollStatus) :
    Handles (s.setInfo p pi) where
  nodup := h.nodup
  queued := h.queued
  resumed := h.resumed
  returned q st hr := by
    obtain ⟨hmem, hst⟩ := h.returned q st hr
    refine ⟨hmem, ?_⟩
    rcases eq_or_ne q p with rfl | hq
    · simpa using (hp hmem).trans hst
    · simpa [hq] using hst

omit [DecidableEq π] in
/-- A handle is appended. -/
lemma Handles.append (h : Handles s) (hp : p ∉ s.appended) : Handles (s.append p) where
  nodup := List.nodup_append.mpr ⟨h.nodup, List.nodup_singleton p, fun q hq r hr heq =>
    hp (List.mem_singleton.mp hr ▸ heq ▸ hq)⟩
  queued q hq := by
    rcases List.mem_append.mp hq with hq | hq
    · exact List.mem_append_left _ (h.queued q hq)
    · obtain rfl : q = p := by simpa using hq
      simp
  resumed q hq := List.mem_append_left _ (h.resumed q hq)
  returned q st hr := ⟨List.mem_append_left _ (h.returned q st hr).1, (h.returned q st hr).2⟩

/-- The collected handles are handed over. -/
lemma Handles.resumeAll (h : Handles s) : Handles { s with
    pc := fun p => if some p ∈ s.mHandlesToResume then .resumed else s.pc p
    mHandlesToResume := []
    loop := .idle } where
  nodup := h.nodup
  queued := by simp
  resumed q hq := by
    by_cases hmem : some q ∈ s.mHandlesToResume
    · exact h.queued q hmem
    · exact h.resumed q (by simpa [hmem] using hq)
  returned := h.returned

/-- A resumed poll returns its status. -/
lemma Handles.awaitResume (h : Handles s) (hc : s.pc p = .resumed) :
    Handles { s.goto p .returned with
      returned := update s.returned p (some (s.info p).mPollStatus) } where
  nodup := h.nodup
  queued := h.queued
  resumed := (h.goto fun _ => h.resumed p (hc ▸ trivial)).resumed
  returned q st hr := by
    rcases eq_or_ne q p with rfl | hq
    · exact ⟨h.resumed q (hc ▸ trivial), by simpa using hr⟩
    · exact h.returned q st (by simpa [hq] using hr)

/-- Every step keeps the handles in order. -/
lemma Sound.handles_transition (h : Sound s) (ht : Transition s t) : Handles t := by
  have hh := h.handles
  cases ht with
  | tick | nextEvents | timerEvent | discardEvent | timeoutLock | timeoutsDone | discardTimeout =>
    exact { hh with }
  | @begin p pi c hc _ _ _ hstart =>
    have hopen := (h.open_of_not_begun (p := p) (by simp [hc, Pc.Begun])).2.1
    have hset : Handles (s.setInfo p pi) := hh.setInfo fun hmem => absurd hmem hopen.appended
    refine hset.goto fun hres => ?_
    rcases hstart with rfl | ⟨tp, rfl⟩ <;> exact hres.elim
  | @addTimer p tp hc =>
    have hgo : Handles (s.goto p (if (s.info p).mFd.isSome then .assignPos else .suspend)) := by
      refine hh.goto fun hres => ?_
      split_ifs at hres <;> exact hres.elim
    exact { hgo with }
  | @assignPos p hc =>
    have hset : Handles (s.setInfo p { s.info p with mTimerPos := true }) :=
      hh.setInfo fun _ => rfl
    exact hset.goto fun hres => hres.elim
  | @quiet p c hquiet =>
    refine hh.goto fun hres => ?_
    generalize s.pc p = c0 at hquiet
    cases hquiet <;> exact hres.elim
  | @suspend p hc =>
    have hset : Handles (s.setInfo p { s.info p with mAwaitingCoroutine := true }) :=
      hh.setInfo fun _ => rfl
    exact hset.goto fun hres => hres.elim
  | awaitResume hc => exact hh.awaitResume hc
  | resumeAll => exact hh.resumeAll
  | otherEvent =>
    exact ⟨hh.nodup, fun q hq => hh.queued q (by simpa using hq), hh.resumed, hh.returned⟩
  | @endTimed p st rest hl he hproc hpos | @endByTimeout p due hl hproc =>
    have hset : Handles (s.setInfo p { s.info p with mProcessed := true }) :=
      hh.setInfo fun _ => rfl
    exact { hset with }
  | @endUntimed p st rest hl he hproc hpos =>
    have hopen := (h.open_of_processing hl hproc).1
    have hset : Handles (s.setInfo p { s.info p with mProcessed := true, mPollStatus := st }) :=
      hh.setInfo fun hmem => absurd hmem hopen.appended
    exact { hset with }
  | @removeTimer p st hl =>
    have hat : (s.record p).At (.removing st) := by simpa [hl] using h.place p
    have hset : Handles (s.setInfo p { s.info p with mPollStatus := st }) :=
      hh.setInfo fun hmem => absurd hmem hat.1.appended
    exact { hset with }
  | @appendEvent p hl =>
    have hat : (s.record p).At .awaitEvent := by simpa [hl] using h.place p
    exact { hh.append hat.1.appended with }
  | @appendTimeout p due hl =>
    have hat : (s.record p).At .awaitTimeout := by simpa [hl] using h.place p
    have hset : Handles (s.setInfo p { s.info p with mPollStatus := .timeout }) :=
      hh.setInfo fun hmem => absurd hmem hat.1.appended
    exact { hset.append hat.1.appended with }

/-! ## Every run -/

/-- Nothing is polled yet. -/
lemma sound_start (c : ℤ) : Sound (start c : State π φ) where
  agrees _ := .begin rfl rfl id nofun
  reported _ _ hm := absurd hm List.not_mem_nil
  timed := ⟨List.nodup_nil, fun _ he => absurd he List.not_mem_nil⟩
  due := List.nodup_nil
  place _ := Or.inl ⟨⟨rfl, rfl, List.not_mem_nil⟩, by simp [start]⟩
  handles :=
    ⟨List.nodup_nil, fun _ hq => absurd hq List.not_mem_nil, fun _ hres => hres.elim, nofun⟩

/-- Every step keeps the invariant. -/
lemma Sound.transition (h : Sound s) (ht : Transition s t) : Sound t where
  agrees := h.agrees_transition ht
  reported _ _ := h.reported_transition ht
  timed := h.timed_transition ht
  due := h.due_transition ht
  place := h.place_transition ht
  handles := h.handles_transition ht

/-- The invariant holds in every run. -/
lemma sound_of_reachable {c : ℤ} (h : (machine π φ c).Reachable s) : Sound s :=
  h.invariant (sound_start c) fun _ _ _ _ hs hstep => hs.transition (step_transition hstep)

/-- The handle of no poll has been appended twice.  A poll whose handle has been appended has the
status of what was taken up first for it, and this is what it returns; its status is that of a
timeout only if its time point was not later than the `now` of the loop; and its entry has left
`m_timed_events`.  An iterator that is about to be erased is in the map. -/
structure ExactlyOnce (s : State π φ) : Prop where
  appended : s.appended.Nodup
  status : ∀ p ∈ s.appended, s.occurred.lookup p = some (s.info p).mPollStatus
  returned : ∀ p st, s.returned p = some st → p ∈ s.appended ∧ s.occurred.lookup p = some st
  timeout : ∀ p ∈ s.appended, (s.info p).mPollStatus = .timeout →
    ∃ tp now, s.timePoint p = some tp ∧ s.timedOutAt p = some now ∧ tp ≤ now
  removed : ∀ p ∈ s.appended, p ∉ s.mTimedEvents.keys
  iterator : ∀ p st, s.loop = .removeTimer p st → p ∈ s.mTimedEvents.keys

/-- Whatever batches of events the loop gets, every poll is completed at most once, by the first of
its events that is taken up. -/
lemma exactlyOnce_of_reachable {c : ℤ} (h : (machine π φ c).Reachable s) : ExactlyOnce s := by
  have hs := sound_of_reachable h
  have hdone : ∀ p ∈ s.appended, (s.record p).Done := fun p hp => (hs.place p).done_of_appended hp
  refine ⟨hs.handles.nodup, fun p hp => (hdone p hp).first, fun p st hr => ?_,
    fun p hp => (hdone p hp).expired, fun p hp => (hdone p hp).listed, fun p st hl => ?_⟩
  · obtain ⟨hp, hst⟩ := hs.handles.returned p st hr
    exact ⟨hp, hst ▸ (hdone p hp).first⟩
  · have hat : (s.record p).At (.removing st) := by simpa [hl] using hs.place p
    exact hat.2.1

end Libcoro.Scheduler.PollCompletion
