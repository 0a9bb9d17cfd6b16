import Libcoro.Scheduler.ExactlyOnce
import Libcoro.Scheduler.PollRegistrations

/-!
# The two models of the event loop

`Libcoro.Scheduler.Poll` has the list of epoll and leaves out the time, and
`Libcoro.Scheduler.PollCompletion` has the time points and lets epoll report whatever a poll has
registered.  The states of the two correspond (`Represents`), and every step of the latter is
answered by steps of the former, if its batches are ones that epoll can report (`exists_answer`, and
`exists_represents` for whole runs).  If all polls end on their own descriptors, epoll reports
nothing for a poll whose handle has been handed over (`not_resumed_of_event`).
-/

namespace Libcoro.Scheduler.PollCompletion

open Foundations Poll Function

variable {π φ : Type*}

/-- Where the coroutine is in the model without time. -/
@[simp] def Pc.shown : Pc → Poll.Pc
  | .idle => .idle
  | .addTimer _ => .addTimer
  | .assignPos | .watch => .watch
  | .watchCancel => .watchCancel
  | .suspend => .suspend
  | .suspended => .suspended
  | .resumed | .returned => .resumed

/-- The schedule pipe and the shutdown pipe do not matter to polls. -/
@[simp] def Event.shown : Event π → Option (Poll.Event π)
  | .timer => some .timer
  | .poll p status => some (.poll p status)
  | .schedule | .shutdown => none

/-- Where the loop is in the model without time. -/
@[simp] def LoopPc.shown : LoopPc π → Poll.LoopPc π
  | .idle => .idle
  | .processing | .timeoutLock _ => .processing
  | .removeTimer p _ | .awaitEvent p => .awaitEvent p
  | .timeouts due => .timeouts due
  | .awaitTimeout p due => .awaitTimeout p due

/-- What the loop has to take up: the timer as well when it has not yet locked the map. -/
@[simp] def State.pending (s : State π φ) : List (Poll.Event π) :=
  match s.loop with
  | .timeoutLock _ => .timer :: s.mRecentEvents.filterMap Event.shown
  | _ => s.mRecentEvents.filterMap Event.shown

/-- The polls in the map, without the one that the loop is about to remove. -/
@[simp] def State.entries [DecidableEq π] (s : State π φ) : List π :=
  match s.loop with
  | .removeTimer p _ => s.mTimedEvents.keys.erase p
  | _ => s.mTimedEvents.keys

/-- One poll in both models.  Only in one of them there is a step between the insertion into the map
and the assignment to `m_timer_pos`. -/
structure Shown (c : Pc) (pi : PollInfo φ) (c' : Poll.Pc) (pi' : PollInfo φ) : Prop where
  pc : c' = c.shown
  fd : pi'.mFd = pi.mFd
  token : pi'.mCancelTrigger = pi.mCancelTrigger
  processed : pi'.mProcessed = pi.mProcessed
  awaiting : pi'.mAwaitingCoroutine = pi.mAwaitingCoroutine
  pos : pi.mProcessed ≠ true → (pi'.mTimerPos = true ↔ pi.mTimerPos = true ∨ c = .assignPos)
  watch : c.shown = .watch → pi.mFd.isSome

variable [DecidableEq π]

/-- The two models are in the same state. -/
structure Represents (s : State π φ) (a : Poll.State π φ) : Prop where
  polls : ∀ p, Shown (s.pc p) (s.info p) (a.pc p) (a.info p)
  timed : a.mTimedEvents.Perm s.entries
  recent : a.mRecentEvents = s.pending
  loop : a.loop = s.loop.shown
  handles : a.mHandlesToResume = s.mHandlesToResume.reduceOption
  queued : ∀ p ∈ s.appended, a.queued p = true

variable {s t : State π φ} {a b : Poll.State π φ} {p : π}

/-- Only the poll `p` changes. -/
lemma Represents.polls_of_ne (h : Represents s a) (p : π)
    (hp : Shown (t.pc p) (t.info p) (b.pc p) (b.info p))
    (hne : ∀ q ≠ p, t.pc q = s.pc q ∧ t.info q = s.info q ∧ b.pc q = a.pc q ∧ b.info q = a.info q)
    (q : π) : Shown (t.pc q) (t.info q) (b.pc q) (b.info q) := by
  rcases eq_or_ne q p with rfl | hq
  · exact hp
  · obtain ⟨hpc, hinfo, hpc', hinfo'⟩ := hne q hq
    rw [hpc, hinfo, hpc', hinfo']
    exact h.polls q

/-- Only the `poll_info` of `p` changes. -/
lemma Represents.polls_setInfo (h : Represents s a) {pi pi' : PollInfo φ}
    (hp : Shown (s.pc p) pi (a.pc p) pi') (q : π) :
    Shown (s.pc q) (update s.info p pi q) (a.pc q) (update a.info p pi' q) :=
  h.polls_of_ne (t := s.setInfo p pi) (b := a.setInfo p pi') p (by simpa using hp)
    (by simp +contextual) q

/-- The poll `p` is ended in both models. -/
lemma Represents.polls_finish (h : Represents s a) {st st' : PollStatus} (q : π) :
    Shown (s.pc q)
      (update s.info p { s.info p with mProcessed := true, mPollStatus := st } q) (a.pc q)
      (update a.info p { a.info p with mProcessed := true, mPollStatus := st' } q) := by
  refine h.polls_setInfo ?_ q
  exact { h.polls p with processed := rfl, pos := fun hnot => (hnot rfl).elim }

/-- The handle of `p` is appended in both models. -/
lemma Represents.queued_append (h : Represents s a) (p q : π) (hq : q ∈ s.appended ++ [p]) :
    update a.queued p true q = true := by
  rcases eq_or_ne q p with rfl | hne
  · exact update_self ..
  · rw [update_of_ne hne]
    exact h.queued q (by simpa [hne] using hq)

/-- The two models start in the same state. -/
lemma represents_start (c : ℤ) : Represents (start c : State π φ) Poll.start where
  polls _ := by constructor <;> simp [start, Poll.start]
  timed := by simp [start, Poll.start, TimedQueue.keys, TimedQueue.empty]
  recent := rfl
  loop := rfl
  handles := rfl
  queued := by simp [start]

variable [DecidableEq φ]

/-- The model without time gets to a state that represents `t`. -/
def Answers (a : Poll.State π φ) (t : State π φ) : Prop :=
  ∃ b, (Poll.machine π φ).Path (fun _ _ => True) a b ∧ Represents t b

lemma answer_stay (h : Represents t a) : Answers a t :=
  ⟨a, .refl a, h⟩

lemma answer_step (act : Poll.Action π φ) (hstep : Poll.step a act = some b)
    (h : Represents t b) : Answers a t :=
  ⟨b, .tail (.refl a) trivial hstep, h⟩

/-- The steps of a coroutine. -/
lemma advance_answered (h : Represents s a) (hs : Sound s) (hstep : advance s p = some t) :
    Answers a t := by
  obtain ⟨hpc, hfd, htoken, hprocessed, hawaiting, hpos, hwatch⟩ := h.polls p
  unfold advance at hstep
  split at hstep <;> rename_i hc <;> cases hstep <;> simp only [hc, Pc.shown] at hpc hpos hwatch
  case h_1 tp =>
    obtain ⟨hfree, -, htp⟩ := hs.open_of_not_begun (p := p) (by simp [hc, Pc.Begun])
    have hnot : (s.info p).mTimerPos ≠ true := fun hpos => by
      simpa [htp] using (hs.agrees p).pos hpos
    refine answer_step (.advance p) (by simp only [Poll.step, Poll.advance, hpc]; rfl) ?_
    refine { h with polls := h.polls_of_ne p ?_ (by simp +contextual), timed := ?_ }
    · constructor <;> cases hf : (s.info p).mFd <;> simp_all
    · have hkeys := s.mTimedEvents.keys_emplace_perm tp p
      have htimed := h.timed.cons p
      cases hl : s.loop <;> simp only [State.entries, State.goto, hl] at htimed ⊢
      case removeTimer r st =>
        have hr : r ≠ p := fun hr => by simp [hl, hr] at hfree
        refine htimed.trans ((hkeys.erase r).trans ?_).symm
        rw [List.erase_cons_tail (by simpa using hr.symm)]
      all_goals exact htimed.trans hkeys.symm
  case h_3 =>
    obtain ⟨f, hf⟩ := Option.isSome_iff_exists.mp (hwatch trivial)
    refine answer_step (.advance p)
      (by simp only [Poll.step, Poll.advance, hpc, hfd, hf]; rfl) ?_
    exact { h with polls := h.polls_of_ne p (by constructor <;> simp_all) (by simp +contextual) }
  case h_4 =>
    cases htok : (s.info p).mCancelTrigger <;> refine answer_step (.advance p)
        (by simp only [Poll.step, Poll.advance, hpc, htoken, htok]; rfl) ?_ <;>
      exact { h with polls := h.polls_of_ne p (by constructor <;> simp_all) (by simp +contextual) }
  case h_5 =>
    refine answer_step (.advance p) (by simp only [Poll.step, Poll.advance, hpc]; rfl) ?_
    exact { h with polls := h.polls_of_ne p (by constructor <;> simp_all) (by simp +contextual) }
  all_goals
    refine answer_stay ?_
    exact { h with polls := h.polls_of_ne p (by constructor <;> simp_all) (by simp +contextual) }

/-- The next element of `m_recent_events`, or the end of the batch. -/
lemma process_answered (h : Represents s a) (hs : Sound s) (hl : s.loop = .processing) (k : ℕ) :
    Answers a (process s k) := by
  have hentries := h.timed
  have hrecent := h.recent
  have hloop := h.loop
  simp only [State.entries, State.pending, hl, LoopPc.shown] at hentries hrecent hloop
  unfold process
  split <;> rename_i he <;>
    simp only [he, List.filterMap_nil, List.filterMap_cons, Event.shown] at hrecent
  case h_1 =>
    refine answer_step (.loop [])
      (by simp only [Poll.step, Poll.advanceLoop, hloop, hrecent]; rfl) ?_
    refine { h with
      polls := fun q => ?_, timed := hentries, recent := by simp [he], loop := rfl, handles := rfl }
    have hmem : q ∈ a.mHandlesToResume ↔ some q ∈ s.mHandlesToResume := by
      rw [h.handles, List.reduceOption_mem_iff]
    by_cases hr : some q ∈ s.mHandlesToResume
    · have hdone := (hs.place q).done_of_appended (hs.handles.queued q hr)
      simp only [hmem, hr, if_true]
      exact { h.polls q with
        pc := rfl, pos := fun hnot => (hnot hdone.processed).elim, watch := by simp }
    · simpa only [hmem, hr, if_false] using h.polls q
  case h_2 => exact answer_stay { h with timed := hentries, recent := hrecent, loop := hloop }
  case h_5 p st rest =>
    have hprocessed := (h.polls p).processed
    have hpos := (h.polls p).pos
    -- an event comes after the assignment to `m_timer_pos`
    have hassign : s.pc p ≠ .assignPos := fun hc => by
      simpa [hc] using (hs.reported p st (by simp [he])).2.2
    split_ifs with hproc hpos'
    all_goals
      refine answer_step (.loop [])
        (by simp only [Poll.step, Poll.advanceLoop, hloop, hrecent, hprocessed, hproc]; rfl) ?_
    · exact { h with timed := by simpa [hl], recent := by simp [hl], loop := by simp [hl] }
    · refine { h with polls := h.polls_finish, timed := ?_, recent := rfl, loop := rfl }
      simpa [hpos hproc, hpos'] using hentries.erase p
    · refine { h with polls := h.polls_finish, timed := ?_, recent := rfl, loop := rfl }
      simpa [hpos hproc, hpos', hassign] using hentries
  all_goals
    exact answer_stay { h with
      timed := by simpa [hl]
      recent := by simpa [hl] using hrecent
      loop := by simpa [hl]
      handles := by simp [h.handles, List.reduceOption_append, List.reduceOption_replicate_none] }

/-- The steps of the loop. -/
lemma loop_answered (h : Represents s a) (hs : Sound s) {k : ℕ} (hstep : loop s k = some t) :
    Answers a t := by
  have hentries := h.timed
  have hrecent := h.recent
  have hloop := h.loop
  unfold loop at hstep
  split at hstep <;> rename_i hl <;>
    simp only [State.entries, State.pending, hl, LoopPc.shown] at hentries hrecent hloop
  case h_1 => cases hstep
  case h_2 =>
    cases hstep
    exact process_answered h hs hl k
  case h_3 p st =>
    obtain ⟨-, ⟨⟩⟩ := Option.ite_none_right_eq_some.mp hstep
    exact answer_stay { h with
      polls := h.polls_of_ne p (by simpa using { h.polls p with }) (by simp +contextual)
      timed := by simpa [TimedQueue.keys_erase]
      recent := hrecent
      loop := hloop }
  case h_4 p =>
    obtain ⟨hawait, ⟨⟩⟩ := Option.ite_none_right_eq_some.mp hstep
    refine answer_step (.loop []) (by
      simp only [Poll.step, Poll.advanceLoop, hloop, (h.polls p).awaiting, hawait]; rfl) ?_
    exact { h with
      timed := hentries
      recent := hrecent
      loop := rfl
      handles := by simp [h.handles, List.reduceOption_append]
      queued := h.queued_append p }
  case h_5 now =>
    cases hstep
    have hnodup := hs.timed.nodup
    have hdrop := s.mTimedEvents.keys_due_append now
    set due := (s.mTimedEvents.due now).map Prod.snd
    rw [← hdrop, List.nodup_append'] at hnodup
    have hdue : due.Nodup ∧ ∀ p ∈ due, p ∈ a.mTimedEvents :=
      ⟨hnodup.1, fun p hp => hentries.mem_iff.mpr (hdrop ▸ List.mem_append_left _ hp)⟩
    refine answer_step (.loop due)
      (by simp only [Poll.step, Poll.advanceLoop, hloop, hrecent, if_pos hdue]; rfl) ?_
    refine { h with timed := ?_, recent := rfl, loop := rfl }
    refine (hentries.filter _).trans (.of_eq ?_)
    rw [← hdrop, List.filter_append, List.filter_eq_nil_iff.mpr (by simp),
      List.filter_eq_self.mpr (fun p hp => by simpa using fun hd => hnodup.2.2 hd hp),
      List.nil_append]
    rfl
  case h_6 =>
    cases hstep
    refine answer_step (.loop [])
      (by simp only [Poll.step, Poll.advanceLoop, hloop]; rfl) ?_
    exact { h with timed := hentries, recent := hrecent, loop := rfl }
  case h_7 p due =>
    split_ifs at hstep with hproc <;> cases hstep <;> refine answer_step (.loop [])
      (by simp only [Poll.step, Poll.advanceLoop, hloop, (h.polls p).processed, hproc]; rfl) ?_
    · exact { h with timed := hentries, recent := hrecent, loop := rfl }
    · exact { h with polls := h.polls_finish, timed := hentries, recent := hrecent, loop := rfl }
  case h_8 p due =>
    obtain ⟨hawait, ⟨⟩⟩ := Option.ite_none_right_eq_some.mp hstep
    refine answer_step (.loop []) (by
      simp only [Poll.step, Poll.advanceLoop, hloop, (h.polls p).awaiting, hawait]; rfl) ?_
    exact { h with
      polls := h.polls_setInfo { h.polls p with awaiting := hawait.symm }
      timed := hentries
      recent := hrecent
      loop := rfl
      handles := by simp [h.handles, List.reduceOption_append]
      queued := h.queued_append p }

/-- `next_events` collects what epoll has reported. -/
lemma exists_collected (es : List (Poll.Event π)) (ha : a.loop = .collect es) :
    ∃ m, (Poll.machine π φ).Path (fun _ _ => True) a
      { a with mRecentEvents := a.mRecentEvents ++ es, interest := m, loop := .processing } := by
  induction es generalizing a with
  | nil =>
    refine ⟨a.interest, .tail (a := .loop []) (.refl a) trivial ?_⟩
    simp [Poll.machine, Poll.step, Poll.advanceLoop, ha]
  | cons e es ih =>
    obtain ⟨m, hm⟩ := ih (a := { a with
      mRecentEvents := a.mRecentEvents ++ [e]
      interest := a.interest.del (a.unwatchedBy e)
      loop := .collect es }) rfl
    rw [List.append_assoc] at hm
    refine ⟨m, .trans (.tail (a := .loop []) (.refl a) trivial ?_) hm⟩
    simp [Poll.machine, Poll.step, Poll.advanceLoop, ha]

/-- Epoll can report the events of a batch, together with those of the two pipes. -/
def Reports (a : Poll.State π φ) (events : List (Event π)) : Prop :=
  ∃ ready, (reportedFds ready).Nodup ∧ (∀ r ∈ ready, (a.event r).isSome) ∧
    ready.filterMap a.event = events.filterMap Event.shown

/-- In every run of the model with time, each step is answered by the model without time, if the
batches are those that epoll can report there. -/
lemma exists_answer {c : ℤ} {act : Action π φ} (hreach : (machine π φ c).Reachable s)
    (h : Represents s a) (hstep : step s act = some t)
    (hbatch : ∀ ready, act = .nextEvents ready → Reports a t.mRecentEvents) : Answers a t := by
  have hs := sound_of_reachable hreach
  cases act with
  | tick d =>
    cases hstep
    exact answer_stay { h with }
  | poll p fd timeout token =>
    obtain ⟨hc, ⟨⟩⟩ := Option.ite_none_right_eq_some.mp hstep
    have hpc := (h.polls p).pc
    refine answer_step (.poll p fd (0 < timeout) token)
      (by simp only [Poll.step, hpc, hc]; rfl) ?_
    refine { h with polls := h.polls_of_ne p ?_ (by simp +contextual) }
    constructor <;> split_ifs <;> simp_all
  | yieldUntil p tp =>
    obtain ⟨hc, ⟨⟩⟩ := Option.ite_none_right_eq_some.mp hstep
    have hpc := (h.polls p).pc
    refine answer_step (.yieldFor p) (by simp only [Poll.step, hpc, hc]; rfl) ?_
    exact { h with polls := h.polls_of_ne p (by constructor <;> simp_all) (by simp +contextual) }
  | advance p => exact advance_answered h hs hstep
  | nextEvents batch =>
    obtain ⟨ready, hnodup, hsome, hready⟩ := hbatch batch rfl
    obtain ⟨⟨hl, -⟩, ⟨⟩⟩ := Option.ite_none_right_eq_some.mp hstep
    have hloop := h.loop
    rw [hl] at hloop
    have hentries := h.timed
    simp only [State.entries, hl] at hentries
    obtain ⟨m, hm⟩ := exists_collected (a := { a with
      mRecentEvents := []
      interest := (reportedFds ready).foldl InterestList.disable a.interest
      loop := .collect (ready.filterMap a.event) }) _ rfl
    refine ⟨_, .trans (.tail (a := .nextEvents ready) (.refl a) trivial ?_) hm, ?_⟩
    · exact if_pos ⟨hloop, hnodup, hsome⟩
    · exact { h with timed := hentries, recent := hready, loop := rfl }
  | loop k => exact loop_answered h hs hstep

/-- Whatever epoll holds in a state that corresponds to `s`, it can report the batch. -/
def Reportable (s : State π φ) : Action π φ → Prop
  | .nextEvents ready => ∀ a, (Poll.machine π φ).Reachable a → Represents s a →
      Reports a (ready.filterMap s.event)
  | _ => True

/-- Every run of the model with time with such batches is a run of the model without time. -/
lemma exists_represents {c : ℤ} (h : (machine π φ c).ReachableUnder Reportable s) :
    ∃ a, (Poll.machine π φ).Reachable a ∧ Represents s a := by
  refine h.invariant (I := fun s => ∃ a, (Poll.machine π φ).Reachable a ∧ Represents s a)
    ⟨Poll.start, .start, represents_start c⟩ ?_
  rintro s act t hs ⟨a, ha, hrep⟩ hbatch hstep
  have hanswer : Answers a t := by
    refine exists_answer hs.reachable hrep hstep ?_
    rintro ready rfl
    obtain ⟨-, ⟨⟩⟩ := Option.ite_none_right_eq_some.mp hstep
    exact hbatch a ha hrep
  obtain ⟨b, hpath, hb⟩ := hanswer
  exact ⟨b, Machine.Path.trans ha hpath, hb⟩

/-- Where all polls end on their own descriptors, epoll reports no event of a poll whose handle has
been handed over. -/
lemma not_resumed_of_event {c : ℤ} (hreach : (machine π φ c).Reachable s) (h : Represents s a)
    (ha : (Poll.machine π φ).ReachableUnder EndsOnItsFd a) {r : Poll.Ready φ} {st : PollStatus}
    (hr : a.event r = some (.poll p st)) : ¬ (s.pc p).Resumed := by
  intro hres
  have hclean := clean_of_reachable ha
  have hqueued := h.queued p ((sound_of_reachable hreach).handles.resumed p hres)
  obtain ⟨f, isCancel, he⟩ := Clean.exists_entry hr
  exact (hclean.processed p (hclean.queued p hqueued)).2 isCancel ⟨f, _, he, rfl⟩

end Libcoro.Scheduler.PollCompletion
