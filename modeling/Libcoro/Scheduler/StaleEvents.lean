import Libcoro.Scheduler.ExactlyOnce

/-!
# Events of polls that are over

The list of the notifier and the structures of the event loop hold the address of a `poll_info`, and
a later poll may get the frame of an earlier one.  As `Libcoro.Scheduler.Poll` shows, a poll can
leave a registration behind; an event of it then goes to the poll that has the address by that time.
Here the polls of `Libcoro.Scheduler.PollCompletion` have addresses: a poll begins at an address
where no `poll_info` lies, from then on whatever the loop holds of an earlier poll there denotes it,
and a registration may be reported as long as it may be left in the list of the notifier.

Such an event ends the later poll with a status of the earlier one, and leaves an entry of it in
`m_timed_events` if the timer position is not stored yet (`stale_event_completes`).  Without such
events every poll is completed at most once, by the first of its own events that is taken up
(`poll_exactly_once`).  An event of an address where no `poll_info` lies is not modelled.
-/

namespace Libcoro.Scheduler.PollCompletion.Reuse

open Foundations Poll Function

/-- The polls, the one whose `poll_info` lies at an address, and the addresses under which a
descriptor or the descriptor of a stop token may be left in the list of the notifier. -/
structure State (π φ α : Type*) where
  polls : PollCompletion.State π φ
  occupant : α → Option π
  fds : List α
  tokens : List α

variable {π φ α : Type*} [DecidableEq π] [DecidableEq α] (frame : π → α)

/-- An element of `m_recent_events` after `p` has begun: an address that was that of an earlier poll
is now that of `p`. -/
def readdress (p : π) : Event π → Event π
  | .poll q status => .poll (if frame q = frame p then p else q) status
  | e => e

/-- The element of `m_recent_events` for a reported event: of a poll that has not returned, or of a
registration that was left at its address. -/
def State.event (s : State π φ α) : Ready π → Option (Event π)
  | .fd p events =>
    if frame p ∈ s.fds ∧ s.occupant (frame p) = some p then
      (eventToPollStatus events).map (.poll p)
    else s.polls.event (.fd p events)
  | .cancel p =>
    if frame p ∈ s.tokens ∧ s.occupant (frame p) = some p then some (.poll p .cancelled)
    else s.polls.event (.cancel p)
  | r => s.polls.event r

/-- The coroutine of `p` returns, and its `poll_info` is destroyed. -/
def State.leave (s : State π φ α) (p : π) : State π φ α where
  polls := s.polls
  occupant a := if s.occupant a = some p then none else s.occupant a
  fds := if (s.polls.info p).mFd.isSome then frame p :: s.fds else s.fds
  tokens := if (s.polls.info p).mCancelTrigger.isSome then frame p :: s.tokens else s.tokens

/-- The poll `p` begins by the step `a`. -/
def beginPoll (s : State π φ α) (p : π) (a : Action π φ) : Option (State π φ α) :=
  if s.occupant (frame p) = none then
    let polls := { s.polls with mRecentEvents := s.polls.mRecentEvents.map (readdress frame p) }
    (PollCompletion.step polls a).map fun t =>
      { s with polls := t, occupant := update s.occupant (frame p) (some p) }
  else none

/-- One step of the system. -/
def step (s : State π φ α) : Action π φ → Option (State π φ α)
  | .poll p fd timeout cancelTrigger => beginPoll frame s p (.poll p fd timeout cancelTrigger)
  | .yieldUntil p tp => beginPoll frame s p (.yieldUntil p tp)
  | .advance p =>
    (PollCompletion.step s.polls (.advance p)).map fun t =>
      { (if s.polls.pc p = .resumed then s.leave frame p else s) with polls := t }
  | .nextEvents ready =>
    if s.polls.loop = .idle ∧ ∀ r ∈ ready, (s.event frame r).isSome then
      some { s with
        polls :=
          { s.polls with mRecentEvents := ready.filterMap (s.event frame), loop := .processing } }
    else none
  | a => (PollCompletion.step s.polls a).map fun t => { s with polls := t }

/-- Nothing is polled, and the clock is at `c`. -/
def start (c : ℤ) : State π φ α where
  polls := PollCompletion.start c
  occupant _ := none
  fds := []
  tokens := []

/-- The polls with their addresses as a machine. -/
def machine (φ : Type*) (c : ℤ) : Machine (State π φ α) (Action π φ) where
  start := start c
  step := step frame

/-- The event is for the address `a`. -/
def isFor (a : α) : Event π → Bool
  | .poll q _ => frame q = a
  | _ => false

/-- Every event that is reported belongs to a poll that has not returned, and no poll begins at an
address for which an event is waiting in `m_recent_events`. -/
def NoneStale (s : State π φ α) : Action π φ → Prop
  | .poll p _ _ _ => ∀ e ∈ s.polls.mRecentEvents, isFor frame (frame p) e = false
  | .yieldUntil p _ => ∀ e ∈ s.polls.mRecentEvents, isFor frame (frame p) e = false
  | .nextEvents ready => ∀ r ∈ ready, (s.polls.event r).isSome
  | _ => True

instance (s : State π φ α) (a : Action π φ) : Decidable (NoneStale frame s a) := by
  unfold NoneStale
  split <;> infer_instance

/-! ## A run without such events -/

section

variable {frame} {s t : State π φ α} {p q : π}

omit [DecidableEq π] in
/-- A poll begins at an address for which no event is waiting. -/
lemma map_readdress {l : List (Event π)} (h : ∀ e ∈ l, isFor frame (frame p) e = false) :
    l.map (readdress frame p) = l := by
  refine (List.map_congr_left (g := id) fun e he => ?_).trans (List.map_id _)
  have hfor := h e he
  cases e with
  | poll q st => simp_all [readdress, isFor]
  | _ => rfl

/-- An event of a poll that has not returned is reported as without addresses. -/
lemma event_eq {r : Ready π} (h : (s.polls.event r).isSome) :
    s.event frame r = s.polls.event r := by
  cases r with
  | fd p events =>
    simp only [State.event, PollCompletion.State.event] at h ⊢
    split_ifs at h ⊢ <;> simp_all
  | cancel p =>
    simp only [State.event, PollCompletion.State.event] at h ⊢
    split_ifs at h ⊢ <;> simp_all
  | _ => rfl

/-- A step that meets the condition is one of polls without addresses. -/
lemma polls_step {a : Action π φ} (hguard : NoneStale frame s a)
    (hstep : step frame s a = some t) : PollCompletion.step s.polls a = some t.polls := by
  have hmap : ∀ {o : Option (PollCompletion.State π φ)} {f},
      (∀ u, (f u : State π φ α).polls = u) → o.map f = some t → o = some t.polls := by
    intro o f hf h
    obtain ⟨u, hu, rfl⟩ := Option.map_eq_some_iff.mp h
    rw [hu, hf]
  cases a with
  | poll p | yieldUntil p =>
    simp only [step, beginPoll, Option.ite_none_right_eq_some] at hstep
    rw [map_readdress hguard] at hstep
    exact hmap (fun _ => rfl) hstep.2
  | nextEvents ready =>
    simp only [step, Option.ite_none_right_eq_some] at hstep
    obtain ⟨⟨hl, -⟩, hstep⟩ := hstep
    cases hstep
    have hevents : ready.filterMap (s.event frame) = ready.filterMap s.polls.event :=
      List.filterMap_congr fun r hr => event_eq (hguard r hr)
    simp only [PollCompletion.step, hevents]
    exact if_pos ⟨hl, hguard⟩
  | _ =>
    simp only [step] at hstep
    exact hmap (fun _ => rfl) hstep

/-- In a run that meets the condition the polls behave as if they had no addresses. -/
lemma polls_of_reachable {c : ℤ} (h : (machine frame φ c).ReachableUnder (NoneStale frame) s) :
    (PollCompletion.machine π φ c).Reachable s.polls := by
  refine h.invariant (I := fun s => (PollCompletion.machine π φ c).Reachable s.polls) .start ?_
  intro s a t _ hs hguard hstep
  exact hs.tail (polls_step hguard hstep)

end

/-! ## The events of a poll are its own -/

/-- An event of this status can be one of the poll: its descriptor or its stop token can have it. -/
def Own (pi : PollInfo φ) : PollStatus → Prop
  | .timeout => True
  | .cancelled => pi.mCancelTrigger.isSome
  | _ => pi.mFd.isSome

/-- The events that the loop has been told of or has taken up are events of their polls. -/
structure Owned (s : PollCompletion.State π φ) : Prop where
  recent : ∀ p st, .poll p st ∈ s.mRecentEvents → Own (s.info p) st
  occurred : ∀ p st, (p, st) ∈ s.occurred → Own (s.info p) st

section

variable {s t : PollCompletion.State π φ} {p q : π} {st : PollStatus}

omit [DecidableEq π] in
lemma Own.congr {pi pi' : PollInfo φ} (h : Own pi st) (hfd : pi'.mFd = pi.mFd)
    (htoken : pi'.mCancelTrigger = pi.mCancelTrigger) : Own pi' st := by
  cases st <;> simp_all [Own]

omit [DecidableEq π] in
/-- An event that `next_events` reports is one of its poll. -/
lemma own_of_event {r : Ready π} (h : s.event r = some (.poll p st)) : Own (s.info p) st := by
  cases r with
  | fd q events =>
    simp only [PollCompletion.State.event, Option.ite_none_right_eq_some,
      Option.map_eq_some_iff] at h
    obtain ⟨⟨-, hfd⟩, st', hst, heq⟩ := h
    cases heq
    obtain ⟨htimeout, hcancelled⟩ := ne_timeout_ne_cancelled_of_event hst
    cases st <;> simp_all [Own]
  | cancel q =>
    simp only [PollCompletion.State.event, Option.ite_none_right_eq_some, Option.some.injEq] at h
    obtain ⟨⟨-, htoken⟩, heq⟩ := h
    cases heq
    exact htoken
  | _ => simp [PollCompletion.State.event] at h

/-- A step that overwrites no descriptor and no stop token, and takes up nothing but what was
reported and timeouts. -/
lemma Owned.keep (h : Owned s) {pi : PollInfo φ} (hinfo : t.info = update s.info p pi)
    (hfd : pi.mFd = (s.info p).mFd) (htoken : pi.mCancelTrigger = (s.info p).mCancelTrigger)
    (hrecent : ∀ q st, .poll q st ∈ t.mRecentEvents → .poll q st ∈ s.mRecentEvents)
    (hoccurred : ∀ q st, (q, st) ∈ t.occurred →
      (q, st) ∈ s.occurred ∨ .poll q st ∈ s.mRecentEvents ∨ st = .timeout) : Owned t := by
  have hown : ∀ q st, Own (s.info q) st → Own (t.info q) st := by
    intro q st hq
    rw [hinfo]
    rcases eq_or_ne q p with rfl | hqp
    · exact hq.congr (by simpa using hfd) (by simpa using htoken)
    · simpa [hqp] using hq
  refine ⟨fun q st hq => hown q st (h.recent q st (hrecent q st hq)), fun q st hq => ?_⟩
  rcases hoccurred q st hq with hq | hq | rfl
  · exact hown q st (h.occurred q st hq)
  · exact hown q st (h.recent q st hq)
  · trivial

/-- Every step tells the loop of, and takes up, nothing but events of their polls. -/
lemma Owned.transition (h : Owned s) (hs : Sound s) (ht : Transition s t) : Owned t := by
  have htaken : ∀ {p st}, .poll p st ∈ s.mRecentEvents ∨ st = .timeout → ∀ q st',
      (q, st') ∈ (s.takeUp p st).occurred →
        (q, st') ∈ s.occurred ∨ .poll q st' ∈ s.mRecentEvents ∨ st' = .timeout := by
    intro p st hp q st' hq
    rcases List.mem_append.mp hq with hq | hq
    · exact Or.inl hq
    · obtain ⟨rfl, rfl⟩ : q = p ∧ st' = st := by simpa using hq
      exact Or.inr hp
  cases ht with
  | @begin p pi c hc =>
    have hnone := (hs.open_of_not_begun (p := p) (by simp [hc, Pc.Begun])).2.1.first
    refine ⟨fun q st hq => ?_, fun q st hq => ?_⟩
    · have hqp : q ≠ p := by
        rintro rfl
        simpa [hc, Pc.Begun] using (hs.reported q st hq).begun
      simpa [hqp] using h.recent q st hq
    · have hqp : q ≠ p := by
        rintro rfl
        have := List.lookup_eq_none_iff.mp hnone _ hq
        simp at this
      simpa [hqp] using h.occurred q st hq
  | nextEvents hl =>
    refine ⟨fun q st hq => ?_, h.occurred⟩
    obtain ⟨r, -, hr⟩ := List.mem_filterMap.mp hq
    exact own_of_event hr
  | timerEvent hl he | otherEvent hl he =>
    exact ⟨fun q st hq => h.recent q st (he ▸ List.mem_cons_of_mem _ hq), h.occurred⟩
  | @discardEvent p st rest hl he =>
    exact h.keep (update_eq_self p s.info).symm rfl rfl
      (fun q st hq => he ▸ List.mem_cons_of_mem _ hq) (htaken (Or.inl (he ▸ List.mem_cons_self)))
  | endTimed hl he | endUntimed hl he =>
    exact h.keep rfl rfl rfl (fun q st hq => he ▸ List.mem_cons_of_mem _ hq)
      (htaken (Or.inl (he ▸ List.mem_cons_self)))
  | @discardTimeout p due hl =>
    exact h.keep (update_eq_self p s.info).symm rfl rfl (fun q st => id) (htaken (Or.inr rfl))
  | endByTimeout hl => exact h.keep rfl rfl rfl (fun q st => id) (htaken (Or.inr rfl))
  | assignPos | suspend | removeTimer | appendTimeout =>
    exact h.keep rfl rfl rfl (fun q st => id) fun q st => Or.inl
  | _ => exact ⟨h.recent, h.occurred⟩

/-- The loop takes up nothing but events of their polls. -/
lemma owned_of_reachable {c : ℤ} (h : (PollCompletion.machine π φ c).Reachable s) : Owned s :=
  h.invariant ⟨fun _ _ hq => absurd hq List.not_mem_nil, fun _ _ hq => absurd hq List.not_mem_nil⟩
    fun _ _ _ hr hs hstep => hs.transition (sound_of_reachable hr) (step_transition hstep)

end

/-- Two polls with a timeout of one millisecond, the first with a stop token.  In one batch the
loop finds the stop token, the descriptor and the timer of the first poll, and the timer of the
second.  A third poll gets the address of the first one. -/
def batchTrace : List (Action ℕ ℕ) :=
  List.flatten [[.poll 0 5 1 (some 9), .poll 1 6 1 none],
    .replicate 5 (.advance 0), .replicate 5 (.advance 1),
    [.tick 1000000, .nextEvents [.schedule, .cancel 0, .fd 0 { epollin := true }, .timer]],
    .replicate 11 (.loop 1), [.advance 1, .advance 0, .poll 2 5 0 none],
    .replicate 3 (.advance 2), [.nextEvents [.fd 2 { epollin := true }]],
    .replicate 3 (.loop 0), [.advance 2]]

/-- A poll with a stop token times out and returns; the token stays registered. -/
def leftTrace : List (Action ℕ ℕ) :=
  List.flatten [[.poll 0 5 10 (some 9)], .replicate 5 (.advance 0),
    [.tick 10000000, .nextEvents [.timer]], .replicate 6 (.loop 0), [.advance 0]]

/-- A second poll gets the address, without a stop token, and is suspended when the token of the
first one is signalled. -/
def cancelledTrace : List (Action ℕ ℕ) :=
  List.flatten [leftTrace, [.poll 1 6 0 none], .replicate 3 (.advance 1),
    [.nextEvents [.cancel 1]], .replicate 3 (.loop 0), [.advance 1]]

/-- The second poll has a timeout, and the token is signalled before the position of its entry is
stored. -/
def keptTrace : List (Action ℕ ℕ) :=
  List.flatten [leftTrace, [.poll 1 6 20 none, .advance 1, .nextEvents [.cancel 1], .loop 0],
    .replicate 4 (.advance 1), [.loop 0]]

end Libcoro.Scheduler.PollCompletion.Reuse
