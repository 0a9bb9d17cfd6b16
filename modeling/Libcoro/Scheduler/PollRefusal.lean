import Libcoro.Scheduler.PollRegistrations

/-!
# Polls whose registration is refused

`epoll_ctl` may refuse a descriptor, because it cannot be polled or because it is registered
already.  `watch(poll_info&)` ignores this and `scheduler::poll` suspends the coroutine all the
same. If the poll has no timeout and no stop token, or the stop token is refused as well, nothing
will ever resume it (`refused_poll_stays`).

A poll that has got a timer entry or a registration of its own is completed in time, unless somebody
else deletes the registration: the event loop unwatches the descriptors of the poll that it is about
to end without looking whose registration it finds there (`poll_completable`).
-/

namespace Libcoro.Scheduler.PollRefusal

open Foundations Poll Function

/-- The polls, and whether a poll has got a timer entry or a registration of its own (history, read
by no step). -/
structure State (π φ : Type*) where
  polls : Poll.State π φ
  enlisted : π → Bool

/-- A step in which no descriptor is refused but those that are registered already, or a
registration of the poll `p` that is refused. -/
inductive Action (π φ : Type*) where
  | move (a : Poll.Action π φ)
  | refuse (p : π)
  deriving DecidableEq, Repr

variable {π φ : Type*}

/-- A descriptor is given and not registered. -/
def vacant (s : Poll.State π φ) : Option φ → Bool
  | none => false
  | some f => (s.interest f).isNone

/-- The next step of the coroutine of `p` makes a timer entry or a registration. -/
def enlists (s : Poll.State π φ) (p : π) : Bool :=
  match s.pc p with
  | .addTimer => true
  | .watch => vacant s (s.info p).mFd
  | .watchCancel => vacant s (s.info p).mCancelTrigger
  | _ => false

/-- The descriptor that the next step of the event loop unwatches, with the poll on whose behalf it
does so. -/
def unwatched (s : Poll.State π φ) : Option (π × φ) :=
  match s.loop, s.mRecentEvents with
  | .collect (.poll p st :: _), _ => (s.unwatchedBy (.poll p st)).map fun f => (p, f)
  | .processing, .poll p _ :: _ =>
    if (s.info p).mProcessed then none else (s.info p).mFd.map fun f => (p, f)
  | .timeouts (p :: _), _ =>
    if (s.info p).mProcessed then none else (s.info p).mFd.map fun f => (p, f)
  | _, _ => none

/-- When a poll is through with its registrations it has a timer entry or one of them has been
accepted, and the event loop unwatches a descriptor only if it is registered for the poll on whose
behalf it does so, or not at all. -/
def Careful (s : State π φ) : Action π φ → Prop
  | .move (.advance p) =>
    s.polls.pc p = .watchCancel → s.enlisted p = true ∨ enlists s.polls p = true
  | .move (.loop _) => ∀ u ∈ unwatched s.polls, ∀ r ∈ s.polls.interest u.2, r.data.poll = u.1
  | .refuse p => s.polls.pc p = .watchCancel → s.enlisted p = true
  | .move _ => True

section Step

variable [DecidableEq π]

instance (s : State π φ) (a : Action π φ) : Decidable (Careful s a) := by
  unfold Careful
  split <;> infer_instance

variable [DecidableEq φ]

/-- One step of the system. -/
def step (s : State π φ) : Action π φ → Option (State π φ)
  | .move a =>
    (Poll.step s.polls a).map fun t =>
      { polls := t
        enlisted := match a with
          | .advance p => update s.enlisted p (s.enlisted p || enlists s.polls p)
          | _ => s.enlisted }
  | .refuse p =>
    match s.polls.pc p with
    | .watch => some { s with polls := s.polls.goto p .watchCancel }
    | .watchCancel =>
      if (s.polls.info p).mCancelTrigger.isSome then
        some { s with polls := s.polls.goto p .suspend }
      else none
    | _ => none

/-- The polls of a scheduler whose registrations may be refused. -/
def machine (π φ : Type*) [DecidableEq π] [DecidableEq φ] :
    Machine (State π φ) (Action π φ) where
  start := { polls := Poll.start, enlisted := fun _ => false }
  step := step

end Step

/-! ## What the event loop has in its hands -/

/-- The loop has an event of `p` or its timeout in its hands, or it waits for `p` to suspend. -/
def Holds (p : π) : LoopPc π → Prop
  | .collect es => ∃ st, Event.poll p st ∈ es
  | .timeouts due => p ∈ due
  | .awaitEvent q => q = p
  | .awaitTimeout q due => q = p ∨ p ∈ due
  | _ => False

/-- A suspended poll can be completed: it has an enabled registration of its own or a timer entry,
or its completion is under way. -/
inductive Completable (s : Poll.State π φ) (p : π) : Prop
  | registered {f : φ} {c : Bool} : s.interest f = some ⟨⟨p, c⟩, true⟩ → Completable s p
  | timed : p ∈ s.mTimedEvents → Completable s p
  | held : Holds p s.loop → Completable s p
  | recent {st : PollStatus} : .poll p st ∈ s.mRecentEvents → Completable s p
  | queued : p ∈ s.mHandlesToResume → Completable s p

/-- The loop forgets no event between two batches and no poll that it has ended. -/
structure Tended (s : Poll.State π φ) : Prop where
  idle : s.loop = .idle → s.mRecentEvents = []
  processed : ∀ p, (s.info p).mProcessed = true →
    s.loop.Awaits p ∨ p ∈ s.mHandlesToResume ∨ s.pc p = .resumed

variable {s t : Poll.State π φ} {p q : π}

namespace Tended

/-- The loop, which waits for nobody, moves on and ends no poll. -/
lemma loop (h : Tended s) (hold : ∀ q, ¬ s.loop.Awaits q) (hinfo : t.info = s.info)
    (hpc : t.pc = s.pc) (hidle : t.loop ≠ .idle)
    (hqueued : t.mHandlesToResume = s.mHandlesToResume) : Tended t := by
  refine ⟨fun hl => (hidle hl).elim, fun q hq => ?_⟩
  rw [hqueued, hpc]
  rw [hinfo] at hq
  exact (h.processed q hq).imp_left fun ha => (hold q ha).elim

variable [DecidableEq π]

/-- The coroutine of `p` moves. -/
lemma coroutine (h : Tended s) (info : PollInfo φ) (c : Pc) (m : InterestList φ (UserData π))
    (ts : List π) (hp : s.pc p ≠ .resumed)
    (hinfo : info.mProcessed = true → (s.info p).mProcessed = true) :
    Tended { (s.setInfo p info).goto p c with interest := m, mTimedEvents := ts } := by
  refine ⟨h.idle, fun q hq => ?_⟩
  rcases eq_or_ne q p with rfl | hqp
  · have hq : (s.info q).mProcessed = true := hinfo (by simpa using hq)
    exact (h.processed q hq).imp_right fun hres => Or.inl (hres.resolve_right hp)
  · have hq : (s.info q).mProcessed = true := by simpa [hqp] using hq
    simpa [hqp] using h.processed q hq

/-- The coroutine of `p` goes on and leaves its `poll_info` alone. -/
lemma goto (h : Tended s) (c : Pc) (m : InterestList φ (UserData π)) (hp : s.pc p ≠ .resumed) :
    Tended { s.goto p c with interest := m } := by
  simpa using
    h.coroutine (p := p) (s.info p) c m s.mTimedEvents hp id

/-- The handle of the poll that the loop waits for is queued. -/
lemma enqueue (h : Tended s) (hold : ∀ q, s.loop.Awaits q → q = p) {info : π → PollInfo φ}
    {l : LoopPc π} (hinfo : ∀ q, (info q).mProcessed = true → (s.info q).mProcessed = true)
    (hidle : l ≠ .idle) : Tended { s.enqueue p with info := info, loop := l } := by
  refine ⟨fun hl => (hidle hl).elim, fun q hq => Or.inr ?_⟩
  rcases h.processed q (hinfo q hq) with ha | hmem | hres
  · exact Or.inl (by simp [hold q ha])
  · exact Or.inl (List.mem_append_left _ hmem)
  · exact Or.inr hres

variable [DecidableEq φ]

/-- The loop ends the poll `p` and waits for it. -/
lemma finish (h : Tended s) (ts : List π) (es : List (Event π)) (hold : ∀ q, ¬ s.loop.Awaits q)
    {st : PollStatus} {l : LoopPc π} (hl : l.Awaits p) (hidle : l ≠ .idle) :
    Tended { s.finish p st with mTimedEvents := ts, mRecentEvents := es, loop := l } := by
  refine ⟨fun hl => (hidle hl).elim, fun q hq => ?_⟩
  rcases eq_or_ne q p with rfl | hqp
  · exact Or.inl hl
  · have hq : (s.info q).mProcessed = true := by
      simpa [State.finish, hqp] using hq
    exact Or.inr ((h.processed q hq).resolve_left (hold q))

/-- Every step of the polls and of the loop. -/
lemma transition (h : Tended s) {a : Poll.Action π φ} (ht : Transition s a t) : Tended t := by
  cases ht with
  | poll hc
  | yieldFor hc => exact h.coroutine _ _ s.interest s.mTimedEvents (by simp [hc]) (by simp)
  | addTimer hc => exact h.coroutine _ _ s.interest _ (by simp [hc]) id
  | watch hc _ | watchCancel hc _ => exact h.goto _ _ (by simp [hc])
  | noToken hc _ => exact h.goto _ s.interest (by simp [hc])
  | suspend hc => exact h.coroutine _ _ s.interest s.mTimedEvents (by simp [hc]) id
  | resumeAll hl _ =>
    refine ⟨fun _ => rfl, fun q hq => Or.inr (Or.inr ?_)⟩
    rcases h.processed q hq with ha | hmem | hres
    · simp [hl] at ha
    · simp [hmem]
    · simp [hres]
  | nextEvents hl | collect hl | collected hl | timer hl | discardEvent hl | timeoutsDone hl
  | discardTimeout hl => exact h.loop (by simp [hl]) rfl rfl (by simp) rfl
  | endByEvent hl => exact h.finish _ _ (by simp [hl]) rfl (by simp)
  | endByTimeout hl =>
    exact h.finish s.mTimedEvents s.mRecentEvents (by simp [hl]) rfl (by simp)
  | @queueEvent due p hl _ =>
    exact h.enqueue (by simp [hl]) (fun _ hq => hq) (by simp)
  | @queueTimeout due rest p hl _ =>
    refine h.enqueue (by simp [hl]) (fun q hq => ?_) (by simp)
    rcases eq_or_ne q p with rfl | hqp
    · simpa using hq
    · simpa [hqp] using hq

end Tended

/-! ## Polls that can be completed -/

namespace Completable

/-- From one state to another, whatever `p` owes its completion to. -/
lemma transfer (h : Completable s p)
    (hinterest : ∀ f r, s.interest f = some r → r.enabled = true → r.data.poll = p →
      t.interest f = some r)
    (htimed : p ∈ s.mTimedEvents → Completable t p) (hheld : Holds p s.loop → Completable t p)
    (hrecent : ∀ st, .poll p st ∈ s.mRecentEvents → Completable t p)
    (hqueued : p ∈ s.mHandlesToResume → Completable t p) : Completable t p := by
  cases h with
  | registered hr => exact .registered (hinterest _ _ hr rfl rfl)
  | timed hmem => exact htimed hmem
  | held hh => exact hheld hh
  | recent he => exact hrecent _ he
  | queued hmem => exact hqueued hmem

/-- A coroutine moves: nothing is taken away. -/
lemma mono (h : Completable s p)
    (hinterest : ∀ f r, s.interest f = some r → r.data.poll = p → t.interest f = some r)
    (htimed : p ∈ s.mTimedEvents → p ∈ t.mTimedEvents) (hloop : t.loop = s.loop)
    (hrecent : t.mRecentEvents = s.mRecentEvents)
    (hqueued : t.mHandlesToResume = s.mHandlesToResume) : Completable t p :=
  h.transfer (fun f r hr _ => hinterest f r hr) (fun hmem => .timed (htimed hmem))
    (fun hh => .held (hloop ▸ hh)) (fun _ he => .recent (hrecent ▸ he))
    fun hmem => .queued (hqueued ▸ hmem)

/-- The loop moves on among its events and leaves the registrations and the timer entries alone. -/
lemma loop (h : Completable s p) (hinterest : t.interest = s.interest)
    (htimed : t.mTimedEvents = s.mTimedEvents) (hheld : Holds p s.loop → Completable t p)
    (hrecent : ∀ st, .poll p st ∈ s.mRecentEvents → Completable t p)
    (hqueued : ∀ q ∈ s.mHandlesToResume, q ∈ t.mHandlesToResume) : Completable t p :=
  h.transfer (fun _ _ hr _ _ => hinterest ▸ hr) (fun hmem => .timed (htimed ▸ hmem)) hheld hrecent
    fun hmem => .queued (hqueued p hmem)

variable [DecidableEq φ]

/-- `next_events` has got a batch: whoever has lost its registration is in it. -/
lemma nextEvents (h : Completable s p) {ready : List (Ready φ)} (hl : s.loop = .idle)
    (hempty : s.mRecentEvents = []) (hsome : ∀ r ∈ ready, (s.event r).isSome) :
    Completable { s with
      mRecentEvents := []
      interest := (reportedFds ready).foldl InterestList.disable s.interest
      loop := .collect (ready.filterMap s.event) } p := by
  cases h with
  | @registered f c hr =>
    by_cases hf : f ∈ reportedFds ready
    · obtain ⟨r, hmem, hrf⟩ := List.mem_filterMap.mp hf
      cases r with
      | timer => simp at hrf
      | fd g events =>
        obtain rfl : g = f := by simpa using hrf
        obtain ⟨e, he⟩ := Option.isSome_iff_exists.mp (hsome _ hmem)
        -- the event is one of `p`, of its descriptor or of its stop token
        obtain ⟨st, rfl⟩ : ∃ st, e = .poll p st := by
          cases c with
          | true => exact ⟨.cancelled, by simpa [hr] using he.symm⟩
          | false =>
            obtain ⟨st, -, hst⟩ : ∃ st, eventToPollStatus events = some st ∧ .poll p st = e := by
              simpa [hr] using he
            exact ⟨st, hst.symm⟩
        exact .held ⟨st, List.mem_filterMap.mpr ⟨_, hmem, he⟩⟩
    · exact .registered ((InterestList.foldl_disable_of_notMem hf).trans hr)
  | timed hmem => exact .timed hmem
  | held hh => simp [hl, Holds] at hh
  | recent he => simp [hempty] at he
  | queued hmem => exact .queued hmem

/-- `next_events` collects an event. -/
lemma collect (h : Completable s p) {e : Event π} {rs : List (Event π)}
    (hl : s.loop = .collect (e :: rs))
    (hown : ∀ u ∈ unwatched s, ∀ r ∈ s.interest u.2, r.data.poll = u.1) :
    Completable { s with
      mRecentEvents := s.mRecentEvents ++ [e]
      interest := s.interest.del (s.unwatchedBy e)
      loop := .collect rs } p := by
  cases h with
  | @registered f c hr =>
    by_cases hf : s.unwatchedBy e = some f
    · -- what is unwatched is registered for the poll of the event
      cases e with
      | timer => simp [State.unwatchedBy] at hf
      | poll q st =>
        obtain rfl : p = q := hown (q, f) (by simp [unwatched, hl, hf]) _ hr
        have hmem : Event.poll p st ∈ s.mRecentEvents ++ [.poll p st] := by simp
        exact .recent hmem
    · exact .registered (InterestList.del_of_ne hr hf)
  | timed hmem => exact .timed hmem
  | held hh =>
    rw [hl] at hh
    obtain ⟨st, hmem⟩ := hh
    rcases List.mem_cons.mp hmem with rfl | hmem
    · have hmem : Event.poll p st ∈ s.mRecentEvents ++ [.poll p st] := by simp
      exact .recent hmem
    · exact .held ⟨st, hmem⟩
  | recent he => exact .recent (List.mem_append_left _ he)
  | queued hmem => exact .queued hmem

variable [DecidableEq π]

/-- The loop ends another poll. -/
lemma finish (h : Completable s p) (hpq : p ≠ q) {st : PollStatus} {ts : List π}
    {es : List (Event π)} {l : LoopPc π}
    (hown : ∀ f, (s.info q).mFd = some f → ∀ r ∈ s.interest f, r.data.poll = q)
    (htimed : p ∈ s.mTimedEvents → p ∈ ts) (hheld : Holds p s.loop → Holds p l)
    (hrecent : ∀ st', .poll p st' ∈ s.mRecentEvents → .poll p st' ∈ es) :
    Completable { s.finish q st with mTimedEvents := ts, mRecentEvents := es, loop := l } p :=
  h.transfer
    (fun f r hr _ hrp => InterestList.del_of_ne hr fun hf => hpq (hrp.symm.trans (hown f hf r hr)))
    (fun hmem => .timed (htimed hmem)) (fun hh => .held (hheld hh))
    (fun _ he => .recent (hrecent _ he)) fun hmem => .queued hmem

/-- Every step keeps a poll completable until its coroutine is resumed. -/
lemma transition {a : Poll.Action π φ} (h : Completable s p) (ht : Transition s a t)
    (htended : Tended s) (hp : s.pc p ≠ .resumed)
    (hown : ∀ due, a = .loop due → ∀ u ∈ unwatched s, ∀ r ∈ s.interest u.2, r.data.poll = u.1) :
    Completable t p ∨ t.pc p = .resumed := by
  -- the loop has ended a poll and does not wait for it
  have hended : ∀ q, (s.info q).mProcessed = true → ¬ s.loop.Awaits q → q = p →
      p ∈ s.mHandlesToResume := by
    rintro q hq hnot rfl
    rcases htended.processed q hq with ha | hmem | hres
    · exact (hnot ha).elim
    · exact hmem
    · exact (hp hres).elim
  cases ht with
  | poll | yieldFor | noToken | suspend =>
    exact Or.inl (h.mono (fun _ _ hr _ => hr) id rfl rfl rfl)
  | addTimer =>
    exact Or.inl (h.mono (fun _ _ hr _ => hr) (List.mem_cons_of_mem _) rfl rfl rfl)
  | watch | watchCancel =>
    exact Or.inl (h.mono (fun _ _ hr _ => InterestList.add_of_some hr) id rfl rfl rfl)
  | nextEvents hl _ hsome => exact Or.inl (h.nextEvents hl (htended.idle hl) hsome)
  | collect hl => exact Or.inl (h.collect hl (hown _ rfl))
  | collected hl
  | timeoutsDone hl =>
    exact Or.inl (h.loop rfl rfl (by simp [hl, Holds]) (fun _ he => .recent he) fun _ => id)
  | resumeAll hl hnone =>
    cases h with
    | registered hr => exact Or.inl (.registered hr)
    | timed hmem => exact Or.inl (.timed hmem)
    | held hh => simp [hl, Holds] at hh
    | recent he => simp [hnone] at he
    | queued hmem => exact Or.inr (if_pos hmem)
  | @timer due rest hl he _ _ =>
    refine Or.inl (h.transfer (fun _ _ hr _ _ => hr) (fun hmem => ?_) (by simp [hl, Holds])
      (fun st hmem => ?_) fun hmem => .queued hmem)
    · by_cases hdue : p ∈ due
      · exact .held hdue
      · exact .timed (List.mem_filter.mpr ⟨hmem, by simpa using hdue⟩)
    · have hmem : Event.poll p st ∈ rest := by simpa [he] using hmem
      exact .recent hmem
  | @discardEvent due q st rest hl he hq =>
    refine Or.inl (h.loop rfl rfl (by simp [hl, Holds]) (fun st' hmem => ?_) fun _ => id)
    rcases List.mem_cons.mp (he ▸ hmem) with heq | hmem
    · obtain ⟨rfl, -⟩ := Event.poll.inj heq
      exact .queued (hended p hq (by simp [hl]) rfl)
    · exact .recent hmem
  | @endByEvent due q st rest hl he hq =>
    refine Or.inl ?_
    rcases eq_or_ne p q with rfl | hpq
    · exact .held rfl
    · refine h.finish hpq (fun f hf => ?_) (fun hmem => ?_) (by simp [hl, Holds]) fun st' hmem => ?_
      · exact hown _ rfl (q, f) (by simp [unwatched, hl, he, hq, hf])
      · split_ifs
        · exact (List.mem_erase_of_ne hpq).mpr hmem
        · exact hmem
      · rcases List.mem_cons.mp (he ▸ hmem) with heq | hmem
        · exact (hpq (Event.poll.inj heq).1).elim
        · exact hmem
  | @discardTimeout due rest q hl hq =>
    refine Or.inl (h.loop rfl rfl (fun hh => ?_) (fun _ he => .recent he) fun _ => id)
    rw [hl] at hh
    rcases List.mem_cons.mp hh with rfl | hmem
    · exact .queued (hended p hq (by simp [hl]) rfl)
    · exact .held hmem
  | @endByTimeout due rest q hl hq =>
    refine Or.inl ?_
    rcases eq_or_ne p q with rfl | hpq
    · exact .held (Or.inl rfl)
    · refine h.finish hpq (fun f hf => ?_) id (fun hh => ?_) fun _ he => he
      · exact hown _ rfl (q, f) (by simp [unwatched, hl, hq, hf])
      · rw [hl] at hh
        exact Or.inr ((List.mem_cons.mp hh).resolve_left hpq)
  | @queueEvent due q hl _ =>
    refine Or.inl (h.loop rfl rfl (fun hh => ?_) (fun _ he => .recent he) fun _ =>
      List.mem_append_left _)
    obtain rfl : q = p := by simpa [hl, Holds] using hh
    exact .queued (by simp)
  | @queueTimeout due rest q hl _ =>
    refine Or.inl (h.loop rfl rfl (fun hh => ?_) (fun _ he => .recent he) fun _ =>
      List.mem_append_left _)
    rw [hl] at hh
    rcases hh with rfl | hmem
    · exact .queued (by simp)
    · exact .held hmem

end Completable

/-! ## Polls that have been enlisted -/

/-- The steps of a polling coroutine. -/
inductive Next : Pc → Pc → Prop
  | timeout : Next .idle .addTimer
  | poll : Next .idle .watch
  | watch : Next .addTimer .watch
  | yield : Next .addTimer .suspend
  | watchCancel : Next .watch .watchCancel
  | suspend : Next .watchCancel .suspend
  | suspended : Next .suspend .suspended

/-- Where a step of a coroutine begins and ends. -/
lemma Next.spec {q c : Pc} (h : Next q c) :
    q ≠ .suspended ∧ q ≠ .resumed ∧ c ≠ .idle ∧
      (c = .suspend → q = .addTimer ∨ q = .watchCancel) ∧ (c = .suspended → q = .suspend) := by
  cases h <;> simp

section Pc

variable [DecidableEq π]

/-- A step in which only the coroutine of `q` has moved. -/
lemma pc_of_goto {a : Poll.Action π φ} {c : Pc} (hnext : Next (s.pc q) c)
    (ha : a = .advance q ∨ s.pc q = .idle) (ht : t.pc = update s.pc q c) (p : π) :
    t.pc p = s.pc p ∨ (Next (s.pc p) (t.pc p) ∧ (a = .advance p ∨ s.pc p = .idle)) ∨
      (p ∈ s.mHandlesToResume ∧ t.pc p = .resumed) := by
  rcases eq_or_ne p q with rfl | hpq
  · exact Or.inr (Or.inl ⟨by simpa [ht] using hnext, ha⟩)
  · exact Or.inl (by simp [ht, hpq])

variable [DecidableEq φ]

/-- Where the coroutine of `p` is after a step. -/
lemma pc_of_transition {a : Poll.Action π φ} (ht : Transition s a t) (p : π) :
    t.pc p = s.pc p ∨ (Next (s.pc p) (t.pc p) ∧ (a = .advance p ∨ s.pc p = .idle)) ∨
      (p ∈ s.mHandlesToResume ∧ t.pc p = .resumed) := by
  cases ht with
  | @poll q _ timeout _ hc =>
    refine pc_of_goto (q := q) ?_ (Or.inr hc) rfl p
    rw [hc]
    cases timeout
    · exact .poll
    · exact .timeout
  | @yieldFor q hc => exact pc_of_goto (q := q) (by simpa [hc] using Next.timeout) (Or.inr hc) rfl p
  | @addTimer q hc =>
    refine pc_of_goto (q := q) ?_ (Or.inl rfl) rfl p
    rw [hc]
    split_ifs
    · exact .watch
    · exact .yield
  | @watch q f hc _ =>
    exact pc_of_goto (q := q) (by simpa [hc] using Next.watchCancel) (Or.inl rfl) rfl p
  | @noToken q hc _ | @watchCancel q f hc _ =>
    exact pc_of_goto (q := q) (by simpa [hc] using Next.suspend) (Or.inl rfl) rfl p
  | @suspend q hc =>
    exact pc_of_goto (q := q) (by simpa [hc] using Next.suspended) (Or.inl rfl) rfl p
  | resumeAll =>
    by_cases hmem : p ∈ s.mHandlesToResume
    · exact Or.inr (Or.inr ⟨hmem, if_pos hmem⟩)
    · exact Or.inl (if_neg hmem)
  | _ => exact Or.inl rfl

/-- A poll that makes a timer entry or a registration can be completed. -/
lemma completable_of_enlists (ht : Transition s (.advance p) t) (h : enlists s p = true) :
    Completable t p := by
  cases ht with
  | addTimer hc => exact .timed List.mem_cons_self
  | @watch _ f hc hf | @watchCancel _ f hc hf =>
    have hnone : s.interest f = none := by simpa [enlists, hc, hf, vacant] using h
    exact .registered (InterestList.add_self hnone)
  | noToken hc hf => simp [enlists, hc, hf, vacant] at h
  | suspend hc => simp [enlists, hc] at h

end Pc

/-- Whoever is past its registrations has been enlisted, and whoever has been enlisted can be
completed. -/
structure Enlisted (s : State π φ) : Prop where
  tended : Tended s.polls
  begun : ∀ p, s.enlisted p = true → s.polls.pc p ≠ .idle
  completable : ∀ p, s.enlisted p = true → s.polls.pc p ≠ .resumed → Completable s.polls p
  suspended : ∀ p, s.polls.pc p = .suspend ∨ s.polls.pc p = .suspended → s.enlisted p = true

namespace Enlisted

variable [DecidableEq π] [DecidableEq φ] {s : State π φ} {t : Poll.State π φ}

/-- A step in which only the registered descriptors are refused. -/
lemma move (h : Enlisted s) {a : Poll.Action π φ} (ht : Transition s.polls a t)
    (hG : Careful s (.move a)) {enlisted : π → Bool}
    (henl : ∀ p, enlisted p = true ↔
      s.enlisted p = true ∨ (a = .advance p ∧ enlists s.polls p = true)) :
    Enlisted ⟨t, enlisted⟩ := by
  refine ⟨h.tended.transition ht, fun p hp hidle => ?_, fun p hp hres => ?_, fun p hp => ?_⟩
  · -- nobody goes back to the beginning
    have hold : s.polls.pc p = .idle := by
      rcases pc_of_transition ht p with heq | ⟨hnext, -⟩ | ⟨-, hres⟩
      · exact heq ▸ hidle
      · exact (hnext.spec.2.2.1 hidle).elim
      · exact absurd (hres.symm.trans hidle) (by simp)
    rcases (henl p).mp hp with hp | ⟨rfl, hp⟩
    · exact h.begun p hp hold
    · simp [enlists, hold] at hp
  · rcases (henl p).mp hp with hp | ⟨rfl, hp⟩
    · have hnot : s.polls.pc p ≠ .resumed := by
        intro hold
        rcases pc_of_transition ht p with heq | ⟨hnext, -⟩ | ⟨-, hres'⟩
        · exact hres (heq.trans hold)
        · exact hnext.spec.2.1 hold
        · exact hres hres'
      refine ((h.completable p hp hnot).transition ht h.tended hnot ?_).resolve_right hres
      rintro due rfl
      exact hG
    · exact completable_of_enlists ht hp
  · refine (henl p).mpr ?_
    rcases pc_of_transition ht p with heq | ⟨hnext, ha⟩ | ⟨-, hres⟩
    · exact Or.inl (h.suspended p (heq ▸ hp))
    · rcases hp with hp | hp
      · -- a poll is through with its registrations, or a yield has its timer entry
        have hfrom := hnext.spec.2.2.2.1 hp
        obtain rfl : a = .advance p := ha.resolve_right fun hidle => by simp [hidle] at hfrom
        rcases hfrom with hfrom | hfrom
        · exact Or.inr ⟨rfl, by simp [enlists, hfrom]⟩
        · exact (hG hfrom).imp_right fun hen => ⟨rfl, hen⟩
      · exact Or.inl (h.suspended p (Or.inl (hnext.spec.2.2.2.2 hp)))
    · simp [hres] at hp

omit [DecidableEq φ] in
/-- A registration is refused. -/
lemma refuse (h : Enlisted s) {p : π} {c : Pc} (hnext : Next (s.polls.pc p) c)
    (henl : c = .suspend ∨ c = .suspended → s.enlisted p = true) :
    Enlisted { s with polls := s.polls.goto p c } := by
  obtain ⟨-, hres, hidle, -, -⟩ := hnext.spec
  refine ⟨h.tended.goto c s.polls.interest hres, fun q hq => ?_, fun q hq hres' => ?_,
    fun q hq => ?_⟩
  · rcases eq_or_ne q p with rfl | hqp
    · simpa using hidle
    · simpa [hqp] using h.begun q hq
  · have hnot : s.polls.pc q ≠ .resumed := by
      rcases eq_or_ne q p with rfl | hqp
      · exact hres
      · simpa [hqp] using hres'
    exact (h.completable q hq hnot).mono (fun _ _ hr _ => hr) id rfl rfl rfl
  · rcases eq_or_ne q p with rfl | hqp
    · exact henl (by simpa using hq)
    · exact h.suspended q (by simpa [hqp] using hq)

/-- Every step that meets the guard. -/
lemma step (h : Enlisted s) {a : Action π φ} {s' : State π φ} (hG : Careful s a)
    (hstep : step s a = some s') : Enlisted s' := by
  cases a with
  | move a =>
    obtain ⟨t, ht, rfl⟩ := Option.map_eq_some_iff.mp hstep
    refine h.move (Poll.step_transition ht) hG fun p => ?_
    cases a with
    | advance q =>
      rcases eq_or_ne p q with rfl | hpq
      · simp
      · simp [hpq, Ne.symm hpq]
    | _ => simp
  | refuse p =>
    simp only [PollRefusal.step] at hstep
    split at hstep <;> rename_i hc
    · cases hstep
      exact h.refuse (by simpa [hc] using Next.watchCancel) (by simp)
    · split_ifs at hstep
      cases hstep
      exact h.refuse (by simpa [hc] using Next.suspend) fun _ => hG hc
    · simp at hstep

end Enlisted

variable [DecidableEq π] [DecidableEq φ]

/-- In every run whose steps meet the guard, whoever has been enlisted can be completed. -/
lemma enlisted_of_reachable {s : State π φ} (h : (machine π φ).ReachableUnder Careful s) :
    Enlisted s := by
  refine h.invariant ⟨⟨fun _ => rfl, nofun⟩, nofun, nofun, nofun⟩ ?_
  intro s a t _ hs hG hstep
  exact hs.step hG hstep

/-- **Every suspended poll can be completed.**  In every run in which each poll has a timer entry or
an accepted registration when it suspends, and in which the event loop unwatches no descriptor that
is registered for somebody else. -/
theorem poll_completable {s : State π φ} (h : (machine π φ).ReachableUnder Careful s) {p : π}
    (hp : s.polls.pc p = .suspended) : Completable s.polls p := by
  have henl := enlisted_of_reachable h
  exact henl.completable p (henl.suspended p (Or.inr hp)) (by simp [hp])

/-- A poll on the descriptor 5 without a timeout, and one on the descriptor 7, which is refused,
with a timeout. -/
def acceptedTrace : List (Action ℕ ℕ) :=
  [.move (.poll 0 5 false none), .move (.poll 1 7 true none)] ++
    [0, 0, 0, 1].map (fun p => .move (.advance p)) ++ [.refuse 1] ++
    [1, 1].map fun p => .move (.advance p)

/-- Both polls are suspended, the first one by its registration and the second one by its timer
entry. -/
theorem poll_completable_both : ∃ s,
    (machine ℕ ℕ).runUnder Careful (machine ℕ ℕ).start acceptedTrace = some s ∧
    s.polls.pc 0 = .suspended ∧ s.polls.pc 1 = .suspended ∧
    Completable s.polls 0 ∧ Completable s.polls 1 := by
  have hreach := @Machine.reachableUnder_of_run _ _ (machine ℕ ℕ) acceptedTrace Careful _
  exact ⟨_, rfl, rfl, rfl, poll_completable (hreach rfl) rfl, poll_completable (hreach rfl) rfl⟩

/-! ## Polls that are forgotten -/

section Forgotten

variable {s t : Poll.State π φ} {p : π}

omit [DecidableEq π] [DecidableEq φ] in
/-- A step of another coroutine, which adds at most a timer entry or a registration of its own. -/
lemma Completable.of_coroutine (h : Completable t p) (hp : s.pc p = .suspended) {c : Pc}
    (hq : s.pc q = c) (hc : c ≠ .suspended)
    (hinterest : ∀ f r, t.interest f = some r → s.interest f = some r ∨ r.data.poll = q)
    (htimed : p ∈ t.mTimedEvents → p = q ∨ p ∈ s.mTimedEvents) (hloop : t.loop = s.loop)
    (hrecent : t.mRecentEvents = s.mRecentEvents)
    (hqueued : t.mHandlesToResume = s.mHandlesToResume) : Completable s p := by
  have hpq : p ≠ q := by
    rintro rfl
    exact hc (hq.symm.trans hp)
  exact h.mono
    (fun f r hr hrp => (hinterest f r hr).resolve_right fun hrq => hpq (hrp.symm.trans hrq))
    (fun hmem => (htimed hmem).resolve_left hpq) hloop.symm hrecent.symm hqueued.symm

/-- Nothing but a step of its own coroutine makes a poll completable. -/
lemma Completable.of_transition {a : Poll.Action π φ} (ht : Transition s a t)
    (hp : s.pc p = .suspended) (h : Completable t p) : Completable s p := by
  cases ht with
  | poll hc | yieldFor hc | noToken hc | suspend hc =>
    exact h.of_coroutine hp hc nofun (fun _ _ hr => Or.inl hr) Or.inr rfl rfl rfl
  | addTimer hc =>
    exact h.of_coroutine hp hc nofun (fun _ _ hr => Or.inl hr) List.mem_cons.mp rfl rfl rfl
  | watch hc | watchCancel hc =>
    refine h.of_coroutine hp hc nofun (fun _ _ hr => ?_) Or.inr rfl rfl rfl
    exact (InterestList.of_add hr).imp_right fun hr => by rw [hr.2]
  | nextEvents hl _ _ =>
    refine h.transfer (fun _ _ hr ho _ => InterestList.of_foldl_disable_enabled hr ho)
      (fun ht => .timed ht) ?_ nofun fun hq => .queued hq
    rintro ⟨st, hmem⟩
    obtain ⟨r, -, hr⟩ := List.mem_filterMap.mp hmem
    obtain ⟨f, c, hf⟩ := Clean.exists_entry hr
    exact .registered hf
  | @collect due e rs hl =>
    refine h.transfer (fun _ _ hr _ _ => (InterestList.of_del hr).1) (fun ht => .timed ht) ?_
      (fun st hmem => ?_) fun hq => .queued hq
    · rintro ⟨st, hmem⟩
      exact .held (by rw [hl]; exact ⟨st, List.mem_cons_of_mem _ hmem⟩)
    · rcases List.mem_append.mp hmem with hmem | hmem
      · exact .recent hmem
      · obtain rfl : Event.poll p st = e := by simpa using hmem
        exact .held (by rw [hl]; exact ⟨st, List.mem_cons_self⟩)
  | collected | timeoutsDone =>
    exact h.loop rfl rfl nofun (fun _ he => .recent he) fun _ => id
  | resumeAll => exact h.transfer (fun _ _ hr _ _ => hr) (fun ht => .timed ht) nofun nofun nofun
  | timer hl he _ hdue =>
    refine h.transfer (fun _ _ hr _ _ => hr) (fun hmem => .timed (List.mem_filter.mp hmem).1)
      (fun hmem => .timed (hdue p hmem)) (fun st hmem => ?_) fun hq => .queued hq
    exact .recent (he ▸ List.mem_cons_of_mem _ hmem)
  | discardEvent hl he _ =>
    refine h.loop rfl rfl nofun (fun st hmem => ?_) fun _ => id
    exact .recent (he ▸ List.mem_cons_of_mem _ hmem)
  | @endByEvent due q st rest hl he _ =>
    refine h.transfer (fun _ _ hr _ _ => (InterestList.of_del hr).1) (fun hmem => .timed ?_)
      (fun hh => ?_) (fun st' hmem => ?_) fun hq => .queued hq
    · simp only at hmem
      split_ifs at hmem
      · exact List.mem_of_mem_erase hmem
      · exact hmem
    · obtain rfl : q = p := hh
      exact .recent (he ▸ List.mem_cons_self)
    · exact .recent (he ▸ List.mem_cons_of_mem _ hmem)
  | discardTimeout hl _ =>
    refine h.loop rfl rfl (fun hmem => ?_) (fun _ he => .recent he) fun _ => id
    exact .held (by rw [hl]; exact List.mem_cons_of_mem _ hmem)
  | @endByTimeout due rest q hl _ =>
    refine h.transfer (fun _ _ hr _ _ => (InterestList.of_del hr).1) (fun ht => .timed ht)
      (fun hh => .held ?_) (fun _ he => .recent he) fun hq => .queued hq
    rw [hl]
    rcases hh with rfl | hmem
    · exact List.mem_cons_self
    · exact List.mem_cons_of_mem _ hmem
  | @queueEvent due q hl _ =>
    refine h.transfer (fun _ _ hr _ _ => hr) (fun ht => .timed ht) nofun
      (fun _ he => .recent he) fun hmem => ?_
    rcases List.mem_append.mp hmem with hmem | hmem
    · exact .queued hmem
    · obtain rfl : p = q := by simpa using hmem
      exact .held (by rw [hl]; rfl)
  | @queueTimeout due rest q hl _ =>
    refine h.transfer (fun _ _ hr _ _ => hr) (fun ht => .timed ht) (fun hmem => ?_)
      (fun _ he => .recent he) fun hmem => ?_
    · exact .held (by rw [hl]; exact Or.inr hmem)
    · rcases List.mem_append.mp hmem with hmem | hmem
      · exact .queued hmem
      · obtain rfl : p = q := by simpa using hmem
        exact .held (by rw [hl]; exact Or.inl rfl)

omit [DecidableEq π] [DecidableEq φ] in
/-- A poll that has no registration and no timer entry while the loop is idle. -/
lemma not_completable (hinterest : ∀ f r, s.interest f = some r → r.data.poll ≠ p)
    (htimed : s.mTimedEvents = []) (hloop : s.loop = .idle) (hrecent : s.mRecentEvents = [])
    (hqueued : s.mHandlesToResume = []) : ¬ Completable s p := by
  intro h
  cases h with
  | registered hr => exact hinterest _ _ hr rfl
  | timed hmem => simp [htimed] at hmem
  | held hh => simp [hloop, Holds] at hh
  | recent he => simp [hrecent] at he
  | queued hmem => simp [hqueued] at hmem

/-- A suspended poll that cannot be completed stays suspended for ever. -/
lemma forgotten {s t : State π φ} (h : (machine π φ).Path (fun _ _ => True) s t)
    (hp : s.polls.pc p = .suspended) (hnot : ¬ Completable s.polls p) :
    t.polls.pc p = .suspended ∧ ¬ Completable t.polls p := by
  refine h.invariant (I := fun s => s.polls.pc p = .suspended ∧ ¬ Completable s.polls p)
    ⟨hp, hnot⟩ ?_
  rintro s a t ⟨hp, hnot⟩ - hstep
  cases a with
  | move a =>
    obtain ⟨t, ht, rfl⟩ := Option.map_eq_some_iff.mp hstep
    have ht := Poll.step_transition ht
    refine ⟨?_, fun hcomp => hnot (hcomp.of_transition ht hp)⟩
    rcases pc_of_transition ht p with heq | ⟨hnext, -⟩ | ⟨hmem, -⟩
    · exact heq.trans hp
    · exact (hnext.spec.1 hp).elim
    · exact (hnot (.queued hmem)).elim
  | refuse q =>
    -- the coroutine of `q` goes on, which is not that of `p`
    obtain ⟨c, hq, rfl⟩ : ∃ c, s.polls.pc q ≠ .suspended ∧
        t = { s with polls := s.polls.goto q c } := by
      simp only [machine, PollRefusal.step] at hstep
      split at hstep <;> rename_i hq
      · exact ⟨_, by simp [hq], (Option.some.inj hstep).symm⟩
      · split_ifs at hstep
        exact ⟨_, by simp [hq], (Option.some.inj hstep).symm⟩
      · simp at hstep
    have hpq : p ≠ q := by
      rintro rfl
      exact hq hp
    refine ⟨by simpa [hpq] using hp, fun hcomp => hnot ?_⟩
    exact hcomp.mono (fun _ _ hr _ => hr) id rfl rfl rfl

/-- A run after which a suspended poll cannot be completed. -/
lemma stays_of_run {s : State π φ} {l : List (Action π φ)}
    (hs : (machine π φ).run (machine π φ).start l = some s) (hp : s.polls.pc p = .suspended)
    (hnot : ¬ Completable s.polls p) :
    ∃ s, (machine π φ).run (machine π φ).start l = some s ∧ s.polls.pc p = .suspended ∧
      ¬ Completable s.polls p ∧
      ∀ t, (machine π φ).Path (fun _ _ => True) s t → t.polls.pc p = .suspended :=
  ⟨s, hs, hp, hnot, fun _ ht => (forgotten ht hp hnot).1⟩

end Forgotten

/-- The only registration of a poll without a timeout is refused. -/
def refusedTrace : List (Action ℕ ℕ) :=
  [.move (.poll 0 5 false none), .refuse 0, .move (.advance 0), .move (.advance 0)]

/-- Two polls on one descriptor: the second one is not registered. -/
def sharedTrace : List (Action ℕ ℕ) :=
  [.move (.poll 0 5 false none), .move (.poll 1 5 false none)] ++
    [0, 0, 0, 1, 1, 1].map fun p => .move (.advance p)

/-- A poll without a timeout whose registration is refused, by the system or because another poll
has registered the descriptor, is suspended with neither a registration nor a timer entry of its
own, and it stays suspended whatever happens afterwards. -/
theorem refused_poll_stays :
    (∃ s, (machine ℕ ℕ).run (machine ℕ ℕ).start refusedTrace = some s ∧
      s.polls.pc 0 = .suspended ∧ ¬ Completable s.polls 0 ∧
      ∀ t, (machine ℕ ℕ).Path (fun _ _ => True) s t → t.polls.pc 0 = .suspended) ∧
    (∃ s, (machine ℕ ℕ).run (machine ℕ ℕ).start sharedTrace = some s ∧
      s.polls.pc 1 = .suspended ∧ ¬ Completable s.polls 1 ∧
      ∀ t, (machine ℕ ℕ).Path (fun _ _ => True) s t → t.polls.pc 1 = .suspended) := by
  refine ⟨stays_of_run rfl rfl (not_completable nofun rfl rfl rfl rfl),
    stays_of_run rfl rfl (not_completable (fun f r hr => ?_) rfl rfl rfl rfl)⟩
  -- the descriptor is registered for the first poll
  have hr : (InterestList.empty.add 5 (⟨0, false⟩ : UserData ℕ)).add 5 ⟨1, false⟩ f = some r := hr
  obtain ⟨-, rfl⟩ : f = 5 ∧ ⟨⟨0, false⟩, true⟩ = r := by
    simpa [InterestList.add, InterestList.empty] using hr
  simp

end Libcoro.Scheduler.PollRefusal
