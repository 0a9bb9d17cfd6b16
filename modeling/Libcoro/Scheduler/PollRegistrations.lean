import Libcoro.Scheduler.Poll

/-!
# Registrations that outlive a poll

When the event loop queues the handle of a poll, the polling coroutine is about to destroy its
`poll_info`, so no entry of epoll may refer to it any longer.  Three ways to end a poll break
this (`poll_stale`): a timeout never unwatches the stop token, neither does a cancellation, and a
timeout that fires before the coroutine has called `watch` unwatches what is added only later.
Polls that end by an event on their own descriptor leave nothing behind (`poll_clean`).
-/

namespace Libcoro.Scheduler.Poll

open Foundations Function

/-- The coroutine has begun `watch(pi)`, or had nothing to watch. -/
@[simp] def Pc.BegunWatch : Pc → Prop
  | .watchCancel | .suspend | .suspended | .resumed => True
  | .idle | .addTimer | .watch => False

/-- The coroutine has passed `watch(pi)`. -/
@[simp] def Pc.PassedWatch : Pc → Prop
  | .suspend | .suspended | .resumed => True
  | .idle | .addTimer | .watch | .watchCancel => False

instance (c : Pc) : Decidable c.BegunWatch := by
  unfold Pc.BegunWatch
  split <;> infer_instance

instance (c : Pc) : Decidable c.PassedWatch := by
  unfold Pc.PassedWatch
  split <;> infer_instance

/-- The loop has ended the poll `p` and waits for its coroutine to suspend. -/
@[simp] def LoopPc.Awaits {π : Type*} (p : π) : LoopPc π → Prop
  | .awaitEvent q => q = p
  | .awaitTimeout q _ => q = p
  | _ => False

variable {π φ : Type*}

/-- Some entry of epoll has the user data `d`. -/
def State.Listed (s : State π φ) (d : UserData π) : Prop :=
  ∃ f r, s.interest f = some r ∧ r.data = d

/-- All that the poll watches has been added. -/
def State.Watched (s : State π φ) (p : π) : Prop :=
  (s.pc p).BegunWatch ∧ ((s.pc p).PassedWatch ∨ (s.info p).mCancelTrigger = none)

/-- A step that takes no coroutine back and keeps the descriptors. -/
lemma State.Watched.mono {s s' : State π φ} {p : π} (h : s.Watched p)
    (hbegun : (s.pc p).BegunWatch → (s'.pc p).BegunWatch)
    (hpassed : (s.pc p).PassedWatch → (s'.pc p).PassedWatch)
    (hkey : (s'.info p).key = (s.info p).key) : s'.Watched p := by
  have htoken := congrFun hkey true
  simp only [PollInfo.key, if_true] at htoken
  exact ⟨hbegun h.1, h.2.imp hpassed htoken.trans⟩

/-- The poll that an event is about. -/
def Event.poll? : Event π → Option π
  | .timer => none
  | .poll p _ => some p

/-- The poll that the next step of the event loop takes up for its timeout or for an event of its
stop token. -/
def State.takenUp (s : State π φ) : Option π :=
  match s.loop, s.mRecentEvents with
  | .processing, .poll p .cancelled :: _ => some p
  | .timeouts (p :: _), _ => some p
  | _, _ => none

/-- Epoll reports a descriptor of a poll with a stop token only when it has passed `watch(pi)`, and
a poll that is ended by its timeout or by a cancellation has no stop token and has added its
descriptor. -/
def EndsOnItsFd (s : State π φ) : Action π φ → Prop
  | .nextEvents ready => ∀ r ∈ ready, ∀ e ∈ s.event r, ∀ p ∈ e.poll?,
      (s.pc p).PassedWatch ∨ (s.info p).mCancelTrigger = none
  | .loop _ => ∀ p ∈ s.takenUp, (s.info p).mProcessed = true ∨
      ((s.pc p).BegunWatch ∧ (s.info p).mCancelTrigger = none)
  | _ => True

instance (s : State π φ) (a : Action π φ) : Decidable (EndsOnItsFd s a) := by
  unfold EndsOnItsFd
  split <;> infer_instance

/-- The entries of epoll agree with the polls that they refer to. -/
structure Clean (s : State π φ) : Prop where
  -- an entry belongs to a poll that has begun to watch, and has one of its descriptors as key
  keyed : ∀ f r, s.interest f = some r → (s.pc r.data.poll).BegunWatch ∧
    (s.info r.data.poll).key r.data.isCancelEvent = some f
  -- what `next_events` is about to collect comes from polls that have added what they watch
  reported : ∀ es p st, s.loop = .collect es → .poll p st ∈ es → s.Watched p
  -- an event on the descriptor of a poll has unwatched its stop token
  recent : ∀ p st, .poll p st ∈ s.mRecentEvents → st ≠ .cancelled →
    s.Watched p ∧ ¬ s.Listed ⟨p, true⟩
  processed : ∀ p, (s.info p).mProcessed = true → s.Watched p ∧ ∀ c, ¬ s.Listed ⟨p, c⟩
  awaited : ∀ p, s.loop.Awaits p → (s.info p).mProcessed = true
  queued : ∀ p, s.queued p = true → (s.info p).mProcessed = true

lemma clean_start : Clean (start : State π φ) where
  keyed := by simp [start, InterestList.empty]
  reported := by simp [start]
  recent := by simp [start]
  processed := by simp [start]
  awaited := by simp [start]
  queued := by simp [start]

namespace Clean

variable {s s' : State π φ}

/-- A step that adds no entry, takes no coroutine back, ends no poll and collects no event. -/
lemma keep (h : Clean s)
    (hinterest : ∀ f r, s'.interest f = some r → ∃ r', s.interest f = some r' ∧ r'.data = r.data)
    (hbegun : ∀ p, (s.pc p).BegunWatch → (s'.pc p).BegunWatch)
    (hpassed : ∀ p, (s.pc p).PassedWatch → (s'.pc p).PassedWatch)
    (hkey : ∀ p, (s.pc p).BegunWatch → (s'.info p).key = (s.info p).key)
    (hprocessed : ∀ p, (s'.info p).mProcessed = (s.info p).mProcessed)
    (hreported : ∀ es p st, s'.loop = .collect es → .poll p st ∈ es → s.Watched p)
    (hrecent : ∀ e ∈ s'.mRecentEvents, e ∈ s.mRecentEvents)
    (hawaited : ∀ p, s'.loop.Awaits p → s.loop.Awaits p)
    (hqueued : ∀ p, s'.queued p = true → (s.info p).mProcessed = true) : Clean s' := by
  have hlisted : ∀ d, s'.Listed d → s.Listed d := by
    rintro d ⟨f, r, hr, rfl⟩
    obtain ⟨r', hr', hd⟩ := hinterest f r hr
    exact ⟨f, r', hr', hd⟩
  have hwatched : ∀ p, s.Watched p → s'.Watched p := fun p hp =>
    hp.mono (hbegun p) (hpassed p) (hkey p hp.1)
  refine ⟨fun f r hr => ?_, fun es p st hl he => hwatched p (hreported es p st hl he),
    fun p st he hst => ?_, fun p hp => ?_, fun p hp => ?_,
    fun p hp => ?_⟩
  · obtain ⟨r', hr', hd⟩ := hinterest f r hr
    obtain ⟨hb, hk⟩ := h.keyed f r' hr'
    rw [hd] at hb hk
    exact ⟨hbegun _ hb, by rw [hkey _ hb]; exact hk⟩
  · obtain ⟨hp, hl⟩ := h.recent p st (hrecent _ he) hst
    exact ⟨hwatched p hp, fun hl' => hl (hlisted _ hl')⟩
  · rw [hprocessed] at hp
    obtain ⟨hp, hl⟩ := h.processed p hp
    exact ⟨hwatched p hp, fun c hl' => hl c (hlisted _ hl')⟩
  · rw [hprocessed]
    exact h.awaited p (hawaited p hp)
  · rw [hprocessed]
    exact hqueued p hp

variable {p : π}

/-- A poll without a stop token has no entry for one. -/
lemma not_listed_of_no_token (h : Clean s) (hp : (s.info p).mCancelTrigger = none) :
    ¬ s.Listed ⟨p, true⟩ := by
  rintro ⟨f, r, hr, hd⟩
  have hk := (h.keyed f r hr).2
  rw [hd] at hk
  simp [PollInfo.key, hp] at hk

/-- A poll that the guard lets the event loop end has added what it watches and has no entry for its
stop token, whether it ends by an event or otherwise. -/
lemma endable (h : Clean s) {due : List π} (hG : EndsOnItsFd s (.loop due))
    (hp : (s.info p).mProcessed = false)
    (htaken : s.takenUp = some p ∨
      ∃ st, st ≠ PollStatus.cancelled ∧ Event.poll p st ∈ s.mRecentEvents) :
    s.Watched p ∧ ¬ s.Listed ⟨p, true⟩ := by
  rcases htaken with htaken | ⟨st, hst, he⟩
  · rcases hG p htaken with hproc | ⟨hbegun, htoken⟩
    · simp [hp] at hproc
    · exact ⟨⟨hbegun, Or.inr htoken⟩, h.not_listed_of_no_token htoken⟩
  · exact h.recent p st he hst

variable {l : LoopPc π}

/-- The event loop goes on without touching epoll or a poll. -/
lemma loop (h : Clean s) (ts : List π) {es : List (Event π)}
    (hes : ∀ e ∈ es, e ∈ s.mRecentEvents) (hl : ∀ rs, l ≠ .collect rs) (hw : ∀ p, ¬ l.Awaits p) :
    Clean { s with mTimedEvents := ts, mRecentEvents := es, loop := l } :=
  h.keep (fun _ r hr => ⟨r, hr, rfl⟩) (fun _ hq => hq) (fun _ hq => hq) (fun _ _ => rfl)
    (fun _ => rfl) (fun rs _ _ hc => (hl rs hc).elim) hes (fun p hp => (hw p hp).elim)
    (fun p hp => h.queued p hp)

section Epoll

/-- An event that epoll reports comes from an enabled entry of its poll. -/
lemma exists_entry {r : Ready φ} {st : PollStatus} (hr : s.event r = some (.poll p st)) :
    ∃ f c, s.interest f = some ⟨⟨p, c⟩, true⟩ := by
  cases r with
  | timer => cases hr
  | fd f events =>
    simp only [State.event, Option.bind_eq_some_iff] at hr
    obtain ⟨⟨⟨q, c⟩, enabled⟩, he, hr⟩ := hr
    refine ⟨f, c, ?_⟩
    split_ifs at hr with henabled
    · cases hr
      exact henabled ▸ he
    · obtain ⟨st, -, ⟨⟩⟩ := Option.map_eq_some_iff.mp hr
      exact henabled ▸ he

/-- An event that epoll reports comes from a poll that has begun to watch. -/
lemma begun_of_event (h : Clean s) {r : Ready φ} {st : PollStatus}
    (hr : s.event r = some (.poll p st)) : (s.pc p).BegunWatch := by
  obtain ⟨f, c, he⟩ := exists_entry hr
  exact (h.keyed f _ he).1

variable [DecidableEq φ]

/-- Epoll reports events of polls that have added what they watch, and disables their entries. -/
lemma nextEvents (h : Clean s) {ready : List (Ready φ)}
    (hready : ∀ r ∈ ready, ∀ e ∈ s.event r, ∀ p ∈ e.poll?,
      (s.pc p).PassedWatch ∨ (s.info p).mCancelTrigger = none) :
    Clean { s with
      mRecentEvents := []
      interest := (reportedFds ready).foldl InterestList.disable s.interest
      loop := .collect (ready.filterMap s.event) } := by
  refine h.keep (fun f r hr => InterestList.of_foldl_disable hr) (fun _ hq => hq) (fun _ hq => hq)
    (fun _ _ => rfl) (fun _ => rfl) (fun es p st hl he => ?_) (by simp) (by simp)
    (fun p hp => h.queued p hp)
  obtain rfl : ready.filterMap s.event = es := by simpa using hl
  obtain ⟨r, hr, hev⟩ := List.mem_filterMap.mp he
  exact ⟨h.begun_of_event hev, hready r hr _ hev p rfl⟩

/-- `next_events` collects an event.  An event on the descriptor of a poll unwatches its stop
token. -/
lemma collect (h : Clean s) {e : Event π} {rs : List (Event π)} (hl : s.loop = .collect (e :: rs)) :
    Clean { s with
      mRecentEvents := s.mRecentEvents ++ [e]
      interest := s.interest.del (s.unwatchedBy e)
      loop := .collect rs } := by
  have hlisted : ∀ d, State.Listed { s with
      mRecentEvents := s.mRecentEvents ++ [e]
      interest := s.interest.del (s.unwatchedBy e)
      loop := .collect rs } d →
      s.Listed d ∧ s.unwatchedBy e ≠ (s.info d.poll).key d.isCancelEvent := by
    rintro d ⟨f, r, hr, rfl⟩
    obtain ⟨hold, hf⟩ := InterestList.of_del hr
    exact ⟨⟨f, r, hold, rfl⟩, by rwa [(h.keyed f r hold).2]⟩
  refine ⟨fun f r hr => h.keyed f r (InterestList.of_del hr).1, fun es p st hes he => ?_,
    fun p st he hst => ?_, fun p hp => ?_, by simp, h.queued⟩
  · obtain rfl : rs = es := by simpa using hes
    exact h.reported _ p st hl (List.mem_cons_of_mem _ he)
  · rcases List.mem_append.mp he with hold | hnew
    · obtain ⟨hp, hnot⟩ := h.recent p st hold hst
      exact ⟨hp, fun hl' => hnot (hlisted _ hl').1⟩
    · obtain rfl : Event.poll p st = e := by simpa using hnew
      refine ⟨h.reported _ p st hl List.mem_cons_self, fun hl' => (hlisted _ hl').2 ?_⟩
      cases st <;> simp_all [State.unwatchedBy, PollInfo.key]
  · obtain ⟨hp, hnot⟩ := h.processed p hp
    exact ⟨hp, fun c hl' => hnot c (hlisted _ hl').1⟩

end Epoll

variable [DecidableEq π]

variable {c : Pc}

/-- The coroutine of `p` begins a poll or a yield. -/
lemma call (h : Clean s) {pi : PollInfo φ} (hp : s.pc p = .idle)
    (hpi : pi.mProcessed = false) : Clean ((s.setInfo p pi).goto p c) := by
  have hnot : (s.info p).mProcessed = false := by
    by_contra hproc
    have := (h.processed p (by simpa using hproc)).1.1
    simp [hp] at this
  have hother : ∀ q, (s.pc q).BegunWatch → q ≠ p := by
    rintro q hq rfl
    simp [hp] at hq
  refine h.keep (fun f r hr => ⟨r, hr, rfl⟩) (fun q hq => ?_) (fun q hq => ?_) (fun q hq => ?_)
    (fun q => ?_) h.reported (fun e he => he) (fun q hq => hq) (fun q hq => h.queued q hq)
  · simpa [hother q hq] using hq
  · have hqp : q ≠ p := by
      rintro rfl
      simp [hp] at hq
    simpa [hqp] using hq
  · simp [hother q hq]
  · by_cases hqp : q = p
    · subst hqp
      simp [hpi, hnot]
    · simp [hqp]

/-- The coroutine of `p` goes on without touching epoll, having passed `watch(pi)` if it had. -/
lemma advance (h : Clean s) (pi : PollInfo φ) (ts : List π)
    (hbegun : (s.pc p).BegunWatch → c.BegunWatch) (hpassed : (s.pc p).PassedWatch → c.PassedWatch)
    (hkey : pi.key = (s.info p).key) (hprocessed : pi.mProcessed = (s.info p).mProcessed) :
    Clean { (s.setInfo p pi).goto p c with mTimedEvents := ts } := by
  have hpass : ∀ q, (s.pc q).PassedWatch → (update s.pc p c q).PassedWatch := by
    intro q hq
    by_cases hqp : q = p
    · subst hqp
      simpa using hpassed hq
    · simpa [hqp] using hq
  refine h.keep (fun f r hr => ⟨r, hr, rfl⟩) (fun q hq => ?_) hpass (fun q _ => ?_)
    (fun q => ?_) h.reported (fun e he => he) (fun q hq => hq) (fun q hq => h.queued q hq)
  · by_cases hqp : q = p
    · subst hqp
      simpa using hbegun hq
    · simpa [hqp] using hq
  · by_cases hqp : q = p
    · subst hqp
      simpa using hkey
    · simp [hqp]
  · by_cases hqp : q = p
    · subst hqp
      simpa using hprocessed
    · simp [hqp]

/-- The handle of a poll that the loop has ended is queued. -/
lemma enqueue (h : Clean s) (st : PollStatus) (hp : s.loop.Awaits p)
    (hl : ∀ rs, l ≠ .collect rs) (hw : ∀ q, ¬ l.Awaits q) :
    Clean { (s.enqueue p).setInfo p { s.info p with mPollStatus := st } with loop := l } := by
  refine h.keep (fun f r hr => ⟨r, hr, rfl⟩) (fun _ hq => hq) (fun _ hq => hq) (fun q _ => ?_)
    (fun q => ?_) (fun rs _ _ hc => (hl rs hc).elim) (fun e he => he)
    (fun q hq => (hw q hq).elim) (fun q hq => ?_)
  · by_cases hqp : q = p
    · subst hqp
      funext c
      simp [PollInfo.key]
    · simp [hqp]
  · by_cases hqp : q = p
    · subst hqp
      simp
    · simp [hqp]
  · by_cases hqp : q = p
    · subst hqp
      exact h.awaited q hp
    · exact h.queued q (by simpa [hqp] using hq)

/-- The queued handles are resumed. -/
lemma resumeAll (h : Clean s) :
    Clean { s with
      pc := fun p => if p ∈ s.mHandlesToResume then .resumed else s.pc p
      mRecentEvents := []
      mHandlesToResume := []
      loop := .idle } := by
  refine h.keep (fun f r hr => ⟨r, hr, rfl⟩) (fun q hq => ?_) (fun q hq => ?_) (fun _ _ => rfl)
    (fun _ => rfl) (by simp) (by simp) (by simp)
    (fun p hp => h.queued p hp)
  · by_cases hmem : q ∈ s.mHandlesToResume
    · simp [hmem]
    · simpa [hmem] using hq
  · by_cases hmem : q ∈ s.mHandlesToResume
    · simp [hmem]
    · simpa [hmem] using hq

variable [DecidableEq φ]

/-- The coroutine of `p` adds an entry. -/
lemma add (h : Clean s) {f : φ} {isCancel : Bool} (hp : ¬ s.Watched p)
    (hc : c.BegunWatch) (hkey : (s.info p).key isCancel = some f) :
    Clean { s.goto p c with interest := s.interest.add f ⟨p, isCancel⟩ } := by
  have hpass : ∀ q, s.Watched q → q ≠ p ∧ State.Watched
      { s.goto p c with interest := s.interest.add f ⟨p, isCancel⟩ } q := by
    intro q hq
    have hqp : q ≠ p := by
      rintro rfl
      exact hp hq
    exact ⟨hqp, by simpa [State.Watched, hqp] using hq⟩
  have hlisted : ∀ q b, q ≠ p → ¬ s.Listed ⟨q, b⟩ →
      ¬ State.Listed { s.goto p c with interest := s.interest.add f ⟨p, isCancel⟩ } ⟨q, b⟩ := by
    rintro q b hqp hnot ⟨g, r, hr, hd⟩
    rcases InterestList.of_add hr with hold | ⟨-, hnew⟩
    · exact hnot ⟨g, r, hold, hd⟩
    · rw [hd] at hnew
      exact hqp (congrArg UserData.poll hnew)
  refine ⟨fun g r hr => ?_, fun es q st hl he => (hpass q (h.reported es q st hl he)).2,
    fun q st he hst => ?_, fun q hq => ?_, h.awaited, h.queued⟩
  · rcases InterestList.of_add hr with hold | ⟨rfl, hd⟩
    · obtain ⟨hb, hk⟩ := h.keyed g r hold
      refine ⟨?_, hk⟩
      by_cases hrp : r.data.poll = p
      · simpa [hrp] using hc
      · simpa [hrp] using hb
    · rw [hd]
      exact ⟨by simpa using hc, hkey⟩
  · obtain ⟨hq, hl⟩ := h.recent q st he hst
    exact ⟨(hpass q hq).2, hlisted q true (hpass q hq).1 hl⟩
  · obtain ⟨hq, hl⟩ := h.processed q hq
    exact ⟨(hpass q hq).2, fun b => hlisted q b (hpass q hq).1 (hl b)⟩

/-- An event or a timeout ends the poll `p`, whose stop token has no entry. -/
lemma finish (h : Clean s) {st : PollStatus} (ts : List π) {es : List (Event π)}
    (hp : s.Watched p) (hcancel : ¬ s.Listed ⟨p, true⟩)
    (hes : ∀ e ∈ es, e ∈ s.mRecentEvents) (hl : ∀ rs, l ≠ .collect rs)
    (hw : ∀ q, l.Awaits q → q = p) :
    Clean { s.finish p st with mTimedEvents := ts, mRecentEvents := es, loop := l } := by
  have hlisted : ∀ d, State.Listed { s.finish p st with
      mTimedEvents := ts, mRecentEvents := es, loop := l } d → s.Listed d ∧ d ≠ ⟨p, false⟩ := by
    rintro d ⟨f, r, hr, rfl⟩
    obtain ⟨hold, hf⟩ := InterestList.of_del hr
    refine ⟨⟨f, r, hold, rfl⟩, fun hd => hf ?_⟩
    -- the entry of the descriptor itself has been deleted
    have hk := (h.keyed f r hold).2
    rw [hd] at hk
    simpa [PollInfo.key] using hk
  have hkey : ∀ q, (update s.info p
      { s.info p with mProcessed := true, mPollStatus := st } q).key = (s.info q).key := by
    intro q
    by_cases hqp : q = p
    · subst hqp
      funext b
      simp [PollInfo.key]
    · simp [hqp]
  have hwatched : ∀ q, s.Watched q → State.Watched { s.finish p st with
      mTimedEvents := ts, mRecentEvents := es, loop := l } q := fun q hq =>
    hq.mono id id (hkey q)
  have hprocessed : ∀ q, (s.info q).mProcessed = true → (update s.info p
      { s.info p with mProcessed := true, mPollStatus := st } q).mProcessed = true := by
    intro q hq
    by_cases hqp : q = p
    · subst hqp
      simp
    · simpa [hqp] using hq
  refine ⟨fun f r hr => ?_, fun rs _ _ hc => (hl rs hc).elim, fun q st' he hst => ?_,
    fun q hq => ?_, fun q hq => ?_, fun q hq => hprocessed q (h.queued q hq)⟩
  · obtain ⟨hb, hk⟩ := h.keyed f r (InterestList.of_del hr).1
    refine ⟨hb, ?_⟩
    change (update s.info p _ r.data.poll).key _ = _
    rw [hkey]
    exact hk
  · obtain ⟨hq, hnot⟩ := h.recent q st' (hes _ he) hst
    exact ⟨hwatched q hq, fun hl' => hnot (hlisted _ hl').1⟩
  · by_cases hqp : q = p
    · subst hqp
      refine ⟨hwatched q hp, fun b hb => ?_⟩
      obtain ⟨hold, hne⟩ := hlisted _ hb
      cases b with
      | false => exact hne rfl
      | true => exact hcancel hold
    · obtain ⟨hq', hnot⟩ := h.processed q (by simpa [State.finish, hqp] using hq)
      exact ⟨hwatched q hq', fun b hb => hnot b (hlisted _ hb).1⟩
  · obtain rfl := hw q hq
    simp [State.finish]

/-- Every step that meets the guard keeps the entries in order. -/
lemma transition (h : Clean s) {a : Action π φ} (hG : EndsOnItsFd s a)
    (ht : Transition s a s') : Clean s' := by
  cases ht with
  | poll hc | yieldFor hc => exact h.call hc rfl
  | addTimer hc =>
    exact h.advance _ _ (by simp [hc]) (by simp [hc]) rfl rfl
  | watch hc hf | watchCancel hc hf =>
    exact h.add (by simp [State.Watched, hc, hf]) trivial (by simpa [PollInfo.key] using hf)
  | noToken hc hf =>
    simpa using h.advance (s.info _) (c := .suspend)
      s.mTimedEvents (fun _ => trivial) (fun _ => trivial) rfl rfl
  | suspend hc => exact h.advance _ s.mTimedEvents (fun _ => trivial) (fun _ => trivial) rfl rfl
  | nextEvents hl hnd hsome => exact h.nextEvents hG
  | collect hl => exact h.collect hl
  | collected hl | timeoutsDone hl
  | discardTimeout hl hp => exact h.loop _ (fun _ he => he) (by simp) (by simp)
  | resumeAll hl he => exact h.resumeAll
  | timer hl he hnd hsub | discardEvent hl he hp =>
    exact h.loop _ (fun e hmem => he ▸ List.mem_cons_of_mem _ hmem) (by simp)
      (by simp)
  | @endByEvent due p st rest hl he hp =>
    have htaken : s.takenUp = some p ∨
        ∃ st, st ≠ PollStatus.cancelled ∧ Event.poll p st ∈ s.mRecentEvents := by
      by_cases hst : st = .cancelled
      · subst hst
        exact Or.inl (by simp [State.takenUp, hl, he])
      · exact Or.inr ⟨st, hst, he ▸ List.mem_cons_self⟩
    obtain ⟨hpass, hnot⟩ := h.endable hG hp htaken
    exact h.finish _ hpass hnot (fun e hmem => he ▸ List.mem_cons_of_mem _ hmem) (by simp)
      (fun q hq => hq.symm)
  | @endByTimeout due rest p hl hp =>
    obtain ⟨hpass, hnot⟩ := h.endable hG hp (Or.inl (by simp [State.takenUp, hl]))
    exact h.finish s.mTimedEvents hpass hnot (fun _ he => he) (by simp) (fun q hq => hq.symm)
  | @queueEvent due p hl hs =>
    simpa using h.enqueue (p := p) (s.info p).mPollStatus
      (l := .processing) (by simp [hl]) (by simp) (by simp)
  | queueTimeout hl hs =>
    exact h.enqueue _ (by simp [hl]) (by simp) (by simp)

end Clean

variable [DecidableEq π] [DecidableEq φ]

lemma clean_of_reachable {s : State π φ} (h : (machine π φ).ReachableUnder EndsOnItsFd s) :
    Clean s :=
  h.invariant clean_start fun _ _ _ _ hs hG hstep => hs.transition hG (step_transition hstep)

/-- **No stale registration.**  In every run in which polls end by an event on their own
descriptor, or by a timeout after `watch(pi)` and without a stop token, epoll holds no entry of a
poll whose handle has been queued. -/
theorem poll_clean {s : State π φ} (h : (machine π φ).ReachableUnder EndsOnItsFd s) {p : π}
    (hp : s.queued p = true) (isCancelEvent : Bool) : ¬ s.Listed ⟨p, isCancelEvent⟩ := by
  have hclean := clean_of_reachable h
  exact (hclean.processed p (hclean.queued p hp)).2 isCancelEvent

/-- A poll with a stop token is ended by its own descriptor, and one without by its timeout. -/
def cleanTrace : List (Action (Fin 2) ℕ) :=
  [.poll 0 5 true (some 9), .poll 1 6 true none] ++
    [0, 0, 0, 0, 1, 1, 1, 1].map .advance ++
    [.nextEvents [.fd 5 { epollin := true }, .timer], .loop [], .loop [], .loop [], .loop [],
      .loop [], .loop [1], .loop [], .loop []]

lemma cleanTrace_queues : ∃ s,
    (machine (Fin 2) ℕ).runUnder EndsOnItsFd start cleanTrace = some s ∧
      s.queued 0 = true ∧ s.queued 1 = true :=
  ⟨_, rfl, rfl, rfl⟩

/-- Both polls are queued, and nothing is left of either. -/
theorem poll_clean_both : ∃ s, (machine (Fin 2) ℕ).runUnder EndsOnItsFd start cleanTrace = some s ∧
    s.queued 0 = true ∧ s.queued 1 = true ∧
    ∀ c, ¬ s.Listed ⟨0, c⟩ ∧ ¬ s.Listed ⟨1, c⟩ := by
  obtain ⟨s, hrun, h0, h1⟩ := cleanTrace_queues
  have hreach := Machine.reachableUnder_of_run hrun
  exact ⟨s, hrun, h0, h1, fun c => ⟨poll_clean hreach h0 c, poll_clean hreach h1 c⟩⟩

/-- The event loop takes up the timer and ends the poll `0`. -/
def timeoutSteps : List (Action (Fin 1) ℕ) :=
  [.nextEvents [.timer], .loop [], .loop [], .loop [0], .loop []]

/-- The coroutine is suspended when its timeout ends the poll. -/
def timeoutTrace : List (Action (Fin 1) ℕ) :=
  .poll 0 5 true (some 9) :: List.replicate 4 (.advance 0) ++ timeoutSteps ++ [.loop []]

/-- The coroutine is suspended when its stop token cancels the poll. -/
def cancelTrace : List (Action (Fin 1) ℕ) :=
  .poll 0 5 false (some 9) :: List.replicate 3 (.advance 0) ++
    .nextEvents [.fd 9 { epollin := true }] :: List.replicate 4 (.loop [])

/-- The timeout ends the poll before the coroutine has called `watch`. -/
def earlyTrace : List (Action (Fin 1) ℕ) :=
  .poll 0 5 true none :: .advance 0 :: timeoutSteps ++ List.replicate 3 (.advance 0) ++ [.loop []]

/-- In three ways the handle of a poll is queued while epoll still holds an entry of it: a timeout
and a cancellation leave the stop token, and a timeout before `watch` leaves the descriptor. -/
theorem poll_stale :
    (∃ s, (machine (Fin 1) ℕ).run start timeoutTrace = some s ∧ (machine (Fin 1) ℕ).Reachable s ∧
      s.queued 0 = true ∧ (s.pc 0).PassedWatch ∧ s.Listed ⟨0, true⟩) ∧
    (∃ s, (machine (Fin 1) ℕ).run start cancelTrace = some s ∧ (machine (Fin 1) ℕ).Reachable s ∧
      s.queued 0 = true ∧ (s.pc 0).PassedWatch ∧ s.Listed ⟨0, true⟩) ∧
    (∃ s, (machine (Fin 1) ℕ).run start earlyTrace = some s ∧ (machine (Fin 1) ℕ).Reachable s ∧
      s.queued 0 = true ∧ (s.pc 0).PassedWatch ∧ s.Listed ⟨0, false⟩) :=
  ⟨⟨_, rfl, Machine.reachable_of_run (l := timeoutTrace) rfl, rfl, trivial, 9, _, rfl, rfl⟩,
    ⟨_, rfl, Machine.reachable_of_run (l := cancelTrace) rfl, rfl, trivial, 9, _, rfl, rfl⟩,
    ⟨_, rfl, Machine.reachable_of_run (l := earlyTrace) rfl, rfl, trivial, 5, _, rfl, rfl⟩⟩

end Libcoro.Scheduler.Poll
