import Libcoro.Event.Delivery
import Libcoro.Latch.Model

/-!
# When a latch opens

The event of a latch is never reset, so it is set once and for all by the first `set` that
exchanges its state.  A `count_down` goes on with `set` only if the total has reached the count, and
the call whose `fetch_sub` makes the total reach it always does.  Up to that moment the counter has
not wrapped around, whatever the count; what it says afterwards decides only whether the event is
set once more.
-/

namespace Libcoro.Latch

open Foundations Function

/-- The calls of `set`, before and after they have exchanged the state of the event. -/
def Setting {ι : Type*} : Event.Pc ι → Prop
  | .setExchange _ _ => True
  | p => p.Delivering

/-- The calls of `co_await`, suspended or not. -/
def Awaiting {ι : Type*} : Event.Pc ι → Prop
  | .awaitReady => True
  | .suspendLoad => True
  | .suspendLink _ => True
  | .suspendExchange _ => True
  | .suspended => True
  | _ => False

variable {ι : Type*}

/-- A `set` that has exchanged the state of the event is a `set`. -/
lemma setting_of_delivering {p : Event.Pc ι} (h : p.Delivering) : Setting p := by
  cases p <;> first | exact h | exact h.elim

/-- The event of a latch, `reached` saying that the total has reached the count. -/
structure Opens (reached : Prop) (e : Event.State ι) : Prop where
  ready : e.mState = .this → reached
  setting : ∀ c, Setting (e.pc c) → reached
  closed : e.mState ≠ .this → ∀ c, ¬ (e.pc c).Delivering ∧ e.resumptions c = 0
  due : reached → e.mState = .this ∨ ∃ c r policy, e.pc c = .setExchange r policy
  neverReset : ∀ c, e.pc c ≠ .resetExchange
  once : ∀ c, e.insertions c ≤ 1

/-- A quiet move of a coroutine inside the event begins no `set` and no `reset`. -/
lemma quiet_setting {e : Event.State ι} {q p : Event.Pc ι} (h : Event.Quiet e q p)
    (hq : q ≠ .running) :
    (Setting p → Setting q) ∧ (p.Delivering → q.Delivering) ∧ p ≠ .resetExchange ∧
      ∀ r policy, q ≠ .setExchange r policy := by
  cases h with
  | call => exact (hq rfl).elim
  | _ => simp [Setting, Event.Pc.Delivering]

/-- As long as the event is not set, a quiet move of a coroutine leaves it awaiting. -/
lemma quiet_awaiting {e : Event.State ι} {q p : Event.Pc ι} (h : Event.Quiet e q p)
    (hq : q ≠ .running) (hne : e.mState ≠ .this) (hawaiting : Awaiting q) : Awaiting p := by
  cases h with
  | call => exact (hq rfl).elim
  | ready hthis | loadSet hthis | reloadSet hthis => exact (hne hthis).elim
  | notReady _ | load _ | reload _ => trivial
  | _ => exact hawaiting.elim

namespace Opens

variable [DecidableEq ι] {reached : Prop} {e e' : Event.State ι} {c : ι} {p : Event.Pc ι}

/-- A move of `c` that begins no `set`. -/
lemma goto (h : Opens reached e) (hset : Setting p → Setting (e.pc c))
    (hdel : p.Delivering → (e.pc c).Delivering) (hreset : p ≠ .resetExchange)
    (hex : ∀ r policy, e.pc c ≠ .setExchange r policy) : Opens reached (e.goto c p) := by
  refine ⟨h.ready, ?_, ?_, ?_, ?_, h.once⟩
  · exact (forall_update_iff e.pc fun _ q => Setting q → reached).mpr
      ⟨fun hp => h.setting c (hset hp), fun d _ => h.setting d⟩
  · intro hne
    refine (forall_update_iff e.pc fun d q =>
      ¬ q.Delivering ∧ e.resumptions d = 0).mpr ⟨?_, fun d _ => h.closed hne d⟩
    exact ⟨fun hp => (h.closed hne c).1 (hdel hp), (h.closed hne c).2⟩
  · intro hreached
    rcases h.due hreached with hthis | ⟨d, r, policy, hd⟩
    · exact Or.inl hthis
    · have hdc : d ≠ c := by
        rintro rfl
        exact hex r policy hd
      exact Or.inr ⟨d, r, policy, by simpa [hdc] using hd⟩
  · exact (forall_update_iff e.pc fun _ q => q ≠ .resetExchange).mpr
      ⟨hreset, fun d _ => h.neverReset d⟩

/-- `c` begins a `set`, the total having reached the count. -/
lemma beginSet (h : Opens reached e) {reached' : Prop} (hreached : reached') {r : Event.Resumer}
    {policy : Event.ResumeOrderPolicy} : Opens reached' (e.goto c (.setExchange r policy)) := by
  refine ⟨fun _ => hreached, fun _ _ => hreached, ?_, ?_, ?_, h.once⟩
  · intro hne
    refine (forall_update_iff e.pc fun d q =>
      ¬ q.Delivering ∧ e.resumptions d = 0).mpr ⟨?_, fun d _ => h.closed hne d⟩
    exact ⟨id, (h.closed hne c).2⟩
  · intro _
    exact Or.inr ⟨c, r, policy, update_self _ _ _⟩
  · exact (forall_update_iff e.pc fun _ q => q ≠ .resetExchange).mpr
      ⟨nofun, fun d _ => h.neverReset d⟩

/-- An awaiter is inserted while the event is not set, for the first time. -/
lemma insert (h : Opens reached e) (hs : Event.Sound e) (hr : Event.Recorded e)
    (hc : e.pc c = .suspendExchange e.mState) : Opens reached (Event.insert e c) := by
  have hgoto := h.goto (c := c) (p := .suspended) False.elim False.elim nofun (by simp [hc])
  have hne : e.mState ≠ .this := by
    have hprep := hs.prepared c
    rw [hc] at hprep
    exact hprep.1
  refine ⟨nofun, hgoto.setting, fun _ => hgoto.closed hne, ?_, hgoto.neverReset, ?_⟩
  · intro hreached
    exact Or.inr ((hgoto.due hreached).resolve_left hne)
  · intro d
    rcases eq_or_ne d c with rfl | hd
    · have hcount := hr.counts d
      rw [(h.closed hne d).2] at hcount
      simp [Event.insert, hcount, hc]
    · simpa [Event.insert, hd] using h.once d

/-- A `set` exchanges the state of the event. -/
lemma setExchange (h : Opens reached e) {r : Event.Resumer} {policy : Event.ResumeOrderPolicy}
    (hc : e.pc c = .setExchange r policy) : Opens reached (Event.setExchange e c r policy) := by
  have hreached : reached := h.setting c (by simp [hc, Setting])
  refine ⟨fun _ => hreached, fun _ _ => hreached, fun hne => (hne rfl).elim, fun _ => Or.inl rfl,
    ?_, h.once⟩
  refine (forall_update_iff e.pc fun _ q => q ≠ .resetExchange).mpr
    ⟨?_, fun d _ => h.neverReset d⟩
  split_ifs
  · nofun
  · cases policy <;> nofun

/-- A `set` resumes an awaiter. -/
lemma resume (h : Opens reached e) (hs : Event.Sound e) {r : Event.Resumer} {w : ι}
    {next : Option ι} (hc : e.pc c = .resume r w next) :
    Opens reached (Event.resume e c r w next) := by
  obtain ⟨hw, -⟩ := hs.resuming hc
  have hreached : reached := h.setting c (by simp [hc, Setting, Event.Pc.Delivering])
  have hthis : e.mState = .this := by
    by_contra hne
    exact (h.closed hne c).1 (by simp [hc, Event.Pc.Delivering])
  refine ⟨fun _ => hreached, fun _ _ => hreached, fun hne => (hne hthis).elim,
    fun _ => Or.inl hthis, ?_, h.once⟩
  have hresumed : ∀ d, update e.pc w r.resumed d ≠ .resetExchange :=
    (forall_update_iff e.pc fun _ q => q ≠ .resetExchange).mpr
      ⟨by cases r <;> simp [Event.Resumer.resumed], fun d _ => h.neverReset d⟩
  exact (forall_update_iff (update e.pc w r.resumed)
    fun _ q => q ≠ .resetExchange).mpr ⟨by simp, fun d _ => hresumed d⟩

/-- Every step of a coroutine inside the event. -/
lemma transition (h : Opens reached e) (hs : Event.Sound e) (hr : Event.Recorded e)
    (hc : e.pc c ≠ .running) (ht : Event.Transition e c e') : Opens reached e' := by
  cases ht with
  | quiet hq =>
    obtain ⟨hset, hdel, hreset, hex⟩ := quiet_setting hq hc
    exact h.goto hset hdel hreset hex
  | @link old hpc =>
    exact { h.goto (c := c) (p := .suspendExchange old) False.elim False.elim nofun
      (by simp [hpc]) with }
  | insert hpc => exact h.insert hs hr hpc
  | set hpc => exact h.setExchange hpc
  | @relink r x prev next hpc =>
    exact { h.goto (c := c) (p := .reverseNext r next (some x))
      (by simp [hpc, Setting, Event.Pc.Delivering]) (by simp [hpc, Event.Pc.Delivering]) nofun
      (by simp [hpc]) with }
  | resume hpc => exact h.resume hs hpc
  | reset hpc => exact (h.neverReset c hpc).elim

/-- A `co_await` passes only when the total has reached the count. -/
lemma passes (h : Opens reached e) (hc : e.pc c ≠ .running) (ht : Event.Transition e c e') {d : ι}
    (hd : Awaiting (e.pc d)) (hd' : ¬ Awaiting (e'.pc d)) : reached := by
  have hmoved : ∀ {p : Event.Pc ι}, (Awaiting (e.pc c) → Awaiting p) →
      Awaiting (update e.pc c p d) := by
    intro p hp
    rcases eq_or_ne d c with rfl | hdc
    · simpa using hp hd
    · simpa [hdc] using hd
  cases ht with
  | quiet hq =>
    by_contra hnot
    have hne : e.mState ≠ .this := fun hthis => hnot (h.ready hthis)
    exact hd' (hmoved (quiet_awaiting hq hc hne))
  | link hpc | insert hpc => exact (hd' (hmoved fun _ => trivial)).elim
  | set hpc => exact h.setting c (by simp [hpc, Setting])
  | relink hpc | resume hpc => exact h.setting c (by simp [hpc, Setting, Event.Pc.Delivering])
  | reset hpc => exact (h.neverReset c hpc).elim

end Opens

/-! ## The counter -/

/-- A number that fits is not changed by the conversion. -/
lemma int64_eq {x : ℤ} (h0 : 0 ≤ x) (h1 : x < 2 ^ 63) : int64 x = x := by
  refine Int.bmod_eq_of_le ?_ ?_
  · norm_num
    omega
  · norm_num
    omega

variable [DecidableEq ι]

/-- A latch in a run with amounts that are not negative. -/
structure Counts (count : ℤ) (s : State ι) : Prop where
  amount : ∀ c n r, s.entered c = some (n, r) → 0 ≤ n ∧ s.mEvent.pc c = .running
  total : 0 ≤ s.subtracted
  exact : s.subtracted < count → s.mCount = count - s.subtracted
  sound : Event.Sound s.mEvent
  recorded : Event.Recorded s.mEvent
  opens : Opens (count ≤ s.subtracted) s.mEvent

/-- A step inside the event moves no coroutine that is outside. -/
lemma running_of_transition {e e' : Event.State ι} {c d : ι} (hs : Event.Sound e)
    (hc : e.pc c ≠ .running) (ht : Event.Transition e c e') (hd : e.pc d = .running) :
    e'.pc d = .running := by
  have hdc : d ≠ c := by
    rintro rfl
    exact hc hd
  cases ht with
  | @resume r w next hpc =>
    obtain ⟨hw, -⟩ := hs.resuming hpc
    have hdw : d ≠ w := by
      rintro rfl
      simp [hd] at hw
    simp [Event.resume, hdc, hdw, hd]
  | _ => exact (update_of_ne hdc _ _).trans hd

namespace Counts

variable {count : ℤ} {s t : State ι} {c : ι}

/-- A call of `count_down` begins. -/
lemma enter (h : Counts count s) (hc : s.mEvent.pc c = .running) {n : ℤ} (hn : 0 ≤ n)
    (r : Event.Resumer) :
    Counts count { s with entered := update s.entered c (some (n, r)) } := by
  refine ⟨?_, h.total, h.exact, h.sound, h.recorded, h.opens⟩
  refine (forall_update_iff s.entered fun d x =>
    ∀ m q, x = some (m, q) → 0 ≤ m ∧ s.mEvent.pc d = .running).mpr ⟨?_, fun d _ => h.amount d⟩
  rintro m q ⟨⟩
  exact ⟨hn, hc⟩

/-- The `fetch_sub` decides rightly whether the total has reached the count. -/
lemma fetch_iff (h : Counts count s) {n : ℤ} (hbelow : s.subtracted < count) :
    s.mCount ≤ n ↔ count ≤ s.subtracted + n := by
  rw [h.exact hbelow]
  omega

/-- The `fetch_sub` of a call of `count_down`. -/
lemma fetchSub (h : Counts count s) (hcount : count < 2 ^ 63) {n : ℤ} {r : Event.Resumer}
    (hc : s.entered c = some (n, r)) : Counts count (Latch.fetchSub s c n r) := by
  obtain ⟨hn, hrun⟩ := h.amount c n r hc
  have htotal := h.total
  have hevent : Event.Transition s.mEvent c
      (s.mEvent.goto c (Event.Call.set r .lifo).entry) := .quiet (hrun ▸ .call)
  have hreached : s.mCount ≤ n → count ≤ s.subtracted + n := by
    intro hle
    rcases lt_or_ge s.subtracted count with hbelow | hge
    · exact (h.fetch_iff hbelow).mp hle
    · omega
  have hsame : ¬ s.mCount ≤ n → (count ≤ s.subtracted ↔ count ≤ s.subtracted + n) := by
    intro hgt
    rcases lt_or_ge s.subtracted count with hbelow | hge
    · rw [h.fetch_iff hbelow] at hgt
      omega
    · omega
  refine ⟨?_, ?_, ?_, ?_, ?_, ?_⟩
  · intro d m q hd
    have hdc : d ≠ c := by
      rintro rfl
      simp [Latch.fetchSub] at hd
    obtain ⟨hm, hpc⟩ := h.amount d m q (by simpa [Latch.fetchSub, hdc] using hd)
    refine ⟨hm, ?_⟩
    unfold Latch.fetchSub
    split_ifs
    · simpa [hdc] using hpc
    · exact hpc
  · change 0 ≤ s.subtracted + n
    omega
  · -- as long as the count is not reached the counter has not wrapped around
    intro hbelow
    change s.subtracted + n < count at hbelow
    change int64 (s.mCount - n) = count - (s.subtracted + n)
    rw [h.exact (by omega), int64_eq (by omega) (by omega)]
    omega
  · unfold Latch.fetchSub
    split_ifs
    · exact h.sound.transition hevent
    · exact h.sound
  · unfold Latch.fetchSub
    split_ifs
    · exact h.recorded.transition h.sound hevent
    · exact h.recorded
  · unfold Latch.fetchSub
    split_ifs with hle
    · exact h.opens.beginSet (hreached hle)
    · have hopens := h.opens
      rwa [hsame hle] at hopens

/-- A `co_await` begins. -/
lemma await (h : Counts count s) (hc : s.mEvent.pc c = .running) (hnone : s.entered c = none) :
    Counts count { s with mEvent := s.mEvent.goto c .awaitReady } := by
  have hevent : Event.Transition s.mEvent c (s.mEvent.goto c Event.Call.await.entry) :=
    .quiet (hc ▸ .call)
  refine ⟨?_, h.total, h.exact, h.sound.transition hevent, h.recorded.transition h.sound hevent,
    h.opens.goto False.elim False.elim nofun (by simp [hc])⟩
  intro d n r hd
  have hdc : d ≠ c := by
    rintro rfl
    simp [hnone] at hd
  obtain ⟨hn, hpc⟩ := h.amount d n r hd
  exact ⟨hn, (update_of_ne hdc _ _).trans hpc⟩

/-- A coroutine takes a step inside the event. -/
lemma transition (h : Counts count s) {e : Event.State ι} (hc : s.mEvent.pc c ≠ .running)
    (ht : Event.Transition s.mEvent c e) : Counts count { s with mEvent := e } := by
  refine ⟨?_, h.total, h.exact, h.sound.transition ht, h.recorded.transition h.sound ht,
    h.opens.transition h.sound h.recorded hc ht⟩
  intro d n r hd
  obtain ⟨hn, hpc⟩ := h.amount d n r hd
  exact ⟨hn, running_of_transition h.sound hc ht hpc⟩

end Counts

/-- The invariant holds in every run with amounts that are not negative. -/
lemma counts_of_reachable {count : ℤ} (hcount : count < 2 ^ 63) {s : State ι}
    (h : (machine ι count).ReachableUnder Nonneg s) : Counts count s := by
  refine h.invariant ?_ ?_
  · have hevent : (Event.machine ι (decide (count ≤ 0))).Reachable
      (Event.start (decide (count ≤ 0))) := .start
    refine ⟨nofun, le_rfl, fun _ => (sub_zero count).symm, Event.sound_of_reachable hevent,
      Event.recorded_of_reachable hevent, ?_, fun _ => False.elim, fun _ _ => ⟨id, rfl⟩, ?_, nofun,
      fun _ => Nat.zero_le _⟩
    · intro hthis
      by_contra hpos
      simp [machine, Event.start, show ¬ count ≤ 0 from hpos] at hthis
    · intro hle
      simp [machine, Event.start, show count ≤ 0 from hle]
  · intro s a t _ hs hguard hstep
    rcases step_cases hstep with ⟨c, n, r, rfl, hc, -, rfl⟩ | ⟨c, n, r, hc, rfl⟩ |
      ⟨c, hnone, hc, rfl⟩ | ⟨c, e, hc, ht, rfl⟩
    · exact hs.enter hc hguard r
    · exact hs.fetchSub hcount hc
    · exact hs.await hc hnone
    · exact hs.transition hc ht

/-! ## What the users of a latch see -/

/-- The coroutine `c` is in a call of `count_down`. -/
def State.CountingDown (s : State ι) (c : ι) : Prop :=
  s.entered c ≠ none ∨ Setting (s.mEvent.pc c)

variable {count : ℤ} {s : State ι}

omit [DecidableEq ι] in
/-- Nobody stays suspended on an event that is set once nobody delivers. -/
lemma not_suspended_of_set {e : Event.State ι} (hs : Event.Sound e) (hthis : e.mState = .this)
    (hdel : ∀ d, ¬ (e.pc d).Delivering) (c : ι) : e.pc c ≠ .suspended := by
  intro hc
  obtain ⟨q, hq⟩ := (hs.placed.mem_iff c).mp hc
  cases q with
  | none =>
    have hlist := hs.list
    rw [hthis] at hlist
    have hnil : e.listed.reverse = [] := Linked.none_iff.mp hlist
    simp [Event.State.place, hnil] at hq
  | some d =>
    have hnil : e.place (some d) = [] := hs.left_eq_nil (hdel d)
    simp [hnil] at hq

/-- For every `int64_t` count, in every run of any number of coroutines that count the latch down
by amounts that are not negative and await it:
* the latch is ready, and an awaiter passes, only if the total has reached the count;
* while no `count_down` is in progress, the latch is ready if and only if it has;
* every suspension of an awaiter is ended by one resumption, a coroutine is suspended at most once,
  and once the total has been reached and no `count_down` is in progress nobody is suspended. -/
theorem latch_opens (hcount : -(2 ^ 63) ≤ count ∧ count < 2 ^ 63)
    (h : (machine ι count).ReachableUnder Nonneg s) :
    (s.isReady → count ≤ s.subtracted) ∧
    (∀ c a t, (machine ι count).step s a = some t → Awaiting (s.mEvent.pc c) →
      ¬ Awaiting (t.mEvent.pc c) → count ≤ s.subtracted) ∧
    ((∀ c, ¬ s.CountingDown c) → (s.isReady ↔ count ≤ s.subtracted)) ∧
    (∀ c, s.mEvent.insertions c =
      s.mEvent.resumptions c + if s.mEvent.pc c = .suspended then 1 else 0) ∧
    (∀ c, s.mEvent.insertions c ≤ 1) ∧
    (count ≤ s.subtracted → (∀ c, ¬ s.CountingDown c) → ∀ c, s.mEvent.pc c ≠ .suspended) := by
  have hcounts := counts_of_reachable hcount.2 h
  have hopens := hcounts.opens
  have hready : s.isReady → count ≤ s.subtracted := by
    intro hr
    exact hopens.ready (by simpa [State.isReady] using hr)
  have hset : (∀ c, ¬ s.CountingDown c) → count ≤ s.subtracted → s.mEvent.mState = .this := by
    intro hnone hreached
    refine (hopens.due hreached).resolve_right ?_
    rintro ⟨c, r, policy, hc⟩
    exact hnone c (Or.inr (by simp [hc, Setting]))
  refine ⟨hready, ?_, ?_, hcounts.recorded.counts, hopens.once, ?_⟩
  · intro c a t hstep hc hc'
    rcases step_cases hstep with ⟨d, n, r, -, -, -, rfl⟩ | ⟨d, n, r, hd, rfl⟩ |
      ⟨d, hnone, hd, rfl⟩ | ⟨d, e, hd, ht, rfl⟩
    · exact (hc' hc).elim
    · have hcd : c ≠ d := by
        rintro rfl
        simp [(hcounts.amount c n r hd).2, Awaiting] at hc
      refine (hc' ?_).elim
      unfold fetchSub
      split_ifs
      · simpa [hcd] using hc
      · exact hc
    · refine (hc' ?_).elim
      rcases eq_or_ne c d with rfl | hcd
      · simp [Awaiting]
      · simpa [hcd] using hc
    · exact hopens.passes hd ht hc hc'
  · intro hnone
    refine ⟨hready, fun hreached => ?_⟩
    simpa [State.isReady] using hset hnone hreached
  · intro hreached hnone
    refine not_suspended_of_set hcounts.sound (hset hnone hreached) fun d hd => ?_
    exact hnone d (Or.inr (setting_of_delivering hd))

/-- One coroutine awaits a latch of three.  Two others count it down by two each; the second of them
reaches the count and resumes the awaiter, and the first one, which comes back with another call,
sets the event once more. -/
def overshootTrace : List (Action (Fin 3)) :=
  [.await 0, .advance 0, .advance 0, .advance 0, .advance 0, .countDown 1 2 .thread,
    .countDown 2 2 .executor, .advance 1, .advance 2, .countDown 1 0 .thread, .advance 1,
    .advance 2, .advance 1, .advance 2, .advance 2, .advance 2, .advance 0]

/-- After the run above the latch is ready and the awaiter has been resumed once. -/
theorem latch_opens_overshoot : ∃ s : State (Fin 3),
    (machine (Fin 3) 3).runUnder Nonneg (machine (Fin 3) 3).start overshootTrace = some s ∧
    s.subtracted = 4 ∧ s.mCount = -1 ∧ s.mEvent.exchanges = 2 ∧ s.mEvent.resumptions 0 = 1 ∧
    s.isReady ∧ s.mEvent.insertions 0 ≤ 1 ∧ ∀ c, s.mEvent.pc c ≠ .suspended := by
  have hrun : ∃ s : State (Fin 3),
      (machine (Fin 3) 3).runUnder Nonneg (machine (Fin 3) 3).start overshootTrace = some s ∧
      s.subtracted = 4 ∧ s.mCount = -1 ∧ s.mEvent.exchanges = 2 ∧ s.mEvent.resumptions 0 = 1 ∧
      ∀ c, s.entered c = none ∧ s.mEvent.pc c = .running :=
    ⟨_, rfl, rfl, rfl, rfl, rfl, fun c => by fin_cases c <;> exact ⟨rfl, rfl⟩⟩
  obtain ⟨s, hs, hsub, hcount, hex, hres, hidle⟩ := hrun
  have hnone : ∀ c, ¬ s.CountingDown c := by
    simp [State.CountingDown, hidle, Setting, Event.Pc.Delivering]
  obtain ⟨-, -, hready, -, honce, hsusp⟩ :=
    latch_opens (s := s) (by norm_num) (Machine.reachableUnder_of_run hs)
  have hreached : (3 : ℤ) ≤ s.subtracted := by simp [hsub]
  exact ⟨s, hs, hsub, hcount, hex, hres, (hready hnone).mpr hreached, honce 0,
    hsusp hreached hnone⟩

end Libcoro.Latch
