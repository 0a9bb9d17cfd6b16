import Libcoro.Event.Lists

/-!
# An event delivers each awaiter once

Every insertion is answered by one resumption, which is made by the first `set` that exchanges
`m_state` after the insertion, and the awaiters that a `set` has detached are resumed in the order
that its policy asks for.  `Recorded` says this of the history; a `set` under way always returns
(`Sound.returns`).  The result is `event_delivers`.
-/

namespace Libcoro.Event

open Foundations Function

variable {ι : Type*} [DecidableEq ι] {s t : State ι} {c : ι} {p : Pc ι}

/-! ## The history -/

/-- The history agrees with the event and its users. -/
structure Recorded (s : State ι) : Prop where
  order : ∀ d, (s.sets d).resumed ++ (s.sets d).left = (s.sets d).policy.order (s.sets d).detached
  listedAt : ∀ c ∈ s.listed, s.insertedAt c = s.exchanges
  heldAt : ∀ d, ∀ c ∈ (s.sets d).left, s.insertedAt c = (s.sets d).exchangedAt
  counts : ∀ c, s.insertions c = s.resumptions c + if s.pc c = .suspended then 1 else 0
  word : s.mState = .this ↔ s.lastSet = true

namespace Recorded

/-- The counts after a move of `c`, which is not suspended before or after. -/
lemma counts_goto (h : Recorded s) (hc : s.pc c ≠ .suspended) (hp : p ≠ .suspended) (d : ι) :
    s.insertions d = s.resumptions d + if update s.pc c p d = .suspended then 1 else 0 := by
  rcases eq_or_ne d c with rfl | hd
  · simpa [hc, hp] using h.counts d
  · simpa [hd] using h.counts d

/-- A move of `c`, which is not suspended before or after. -/
lemma goto (h : Recorded s) (hc : s.pc c ≠ .suspended) (hp : p ≠ .suspended) :
    Recorded (s.goto c p) :=
  ⟨h.order, h.listedAt, h.heldAt, h.counts_goto hc hp, h.word⟩

/-- A coroutine inserts its awaiter. -/
lemma insert (h : Recorded s) (hs : Sound s) (hc : s.pc c = .suspendExchange s.mState) :
    Recorded (insert s c) := by
  have hsusp : s.pc c ≠ .suspended := by simp [hc]
  -- the awaiter of `c` is on no list, so that the entries of the others stay as they are
  have hkeep : ∀ q, ∀ d ∈ s.place q, (Event.insert s c).insertedAt d = s.insertedAt d := by
    intro q d hd
    have hdc : d ≠ c := by
      rintro rfl
      exact hs.not_mem_place hsusp q hd
    simp [Event.insert, hdc]
  constructor
  · exact h.order
  · intro d hd
    rcases List.mem_append.mp hd with hd | hd
    · rw [hkeep none d (List.mem_reverse.mpr hd)]
      exact h.listedAt d hd
    · obtain rfl := List.mem_singleton.mp hd
      simp [Event.insert]
  · intro d x hx
    rw [hkeep (some d) x hx]
    exact h.heldAt d x hx
  · intro d
    rcases eq_or_ne d c with rfl | hd
    · simpa [Event.insert, hsusp] using h.counts d
    · simpa [Event.insert, hd] using h.counts d
  · have hprep := hs.prepared c
    rw [hc] at hprep
    have hunset : ¬ s.lastSet = true := fun hset => hprep.1 (h.word.mpr hset)
    exact iff_of_false (by simp [Event.insert]) hunset

/-- A `set` detaches the list. -/
lemma setExchange (h : Recorded s) {r : Resumer} {policy : ResumeOrderPolicy}
    (hc : s.pc c = .setExchange r policy) : Recorded (setExchange s c r policy) := by
  have hmem : ∀ d, d ∈ policy.order s.listed → d ∈ s.listed := by
    cases policy <;> simp
  constructor
  · intro d
    rcases eq_or_ne d c with rfl | hd
    · simp [Event.setExchange, SetCall.left]
    · simpa [Event.setExchange, hd] using h.order d
  · intro d hd
    cases hd
  · intro d x hx
    rcases eq_or_ne d c with rfl | hd
    · have hx : x ∈ policy.order s.listed := by simpa [Event.setExchange, SetCall.left] using hx
      simpa [Event.setExchange] using h.listedAt x (hmem x hx)
    · have hx : x ∈ (s.sets d).left := by simpa [Event.setExchange, hd] using hx
      simpa [Event.setExchange, hd] using h.heldAt d x hx
  · refine h.counts_goto (by simp [hc]) ?_
    split_ifs
    · simp
    · cases policy <;> simp [ResumeOrderPolicy.first]
  · exact iff_of_true rfl rfl

/-- A `set` resumes an awaiter. -/
lemma resume (h : Recorded s) (hs : Sound s) {r : Resumer} {w : ι} {next : Option ι}
    (hc : s.pc c = .resume r w next) : Recorded (resume s c r w next) := by
  obtain ⟨hw, l, hleft, -⟩ := hs.resuming hc
  have hwc : w ≠ c := by
    rintro rfl
    simp [hc] at hw
  have hnew := SetCall.left_resumed hleft
  have hr : r.resumed ≠ (.suspended : Pc ι) := by cases r <;> exact nofun
  constructor
  · intro d
    rcases eq_or_ne d c with rfl | hd
    · simpa [Event.resume, hnew, hleft] using h.order d
    · simpa [Event.resume, hd] using h.order d
  · exact h.listedAt
  · intro d x hx
    rcases eq_or_ne d c with rfl | hd
    · have hx : x ∈ l := by simpa [Event.resume, hnew] using hx
      simpa [Event.resume] using h.heldAt d x (by simp [hleft, hx])
    · have hx : x ∈ (s.sets d).left := by simpa [Event.resume, hd] using hx
      simpa [Event.resume, hd] using h.heldAt d x hx
  · intro d
    have hd := h.counts d
    rcases eq_or_ne d w with rfl | hdw
    · simpa [Event.resume, hwc, hw, hr] using hd
    · rcases eq_or_ne d c with rfl | hdc
      · simpa [Event.resume, hdw, hc] using hd
      · simpa [Event.resume, hdw, hdc] using hd
  · exact h.word

/-- Every transition is recorded. -/
lemma transition (h : Recorded s) (hs : Sound s) (ht : Transition s c t) : Recorded t := by
  cases ht with
  | quiet hq => exact h.goto hq.ne_suspended.1 hq.ne_suspended.2
  | @link old hc =>
    have hgoto : Recorded (s.goto c (.suspendExchange old)) := h.goto (by simp [hc]) nofun
    exact { hgoto with }
  | insert hc => exact h.insert hs hc
  | set hc => exact h.setExchange hc
  | @relink r x prev next hc =>
    have hgoto : Recorded (s.goto c (.reverseNext r next (some x))) := h.goto (by simp [hc]) nofun
    exact { hgoto with }
  | resume hc => exact h.resume hs hc
  | reset hc =>
    have hgoto : Recorded (s.goto c .running) := h.goto (by simp [hc]) nofun
    refine ⟨hgoto.1, hgoto.2, hgoto.3, hgoto.4, iff_of_false ?_ nofun⟩
    unfold Event.reset
    split_ifs with hset
    · nofun
    · exact hset

end Recorded

/-- The history is right in every reachable state. -/
lemma recorded_of_reachable {initiallySet : Bool} (h : (machine ι initiallySet).Reachable s) :
    Recorded s := by
  refine h.invariant ?_ ?_
  · refine ⟨fun _ => rfl, nofun, nofun, fun _ => rfl, ?_⟩
    cases initiallySet
    · exact iff_of_false nofun nofun
    · exact iff_of_true rfl rfl
  · intro s a t hr hs hstep
    exact hs.transition (sound_of_reachable hr) (step_transition hstep)

/-! ## A `set` returns -/

/-- The coroutines in a `set` that has exchanged `m_state`. -/
def Pc.Delivering : Pc ι → Prop
  | .reverseTest _ _ => True
  | .reverseNext _ _ _ => True
  | .reverseLink _ _ _ _ => True
  | .walk _ _ => True
  | .resume _ _ _ => True
  | _ => False

/-- The `set` of `d`, left to itself, returns after it has resumed whom it had yet to resume, and
nobody else. -/
def Returns (s : State ι) (d : ι) : Prop :=
  ∃ n t, (machine ι false).run s (List.replicate n (.advance d)) = some t ∧ t.pc d = .running ∧
    ∀ c, t.resumptions c = s.resumptions c + (s.sets d).left.count c

variable {d : ι}

/-- A step of `d` that resumes nobody brings its `set` nearer to the end. -/
lemma Returns.of_step (hstep : step s (.advance d) = some t)
    (hres : t.resumptions = s.resumptions) (hsets : t.sets = s.sets) (h : Returns t d) :
    Returns s d := by
  obtain ⟨n, r, hrun, hpc, hcount⟩ := h
  refine ⟨n + 1, r, ?_, hpc, ?_⟩
  · rw [List.replicate_succ]
    exact Machine.run_cons.mpr ⟨t, hstep, hrun⟩
  · rwa [hres, hsets] at hcount

variable {r : Resumer}

/-- The step in which `d` resumes an awaiter brings its `set` nearer to the end. -/
lemma Returns.of_resume {w : ι} {next : Option ι} (hs : Sound s)
    (hd : s.pc d = .resume r w next) (h : Returns (resume s d r w next) d) : Returns s d := by
  obtain ⟨-, l, hleft, -⟩ := hs.resuming hd
  have hnew := SetCall.left_resumed hleft
  obtain ⟨n, t, hrun, hpc, hcount⟩ := h
  refine ⟨n + 1, t, ?_, hpc, ?_⟩
  · rw [List.replicate_succ]
    exact Machine.run_cons.mpr ⟨_, by simp [machine, step, advance, hd], hrun⟩
  · intro c
    rw [hcount c, hleft, List.count_cons]
    rcases eq_or_ne c w with rfl | hcw
    · simp [resume, hnew]
      omega
    · simp [resume, hnew, hcw, hcw.symm]

/-- A `set` that walks the list returns. -/
lemma returns_of_walk {waiters : Option ι} (hs : Sound s)
    (hd : s.pc d = .walk r waiters) : Returns s d := by
  -- the induction is on the awaiters that are left
  generalize hleft : (s.sets d).left = l
  induction l generalizing s waiters with
  | nil =>
    have hchain := hs.chain d
    rw [hd, hleft] at hchain
    obtain rfl : waiters = none := hchain
    refine ⟨1, s.goto d .running, ?_, by simp, by simp [hleft]⟩
    exact Machine.run_cons.mpr ⟨_, by simp [machine, step, advance, hd], rfl⟩
  | cons w l ih =>
    have hchain := hs.chain d
    rw [hd, hleft] at hchain
    obtain rfl : waiters = some w := hchain.1
    have hread : step s (.advance d) = some (s.goto d (.resume r w (s.mNext w))) := by
      simp [step, advance, hd]
    have hs' := hs.transition (step_transition hread)
    have hd' : (s.goto d (.resume r w (s.mNext w))).pc d = .resume r w (s.mNext w) := by simp
    refine Returns.of_step hread rfl rfl (Returns.of_resume hs' hd' ?_)
    refine ih (hs'.resume hd') (update_self _ _ _) ?_
    simpa [resume] using SetCall.left_resumed hleft

/-- A `set` that reverses the list returns. -/
lemma returns_of_reverse {curr prev : Option ι} {rest : List ι}
    (hs : Sound s) (hd : s.pc d = .reverseNext r curr prev) (hrest : Linked s.mNext curr rest) :
    Returns s d := by
  -- the induction is on the nodes that have yet to be relinked
  induction rest generalizing s curr prev with
  | nil =>
    obtain rfl : curr = none := hrest
    have hdone : step s (.advance d) = some (s.goto d (.walk r prev)) := by
      simp [step, advance, hd]
    refine Returns.of_step hdone rfl rfl ?_
    exact returns_of_walk (hs.transition (step_transition hdone)) (update_self _ _ _)
  | cons x rest ih =>
    have hx := (List.nodup_cons.mp hrest.nodup).1
    obtain ⟨rfl, hrest⟩ := hrest
    have hread : step s (.advance d) = some (s.goto d (.reverseLink r x prev (s.mNext x))) := by
      simp [step, advance, hd]
    have hs' := hs.transition (step_transition hread)
    have hlink : step (s.goto d (.reverseLink r x prev (s.mNext x))) (.advance d) =
        some { (s.goto d (.reverseLink r x prev (s.mNext x))).goto d
            (.reverseNext r (s.mNext x) (some x)) with
          mNext := update s.mNext x prev } := by
      simp [step, advance]
    refine Returns.of_step hread rfl rfl (Returns.of_step hlink rfl rfl ?_)
    exact ih (hs'.transition (step_transition hlink)) (update_self _ _ _)
      (hrest.update hx prev)

/-- What a `set` does before it reverses the list. -/
lemma test_cases {curr : Option ι} (hd : s.pc d = .reverseTest r curr) :
    step s (.advance d) = some (s.goto d (.walk r curr)) ∨
      ∃ x, curr = some x ∧
        step s (.advance d) = some (s.goto d (.reverseNext r (some x) none)) := by
  cases curr with
  | none => exact Or.inl (by simp [step, advance, hd])
  | some x =>
    by_cases hx : s.mNext x = none
    · exact Or.inl (by simp [step, advance, hd, hx])
    · exact Or.inr ⟨x, rfl, by simp [step, advance, hd, hx]⟩

/-- Every `set` under way returns. -/
lemma Sound.returns (hs : Sound s) (hd : (s.pc d).Delivering) : Returns s d := by
  cases hpc : s.pc d with
  | walk r waiters => exact returns_of_walk hs hpc
  | reverseNext r curr prev =>
    have hchain := hs.chain d
    rw [hpc] at hchain
    obtain ⟨rest, -, hrest, -, -⟩ := hchain
    exact returns_of_reverse hs hpc hrest
  | resume r w next =>
    exact Returns.of_resume hs hpc (returns_of_walk (hs.resume hpc) (update_self _ _ _))
  | reverseLink r x prev next =>
    have hlink : step s (.advance d) = some { s.goto d (.reverseNext r next (some x)) with
        mNext := update s.mNext x prev } := by
      simp [step, advance, hpc]
    have hs' := hs.transition (step_transition hlink)
    have hchain := hs'.chain d
    simp only [State.goto_pc, update_self] at hchain
    obtain ⟨rest, -, hrest, -, -⟩ := hchain
    exact Returns.of_step hlink rfl rfl (returns_of_reverse hs' (update_self _ _ _) hrest)
  | reverseTest r curr =>
    have hchain := hs.chain d
    rw [hpc] at hchain
    -- the list is short, or the reversal begins with the first node
    rcases test_cases hpc with hshort | ⟨x, rfl, hlong⟩
    · refine Returns.of_step hshort rfl rfl ?_
      exact returns_of_walk (hs.transition (step_transition hshort)) (update_self _ _ _)
    · refine Returns.of_step hlong rfl rfl ?_
      exact returns_of_reverse (hs.transition (step_transition hlong)) (update_self _ _ _)
        hchain
  | _ => simp [hpc, Pc.Delivering] at hd

/-! ## The result -/

/-- What an event owes to its users. -/
structure Delivers (s : State ι) : Prop where
  -- Every insertion has been answered by one resumption, but for that of a suspended coroutine.
  once : ∀ c, s.insertions c = s.resumptions c + if s.pc c = .suspended then 1 else 0
  -- Whoever is suspended is on the list and no `set` has exchanged since, or is about to be resumed
  -- by the `set` that was the first to exchange since.
  awaited : ∀ c, s.pc c = .suspended →
    (Reaches s.mNext s.mState.pointer c ∧ s.insertedAt c = s.exchanges) ∨
      ∃! d, (s.pc d).Delivering ∧ c ∈ (s.sets d).left ∧ s.insertedAt c = (s.sets d).exchangedAt
  -- Whom a `set` resumes is suspended since before the `set`, and since no earlier one.
  resumed : ∀ {d w : ι} {r : Resumer} {next : Option ι}, s.pc d = .resume r w next →
    s.pc w = .suspended ∧ s.insertedAt w = (s.sets d).exchangedAt
  -- A `set` resumes whom it has detached, in the order of its policy.
  inOrder : ∀ d, (s.sets d).resumed ++ (s.sets d).left = (s.sets d).policy.order (s.sets d).detached
  complete : ∀ d, ¬ (s.pc d).Delivering → (s.sets d).left = []
  returns : ∀ d, (s.pc d).Delivering → Returns s d
  -- `reset` drops nobody.
  kept : ∀ {d : ι} {t : State ι}, s.pc d = .resetExchange → step s (.advance d) = some t →
    ∀ c, (t.pc c = .suspended ↔ s.pc c = .suspended) ∧
      (Reaches t.mNext t.mState.pointer c ↔ Reaches s.mNext s.mState.pointer c)
  -- The event is set if and only if the last call of `set` or `reset` was a `set`.
  isSet : s.mState = .this ↔ s.lastSet = true

omit [DecidableEq ι] in
/-- Only a `set` that has exchanged holds awaiters. -/
lemma Sound.left_eq_nil (hs : Sound s) (hd : ¬ (s.pc d).Delivering) :
    (s.sets d).left = [] := by
  have hchain := hs.chain d
  cases hpc : s.pc d <;> simp_all [Pc.Chain, Pc.Delivering]

/-- `reset` drops nobody. -/
lemma Sound.reset_kept (hs : Sound s) (hd : s.pc d = .resetExchange) (c : ι) :
    ((Event.reset s d).pc c = .suspended ↔ s.pc c = .suspended) ∧
      (Reaches (Event.reset s d).mNext (Event.reset s d).mState.pointer c ↔
        Reaches s.mNext s.mState.pointer c) := by
  constructor
  · rcases eq_or_ne c d with rfl | hc
    · simp [Event.reset, hd]
    · simp [Event.reset, hc]
  · rw [(hs.reset hd).list.reaches_iff, hs.list.reaches_iff]
    rfl

/-- In every run of any number of coroutines that await an event, set it in either way and reset it,
the event delivers each awaiter exactly once. -/
theorem event_delivers {initiallySet : Bool} (h : (machine ι initiallySet).Reachable s) :
    Delivers s := by
  have hs := sound_of_reachable h
  have hr := recorded_of_reachable h
  refine ⟨hr.counts, ?_, ?_, hr.order, fun d => hs.left_eq_nil, fun d => hs.returns, ?_, hr.word⟩
  · intro c hc
    obtain ⟨q, hq⟩ := (hs.placed.mem_iff c).mp hc
    cases q with
    | none =>
      refine Or.inl ⟨hs.list.reaches_iff.mpr hq, hr.listedAt c ?_⟩
      exact List.mem_reverse.mp hq
    | some d =>
      refine Or.inr ⟨d, ⟨?_, hq, hr.heldAt d c hq⟩, ?_⟩
      · by_contra hnot
        have hnil : s.place (some d) = [] := hs.left_eq_nil hnot
        simp [hnil] at hq
      · rintro e ⟨-, he, -⟩
        exact Option.some.inj (hs.placed.unique (some e) (some d) c he hq)
  · intro d w r next hd
    obtain ⟨hw, l, hleft, -⟩ := hs.resuming hd
    exact ⟨hw, hr.heldAt d w (by simp [hleft])⟩
  · intro d t hd hstep
    obtain rfl : reset s d = t := by simpa [step, advance, hd] using hstep
    exact hs.reset_kept hd

/-- Three coroutines await the event; a fourth one sets it and asks for the order of insertion.  The
first of them is resumed, resets the event and awaits it again while the list is still walked. -/
def fifoTrace : List (Action ℕ) :=
  [.call 0 .await, .advance 0, .advance 0, .advance 0, .advance 0,
    .call 1 .await, .advance 1, .advance 1, .advance 1, .spurious 1, .advance 1, .advance 1,
    .call 2 .await, .advance 2, .advance 2, .advance 2, .advance 2,
    .call 3 (.set .thread .fifo), .advance 3, .advance 3, .advance 3, .advance 3, .advance 3,
    .advance 3, .advance 3, .advance 3, .advance 3, .advance 3, .advance 3,
    .call 0 .reset, .advance 0,
    .call 0 .await, .advance 0, .advance 0, .advance 0, .advance 0,
    .advance 3, .advance 3]

/-- After the run above the first two have been resumed, and the first one, which has been inserted
again at the same address, waits for another `set`. -/
theorem event_delivers_fifo : ∃ s : State ℕ,
    (machine ℕ false).run (start false) fifoTrace = some s ∧
    (s.sets 3).resumed = [0, 1] ∧ s.mState = .awaiter 0 ∧ s.pc 0 = .suspended ∧
    s.insertions 0 = 2 ∧ s.resumptions 0 = 1 ∧ Delivers s :=
  ⟨_, rfl, rfl, rfl, rfl, rfl, rfl,
    event_delivers (Machine.reachable_of_run (M := machine ℕ false) (l := fifoTrace) rfl)⟩

end Libcoro.Event
