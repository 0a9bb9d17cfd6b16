import Libcoro.Scheduler.Schedule
import Libcoro.Foundations.Placement

/-!
# The list, the flag and the pipe of the inline scheduler

The operations on `m_scheduled_ops` and those that the event loop has detached form linked lists
without a common node (`Sound`), so that the handles come out of them in the order in which they
went in.

A thread that has pushed an operation looks at the flag, and it writes to the pipe unless the flag
is set; the loop drains the pipe, clears the flag and detaches the list, in this order.  Hence a
list that is not empty is known to somebody on the way to the pipe, to the pipe, or to the loop on
its way to the list (`Handshake`), and no operation is forgotten (`none_forgotten`).
-/

namespace Libcoro.Scheduler.Schedule

open Foundations

variable {τ κ η : Type*}

/-! ## The lists -/

/-- The operation that a thread is about to push. -/
def Pc.pushing : Pc κ → List κ
  | .pushLoad op => [op]
  | .pushLink op _ => [op]
  | .pushExchange op _ => [op]
  | _ => []

/-- A thread that is about to exchange has linked its operation to the head it has seen. -/
@[simp] def Pc.Prepared (next : κ → Option κ) : Pc κ → Prop
  | .pushExchange op current => next op = current
  | _ => True

/-- How the operations that the event loop has detached lie in memory. -/
@[simp] def LoopPc.Chain (next : κ → Option κ) (ops : List κ) : LoopPc κ η → Prop
  | .reverseTest x => Linked next (some x) ops.reverse
  | .reverseNext curr prev => Reversing next curr prev ops
  | .reverseLink x prev n => n = next x ∧ Reversing next (some x) prev ops
  | .collect head => Linked next head ops
  | .append op n => n = next op ∧ Linked next (some op) ops
  | _ => ops = []

/-- The handles that have been collected and not resumed. -/
@[simp] def LoopPc.pending (handles : List (Option η)) : LoopPc κ η → List (Option η)
  | .resume rest => rest
  | _ => handles

/-- Where an operation in use can be: on the list, detached, or in the hands of a thread. -/
def State.place (s : State τ κ η) : Option (Option τ) → List κ
  | none => s.listed.reverse
  | some none => s.detached
  | some (some th) => (s.thread th).pushing

/-- The handles that have been pushed and not resumed, in the order of their pushes. -/
@[simp] def State.pending (s : State τ κ η) : List η :=
  (s.loop.pending s.mHandlesToResume).reduceOption ++
    (s.detached ++ s.listed).map s.mAwaitingCoroutine

/-- The lists in memory are those of the history, and the handles keep their order. -/
structure Sound (s : State τ κ η) : Prop where
  list : Linked s.mNext s.mScheduledOps s.listed.reverse
  chain : s.loop.Chain s.mNext s.detached
  prepared : ∀ th, (s.thread th).Prepared s.mNext
  placed : Placed s.place fun op => s.used op = true
  log : s.pushed = s.resumed ++ s.pending
  waiting : s.loop = .wait → s.mHandlesToResume = []

variable {s t : State τ κ η} {th : τ} {op : κ} {p : LoopPc κ η} {next : κ → Option κ} {ops : List κ}

/-- A quiet move of the loop leaves what it has detached where it is. -/
lemma LoopQuiet.chain {q : LoopPc κ η} (h : LoopQuiet s q p) (hq : q.Chain s.mNext ops) :
    p.Chain s.mNext ops := by
  cases h with
  | @reverseShort x hshort =>
    have hl : Linked s.mNext (some x) ops.reverse := hq
    have hrev := hl.reverse_eq_of_short fun y hy => Option.some.inj hy ▸ hshort
    exact hrev ▸ hl
  | reverseLong =>
    have hstart := Reversing.start hq
    rwa [List.reverse_reverse] at hstart
  | reverseNext | collectNext => exact ⟨rfl, hq⟩
  | reverseDone => exact Reversing.finish hq
  | collectDone => exact Linked.none_iff.mp hq
  | _ => exact hq

/-- A quiet move of the loop neither resumes nor forgets a handle. -/
lemma LoopQuiet.pending {q : LoopPc κ η} (h : LoopQuiet s q p) :
    p.pending s.mHandlesToResume = q.pending s.mHandlesToResume ∧ p ≠ .wait := by
  cases h <;> exact ⟨rfl, nofun⟩

/-- A quiet move of a thread keeps its operation in its hands. -/
lemma Quiet.pushing {q p : Pc κ} (h : Quiet s q p) : p.pushing = q.pushing := by
  cases h <;> rfl

/-- No quiet move of a thread leads to the exchange. -/
lemma Quiet.prepared {q p : Pc κ} (h : Quiet s q p) : p.Prepared next := by
  cases h <;> trivial

namespace Sound

/-- An operation that a thread pushes is nowhere else. -/
lemma not_mem_of_pushing (h : Sound s) (hop : op ∈ (s.thread th).pushing) :
    op ∉ s.listed ∧ op ∉ s.detached ∧ ∀ d, d ≠ th → op ∉ (s.thread d).pushing := by
  have hmem : op ∈ s.place (some (some th)) := hop
  refine ⟨fun hl => ?_, fun hd => ?_, fun d hd hopd => ?_⟩
  · simpa using h.placed.unique none (some (some th)) op (by simpa [State.place] using hl) hmem
  · simpa using h.placed.unique (some none) (some (some th)) op hd hmem
  · exact hd (by simpa using h.placed.unique (some (some d)) (some (some th)) op hopd hmem)

/-- The loop detaches the list. -/
lemma detach (h : Sound s) (hl : s.loop = .popExchange op) (hhead : s.mScheduledOps = some op) :
    Sound (detach s op) := by
  have hempty : s.detached = [] := by
    have hchain := h.chain
    rwa [hl] at hchain
  have hlist := h.list
  rw [hhead] at hlist
  refine ⟨rfl, hlist, h.prepared, ?_, ?_, nofun⟩
  · refine h.placed.pass (p := none) (q := some none) (by simp) ?_ ?_ fun _ => Iff.rfl
    · simp [State.place, Schedule.detach, hempty]
    · rintro (_ | _ | d) hnone hdet
      · exact (hnone rfl).elim
      · exact (hdet rfl).elim
      · rfl
  · simpa [Schedule.detach, hl, hempty] using h.log

/-- The loop moves on and no operation moves. -/
lemma moved (h : Sound s) {p : LoopPc κ η} {handles : List (Option η)} {resumed : List η}
    (hchain : p.Chain s.mNext s.detached)
    (hlog : resumed ++ (p.pending handles).reduceOption =
      s.resumed ++ (s.loop.pending s.mHandlesToResume).reduceOption)
    (hwait : p = .wait → handles = []) :
    Sound { s with loop := p, mHandlesToResume := handles, resumed := resumed } := by
  refine ⟨h.list, hchain, h.prepared, h.placed.congr ?_ fun _ => Iff.rfl, ?_, hwait⟩
  · rintro (_ | _ | _) <;> rfl
  · have hlog' := h.log
    simp only [State.pending, ← List.append_assoc] at hlog' ⊢
    rw [hlog, ← hlog']

end Sound

section Memory

variable [DecidableEq κ]

/-- Rewriting an operation that the loop has not detached. -/
lemma LoopPc.Chain.update (h : p.Chain next ops) {x : κ} (hx : x ∉ ops) (n : Option κ) :
    p.Chain (Function.update next x n) ops := by
  cases p with
  | reverseTest y => exact Linked.update h (by simpa using hx) n
  | reverseNext curr prev => exact Reversing.update h hx n
  | reverseLink y prev m =>
    have hyx : y ≠ x := fun heq => hx (heq ▸ h.2.mem)
    exact ⟨by simpa [hyx] using h.1, h.2.update hx n⟩
  | collect head => exact Linked.update h hx n
  | append op m =>
    have hox : op ≠ x := by
      rintro rfl
      obtain ⟨l, rfl, -⟩ := Linked.some_iff.mp h.2
      simp at hx
    exact ⟨by simpa [hox] using h.1, h.2.update hx n⟩
  | _ => exact h

/-- Rewriting an operation that a thread does not push. -/
lemma Pc.Prepared.update {p : Pc κ} (h : p.Prepared next) {x : κ} (hx : x ∉ p.pushing)
    (n : Option κ) : p.Prepared (Function.update next x n) := by
  cases p with
  | pushExchange op current =>
    have hox : op ≠ x := fun heq => hx (by simp [Pc.pushing, heq])
    simpa [hox] using h
  | _ => trivial

namespace Sound

/-- One turn of the reversal. -/
lemma relink (h : Sound s) {x : κ} {prev next : Option κ} (hl : s.loop = .reverseLink x prev next) :
    Sound { s with
      mNext := Function.update s.mNext x prev
      loop := .reverseNext next (some x) } := by
  have hchain := h.chain
  rw [hl] at hchain
  obtain ⟨rfl, hrev⟩ := hchain
  have hmem : x ∈ s.place (some none) := hrev.mem
  have hoff : ∀ q, q ≠ some none → x ∉ s.place q :=
    fun q hq hmem' => hq (h.placed.unique q (some none) x hmem' hmem)
  refine ⟨h.list.update (hoff none (by simp)) _, hrev.turn (h.placed.nodup (some none)), ?_,
    h.placed.congr ?_ fun _ => Iff.rfl, ?_, nofun⟩
  · exact fun d => (h.prepared d).update (hoff (some (some d)) (by simp)) _
  · rintro (_ | _ | _) <;> rfl
  · simpa [hl] using h.log

/-- The loop appends the handle of an operation. -/
lemma append (h : Sound s) {next : Option κ} (hl : s.loop = .append op next) :
    Sound (append s op next) := by
  have hchain := h.chain
  rw [hl] at hchain
  obtain ⟨rfl, hlink⟩ := hchain
  obtain ⟨l, hdet, hlink⟩ := Linked.some_iff.mp hlink
  refine ⟨h.list, by simpa [Schedule.append, hdet] using hlink, h.prepared, ?_, ?_,
    nofun⟩
  · refine h.placed.leave (p := some none) (x := op) ?_ ?_ ?_
    · simp [State.place, Schedule.append, hdet]
    · rintro (_ | _ | d) hq
      · rfl
      · exact (hq rfl).elim
      · rfl
    · intro x
      rcases eq_or_ne x op with rfl | hx
      · simp [Schedule.append]
      · simp [Schedule.append, hx]
  · simpa [Schedule.append, hl, hdet, List.reduceOption_append]
      using h.log

end Sound

end Memory

variable [DecidableEq τ]

@[simp] lemma State.goto_thread {p : Pc κ} :
    (s.goto th p).thread = Function.update s.thread th p := rfl

/-- The places after a thread has moved that takes or drops no operation. -/
lemma State.place_goto {p : Pc κ} (hp : p.pushing = (s.thread th).pushing) (q : Option (Option τ)) :
    (s.goto th p).place q = s.place q := by
  rcases q with _ | _ | d
  · rfl
  · rfl
  · rcases eq_or_ne d th with rfl | hd
    · simp [State.place, hp]
    · simp [State.place, hd]

namespace Sound

/-- A thread moves and keeps its operation. -/
lemma goto (h : Sound s) {p : Pc κ} (hp : p.pushing = (s.thread th).pushing)
    (hprep : p.Prepared s.mNext) : Sound (s.goto th p) where
  list := h.list
  chain := h.chain
  prepared := (Function.forall_update_iff s.thread fun _ (q : Pc κ) => q.Prepared s.mNext).mpr
    ⟨hprep, fun d _ => h.prepared d⟩
  placed := h.placed.congr (State.place_goto hp) fun _ => Iff.rfl
  log := h.log
  waiting := h.waiting

/-- A thread pushes its operation. -/
lemma push (h : Sound s) (hth : s.thread th = .pushExchange op s.mScheduledOps) :
    Sound (push s th op) := by
  have hnext : s.mNext op = s.mScheduledOps := by
    have hprep := h.prepared th
    rwa [hth] at hprep
  refine ⟨?_, h.chain, ?_, ?_, ?_, h.waiting⟩
  · simp only [Schedule.push, List.reverse_append, List.reverse_singleton, List.singleton_append]
    exact ⟨rfl, hnext ▸ h.list⟩
  · exact (Function.forall_update_iff s.thread fun _ (q : Pc κ) => q.Prepared s.mNext).mpr
      ⟨trivial, fun d _ => h.prepared d⟩
  · refine h.placed.pass (p := some (some th)) (q := none) (by simp) ?_ ?_ fun _ => Iff.rfl
    · simp [State.place, Schedule.push, hth, Pc.pushing]
    · rintro (_ | _ | d) hth' hnone
      · exact (hnone rfl).elim
      · rfl
      · have hd : d ≠ th := fun hd => hth' (by rw [hd])
        simp [State.place, Schedule.push, hd]
  · simp [Schedule.push, h.log, State.goto]

variable [DecidableEq κ]

/-- `await_suspend` is called. -/
lemma schedule (h : Sound s) {k : η} (hth : s.thread th = .idle) (hop : s.used op = false) :
    Sound (schedule s th op k) := by
  have hnot : ∀ q, op ∉ s.place q := by
    intro q hmem
    simpa [hop] using h.placed.of_mem hmem
  refine ⟨h.list, h.chain, ?_, ?_, ?_, h.waiting⟩
  · exact (Function.forall_update_iff s.thread fun _ (q : Pc κ) => q.Prepared s.mNext).mpr
      ⟨trivial, fun d _ => h.prepared d⟩
  · refine h.placed.enter (p := some (some th)) (x := op) (by simp [hop]) ?_ ?_ ?_
    · simp [State.place, Schedule.schedule, hth, Pc.pushing]
    · rintro (_ | _ | d) hq
      · rfl
      · rfl
      · have hd : d ≠ th := fun hd => hq (by rw [hd])
        simp [State.place, Schedule.schedule, hd]
    · intro x
      rcases eq_or_ne x op with rfl | hx
      · simp [Schedule.schedule]
      · simp [Schedule.schedule, hx]
  · -- the handle of an operation that is not in use is nobody's
    have hmap : (s.detached ++ s.listed).map (Function.update s.mAwaitingCoroutine op k) =
        (s.detached ++ s.listed).map s.mAwaitingCoroutine := by
      refine List.map_congr_left fun x hx => Function.update_of_ne ?_ _ _
      rintro rfl
      rcases List.mem_append.mp hx with hx | hx
      · exact hnot (some none) hx
      · exact hnot none (by simpa [State.place] using hx)
    have hpending : (Schedule.schedule s th op k).pending = s.pending :=
      congrArg (fun l => (s.loop.pending s.mHandlesToResume).reduceOption ++ l) hmap
    rw [hpending]
    exact h.log

/-- A thread links its operation to the head that it has seen. -/
lemma link (h : Sound s) {current : Option κ} (hth : s.thread th = .pushLink op current) :
    Sound { s.goto th (.pushExchange op current) with
      mNext := Function.update s.mNext op current } := by
  have hop : op ∈ (s.thread th).pushing := by simp [hth, Pc.pushing]
  obtain ⟨hlist, hdet, hother⟩ := h.not_mem_of_pushing hop
  have hplace : ∀ q, (s.goto th (.pushExchange op current)).place q = s.place q :=
    State.place_goto (by simp [hth, Pc.pushing])
  refine ⟨h.list.update (by simpa using hlist) _, h.chain.update hdet _, ?_,
    h.placed.congr hplace fun _ => Iff.rfl, h.log, h.waiting⟩
  · refine (Function.forall_update_iff s.thread fun _ (q : Pc κ) =>
      q.Prepared (Function.update s.mNext op current)).mpr ⟨by simp, ?_⟩
    exact fun d hd => (h.prepared d).update (hother d hd) _

/-- Every transition keeps the lists and the order of the handles. -/
lemma transition (h : Sound s) (ht : Transition s t) : Sound t := by
  have hchain := h.chain
  cases ht with
  | quiet hq => exact h.goto hq.pushing hq.prepared
  | schedule hth hop => exact h.schedule hth hop
  | link hth => exact h.link hth
  | push hth => exact h.push hth
  | @trigger th hth _ =>
    have hgoto : Sound (s.goto th .write) := h.goto (by simp [hth, Pc.pushing]) trivial
    exact { hgoto with }
  | @write th b hth =>
    have hgoto : Sound (s.goto th .idle) := h.goto (by simp [hth, Pc.pushing]) trivial
    exact { hgoto with }
  | @nextEvents b hl _ =>
    rw [hl] at hchain
    have hmoved : Sound { s with loop := .events b } := h.moved hchain (by rw [hl]; rfl) nofun
    exact { hmoved with }
  | otherEvent hl =>
    exact h.moved hchain (by simp [hl, List.reduceOption_append]) (by simp [hl])
  | loop hq =>
    exact h.moved (hq.chain hchain) (by rw [hq.pending.1]) fun hp => (hq.pending.2 hp).elim
  | drain hl =>
    rw [hl] at hchain
    have hmoved : Sound { s with loop := if 4 ≤ s.mSchedulePipe then .drain else .clear } := by
      refine h.moved ?_ ?_ ?_
      all_goals split_ifs <;> simp [hl]
      all_goals exact hchain
    exact { hmoved with }
  | clear hl =>
    rw [hl] at hchain
    have hmoved : Sound { s with loop := .popLoad } := h.moved hchain (by rw [hl]; rfl) nofun
    exact { hmoved with }
  | detach hl hhead => exact h.detach hl hhead
  | relink hl => exact h.relink hl
  | append hl => exact h.append hl
  | finish hl =>
    rw [hl] at hchain
    exact h.moved hchain (by simp [hl]) fun _ => rfl
  | @resume k rest hl =>
    rw [hl] at hchain
    refine h.moved hchain ?_ nofun
    cases k <;> simp [hl, List.reduceOption]

end Sound

/-! ## The flag and the pipe -/

/-- The loop is in `awaiter_list_pop_all`. -/
@[simp] def LoopPc.Popping : LoopPc κ η → Prop
  | .popLoad => True
  | .popExchange _ => True
  | _ => False

/-- The loop is in `process_scheduled_execute_inline` and has not detached the list. -/
@[simp] def LoopPc.Processing : LoopPc κ η → Prop
  | .drain => True
  | .clear => True
  | .popLoad => True
  | .popExchange _ => True
  | _ => False

/-- What the flag, the list and the pipe promise. -/
structure Handshake (s : State τ κ η) : Prop where
  flag : s.mSchedulePipeTriggered = true →
    0 < s.mSchedulePipe ∨ (∃ th, s.thread th = .write) ∨ s.loop = .drain ∨ s.loop = .clear
  list : s.mScheduledOps ≠ none →
    s.mSchedulePipeTriggered = true ∨ (∃ th, s.thread th = .trigger) ∨ s.loop.Popping
  pipe : 0 < s.mSchedulePipe → s.signalled = true ∨ s.loop = .events true ∨ s.loop = .drain

omit [DecidableEq τ] in
/-- What a quiet move of a thread means for the flag. -/
lemma Quiet.flag {q p : Pc κ} (h : Quiet s q p) :
    q ≠ .write ∧ (q = .trigger → s.mSchedulePipeTriggered = true) := by
  cases h with
  | triggered hset => exact ⟨nofun, fun _ => hset⟩
  | _ => exact ⟨nofun, nofun⟩

omit [DecidableEq τ] in
/-- What a quiet move of the loop means for the list and for the pipe. -/
lemma LoopQuiet.flag {q : LoopPc κ η} (h : LoopQuiet s q p) :
    (q ≠ .drain ∧ q ≠ .clear) ∧ (q.Popping → s.mScheduledOps ≠ none → p.Popping) ∧
      (q = .events true → p = .drain) := by
  cases h with
  | scheduleEvent => exact ⟨⟨nofun, nofun⟩, nofun, fun _ => rfl⟩
  | loadEmpty hnone
  | reloadEmpty hnone => exact ⟨⟨nofun, nofun⟩, fun _ hops => (hops hnone).elim, nofun⟩
  | load | reload => exact ⟨⟨nofun, nofun⟩, fun _ _ => trivial, nofun⟩
  | _ => exact ⟨⟨nofun, nofun⟩, nofun, nofun⟩

/-- A thread that was somewhere else does not matter. -/
lemma exists_goto {x q : Pc κ} (h : ∃ d, s.thread d = x) (hth : s.thread th ≠ x) :
    ∃ d, Function.update s.thread th q d = x := by
  obtain ⟨d, hd⟩ := h
  have hne : d ≠ th := by
    rintro rfl
    exact hth hd
  exact ⟨d, by simpa [hne] using hd⟩

namespace Handshake

omit [DecidableEq τ] in
/-- Outside `process_scheduled_execute_inline` the promises are kept by the threads and the
pipe. -/
lemma calm (h : Handshake s) (hl : ¬ s.loop.Processing) (hev : s.loop ≠ .events true) :
    (s.mSchedulePipeTriggered = true → 0 < s.mSchedulePipe ∨ ∃ th, s.thread th = .write) ∧
    (s.mScheduledOps ≠ none → s.mSchedulePipeTriggered = true ∨ ∃ th, s.thread th = .trigger) ∧
    (0 < s.mSchedulePipe → s.signalled = true) := by
  refine ⟨fun hf => ?_, fun hops => ?_, fun hp => ?_⟩
  · rcases h.flag hf with hp | hw | hd | hd
    · exact Or.inl hp
    · exact Or.inr hw
    · exact (hl (by simp [hd])).elim
    · exact (hl (by simp [hd])).elim
  · rcases h.list hops with hf | ht | hpop
    · exact Or.inl hf
    · exact Or.inr ht
    · cases hloop : s.loop <;> simp_all
  · rcases h.pipe hp with hs | he | hd
    · exact hs
    · exact (hev he).elim
    · exact (hl (by simp [hd])).elim

/-- A thread moves that has nothing to do with the flag. -/
lemma goto (h : Handshake s) {q : Pc κ} (hw : s.thread th ≠ .write)
    (ht : s.thread th = .trigger → s.mSchedulePipeTriggered = true) : Handshake (s.goto th q) := by
  refine ⟨fun hf => ?_, fun hops => ?_, h.pipe⟩
  · exact (h.flag hf).imp_right (Or.imp_left fun hex => exists_goto hex hw)
  · by_cases htrig : s.thread th = .trigger
    · exact Or.inl (ht htrig)
    · exact (h.list hops).imp_right (Or.imp_left fun hex => exists_goto hex htrig)

variable [DecidableEq κ]

/-- Every transition keeps the promises. -/
lemma transition (h : Handshake s) (ht : Transition s t) : Handshake t := by
  cases ht with
  | quiet hq => exact h.goto hq.flag.1 hq.flag.2
  | @schedule th op k hth _ =>
    have hgoto : Handshake (s.goto th (.pushLoad op)) := h.goto (by simp [hth]) (by simp [hth])
    exact { hgoto with }
  | @link th op current hth =>
    have hgoto : Handshake (s.goto th (.pushExchange op current)) :=
      h.goto (by simp [hth]) (by simp [hth])
    exact { hgoto with }
  | @push th op hth =>
    have hgoto : Handshake (s.goto th .trigger) := h.goto (by simp [hth]) (by simp [hth])
    exact ⟨hgoto.1, fun _ => Or.inr (Or.inl ⟨th, Function.update_self _ _ _⟩), hgoto.3⟩
  | @trigger th hth _ =>
    exact ⟨fun _ => Or.inr (Or.inl ⟨th, Function.update_self _ _ _⟩), fun _ => Or.inl rfl, h.pipe⟩
  | @write th b hth =>
    refine ⟨fun _ => Or.inl (Nat.succ_pos _), fun hops => ?_, fun _ => ?_⟩
    · exact (h.list hops).imp_right (Or.imp_left fun hex => exists_goto hex (by simp [hth]))
    · rcases Nat.eq_zero_or_pos s.mSchedulePipe with hzero | hpos
      · exact Or.inl (by simp [hzero])
      · exact (h.pipe hpos).imp_left fun hs => by simp [hs]
  | @nextEvents b hl _ =>
    obtain ⟨hflag, hlist, hpipe⟩ := h.calm (by simp [hl]) (by simp [hl])
    refine ⟨fun hf => (hflag hf).imp_right Or.inl, fun hops => (hlist hops).imp_right Or.inl,
      fun hp => ?_⟩
    cases b with
    | false => exact Or.inl (by simp [hpipe hp])
    | true => exact Or.inr (Or.inl rfl)
  | otherEvent _ => exact ⟨h.flag, h.list, h.pipe⟩
  | loop hq =>
    obtain ⟨hnot, hpop, hev⟩ := hq.flag
    refine ⟨fun hf => ?_, fun hops => ?_, fun hp => ?_⟩
    · rcases h.flag hf with hp | hw | hd | hd
      · exact Or.inl hp
      · exact Or.inr (Or.inl hw)
      · exact (hnot.1 hd).elim
      · exact (hnot.2 hd).elim
    · exact (h.list hops).imp_right (Or.imp_right fun hpopping => hpop hpopping hops)
    · rcases h.pipe hp with hs | he | hd
      · exact Or.inl hs
      · exact Or.inr (Or.inr (hev he))
      · exact (hnot.1 hd).elim
  | drain hl =>
    refine ⟨fun _ => Or.inr (Or.inr ?_), fun hops => ?_, fun hp => ?_⟩
    · by_cases hfour : 4 ≤ s.mSchedulePipe <;> simp [hfour]
    · exact (h.list hops).imp_right (Or.imp_right fun hpop => by simp [hl] at hpop)
    · have hfour : 4 ≤ s.mSchedulePipe := by
        have hp : 0 < s.mSchedulePipe - 4 := hp
        omega
      exact Or.inr (Or.inr (if_pos hfour))
  | clear hl =>
    refine ⟨nofun, fun _ => Or.inr (Or.inr trivial), fun hp => ?_⟩
    exact (h.pipe hp).imp_right fun hloop => by simp [hl] at hloop
  | detach hl _ =>
    refine ⟨fun hf => ?_, fun hops => (hops rfl).elim, fun hp => ?_⟩
    · exact (h.flag hf).imp_right (Or.imp_right fun hloop => by simp [hl] at hloop)
    · exact (h.pipe hp).imp_right fun hloop => by simp [hl] at hloop
  | relink hl | append hl | finish hl | resume hl =>
    obtain ⟨hflag, hlist, hpipe⟩ := h.calm (by simp [hl]) (by simp [hl])
    exact ⟨fun hf => (hflag hf).imp_right Or.inl, fun hops => (hlist hops).imp_right Or.inl,
      fun hp => Or.inl (hpipe hp)⟩

end Handshake

/-! ## Nothing is forgotten -/

variable [DecidableEq κ] [Inhabited η]

/-- The lists are in order in every reachable state. -/
lemma sound_of_reachable (h : (machine τ κ η).Reachable s) : Sound s := by
  refine h.invariant ?_ ?_
  · have hnone : ∀ q : Option (Option τ), (start : State τ κ η).place q = [] := by
      rintro (_ | _ | _) <;> rfl
    refine ⟨rfl, rfl, fun _ => trivial, ⟨fun q => ?_, fun q _ x hx => ?_, fun x => ?_⟩, rfl,
      fun _ => rfl⟩
    · exact hnone q ▸ List.nodup_nil
    · simp [machine, hnone q] at hx
    · refine iff_of_false nofun ?_
      rintro ⟨q, hx⟩
      simp [machine, hnone q] at hx
  · intro s a t _ hs hstep
    exact hs.transition (step_transition hstep)

/-- The promises are kept in every reachable state. -/
lemma handshake_of_reachable (h : (machine τ κ η).Reachable s) : Handshake s := by
  refine h.invariant ⟨nofun, nofun, nofun⟩ ?_
  intro s a t _ hs hstep
  exact hs.transition (step_transition hstep)

/-- What the inline scheduler owes to those who schedule. -/
structure NoneForgotten (s : State τ κ η) : Prop where
  -- If the list is not empty, the pipe holds data, somebody who has pushed is before the flag or
  -- before the pipe, or the loop is about to detach the list.
  noticed : s.mScheduledOps ≠ none →
    0 < s.mSchedulePipe ∨ (∃ th, s.thread th = .trigger ∨ s.thread th = .write) ∨ s.loop.Processing
  -- Data in the pipe will be reported, or the loop is about to read it.
  reported : 0 < s.mSchedulePipe → s.signalled = true ∨ s.loop = .events true ∨ s.loop = .drain
  -- The handles that have been pushed are those that have been resumed, in the order of the pushes,
  -- then those in `m_handles_to_resume`, those detached and those on the list.
  once : s.pushed = s.resumed ++ s.pending
  list : Linked s.mNext s.mScheduledOps s.listed.reverse
  -- When the loop waits and nobody is before the flag or the pipe, everything has been resumed.
  idle : s.loop = .wait → s.signalled = false →
    (∀ th, s.thread th ≠ .trigger ∧ s.thread th ≠ .write) → s.resumed = s.pushed

/-- In every run of the inline scheduler no operation is forgotten, and the handles are resumed once
each in the order of their pushes. -/
theorem none_forgotten (h : (machine τ κ η).Reachable s) : NoneForgotten s := by
  have hsound := sound_of_reachable h
  have hshake := handshake_of_reachable h
  have hnoticed : s.mScheduledOps ≠ none → 0 < s.mSchedulePipe ∨
      (∃ th, s.thread th = .trigger ∨ s.thread th = .write) ∨ s.loop.Processing := by
    intro hops
    rcases hshake.list hops with hf | ⟨th, hth⟩ | hpop
    · rcases hshake.flag hf with hp | ⟨th, hth⟩ | hd | hd
      · exact Or.inl hp
      · exact Or.inr (Or.inl ⟨th, Or.inr hth⟩)
      · exact Or.inr (Or.inr (by simp [hd]))
      · exact Or.inr (Or.inr (by simp [hd]))
    · exact Or.inr (Or.inl ⟨th, Or.inl hth⟩)
    · refine Or.inr (Or.inr ?_)
      cases hl : s.loop <;> simp_all
  refine ⟨hnoticed, hshake.pipe, hsound.log, hsound.list, fun hl hs hths => ?_⟩
  -- the pipe is empty, so the list is, and the loop has nothing in its hands
  have hpipe : ¬ 0 < s.mSchedulePipe := by
    intro hp
    have hpipe := hshake.pipe hp
    simp [hs, hl] at hpipe
  have hops : s.mScheduledOps = none := by
    by_contra hops
    rcases hnoticed hops with hp | ⟨th, hth⟩ | hproc
    · exact hpipe hp
    · exact hth.elim (hths th).1 (hths th).2
    · simp [hl] at hproc
  have hlisted : s.listed = [] := by
    have hlist := hsound.list
    rw [hops] at hlist
    simpa using hlist
  have hdetached : s.detached = [] := by
    have hchain := hsound.chain
    rwa [hl] at hchain
  have hlog := hsound.log
  simpa [hl, hsound.waiting hl, hlisted, hdetached] using hlog.symm

/-- Two threads: the first one pushes and sets the flag, the second one pushes after it, finds the
flag set and leaves, the first one writes, and the loop collects and resumes both. -/
def twoThreads : List (Action Bool ℕ String) :=
  [.schedule false 0 "first", .schedule true 1 "second", .advance false false, .advance true false,
    .advance false false, .advance true false, .advance false false, .advance true false,
    .advance true false, .advance true false, .advance false false, .advance true false,
    .advance false false, .nextEvents true] ++ List.replicate 20 .loop

/-- After the run above both handles have been resumed in the order of their pushes, with one write
to the pipe, and the loop waits again. -/
theorem none_forgotten_two : ∃ s : State Bool ℕ String,
    (machine Bool ℕ String).run start twoThreads = some s ∧ s.loop = .wait ∧
    s.pushed = ["first", "second"] ∧ s.resumed = ["first", "second"] ∧ NoneForgotten s := by
  have hreach := Machine.reachable_of_run (M := machine Bool ℕ String) (l := twoThreads) rfl
  exact ⟨_, rfl, rfl, rfl, rfl, none_forgotten hreach⟩

end Libcoro.Scheduler.Schedule
