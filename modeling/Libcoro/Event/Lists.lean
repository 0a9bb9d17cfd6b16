import Libcoro.Event.Model
import Libcoro.Foundations.Placement

/-!
# The lists of awaiters of an event

The awaiters on the list of the event and those that a `set` has detached form linked lists that
have no node in common, and their nodes are the suspended coroutines (`Sound`).  The list that a
`set` holds is known from its history: the awaiters that it has detached without those that it has
resumed, in the order that its policy asks for (`SetCall.left`).  The control point of the `set`
says how this list lies in memory (`Pc.Chain`).
-/

namespace Libcoro.Event

open Foundations

variable {ι : Type*}

/-- The awaiters that a `set` has yet to resume, in the order in which it will. -/
def SetCall.left (k : SetCall ι) : List ι :=
  (k.policy.order k.detached).drop k.resumed.length

/-- What is left after `w` has been resumed. -/
lemma SetCall.left_resumed {k : SetCall ι} {w : ι} {l : List ι} (h : k.left = w :: l) :
    SetCall.left { k with resumed := k.resumed ++ [w] } = l := by
  have htail : (k.left).tail = l := by rw [h, List.tail_cons]
  simpa [SetCall.left] using htail

/-- How the awaiters `hand` that a coroutine has yet to resume lie in memory. -/
def Pc.Chain (next : ι → Option ι) (hand : List ι) : Pc ι → Prop
  | .reverseTest _ curr => Linked next curr hand.reverse
  | .reverseNext _ curr prev => Reversing next curr prev hand
  | .reverseLink _ x prev n => n = next x ∧ Reversing next (some x) prev hand
  | .walk _ waiters => Linked next waiters hand
  | .resume _ w n => n = next w ∧ Linked next (some w) hand
  | _ => hand = []

/-- What a coroutine that is about to insert its awaiter knows. -/
@[simp] def Pc.Prepared (next : Option ι) : Pc ι → Prop
  | .suspendLink old => old ≠ .this
  | .suspendExchange old => old ≠ .this ∧ next = old.pointer
  | _ => True

/-- Where awaiters can be: on the list of the event, the latest first, or in the hands of a
`set`. -/
def State.place (s : State ι) : Option ι → List ι
  | none => s.listed.reverse
  | some d => (s.sets d).left

/-- The lists in memory are those of the history, and their nodes are the suspended coroutines. -/
structure Sound (s : State ι) : Prop where
  list : Linked s.mNext s.mState.pointer s.listed.reverse
  chain : ∀ d, (s.pc d).Chain s.mNext (s.sets d).left
  prepared : ∀ c, (s.pc c).Prepared (s.mNext c)
  placed : Placed s.place fun c => s.pc c = .suspended

/-! ## Moves of one coroutine -/

section Moves

variable {s : State ι} {p q : Pc ι} {next : ι → Option ι} {hand : List ι}

/-- A quiet move leaves what the coroutine holds where it is. -/
lemma Quiet.chain (h : Quiet s q p) (hq : q.Chain s.mNext hand) : p.Chain s.mNext hand := by
  cases h with
  | @call f => cases f <;> exact hq
  | reverseShort hshort =>
    have hl : Linked s.mNext _ hand.reverse := hq
    exact hl.reverse_eq_of_short hshort ▸ hl
  | reverseLong =>
    have hstart := Reversing.start hq
    rwa [List.reverse_reverse] at hstart
  | reverseNext | walkNext => exact ⟨rfl, hq⟩
  | reverseDone => exact Reversing.finish hq
  | walkDone => exact Linked.none_iff.mp hq
  | _ => exact hq

/-- A quiet move prepares an insertion only after the event was seen not to be set. -/
lemma Quiet.prepared {n : Option ι} (h : Quiet s q p) : p.Prepared n := by
  cases h with
  | @call f => cases f <;> trivial
  | load hset | reload hset => exact hset
  | _ => trivial

/-- Quiet moves are those of coroutines that run. -/
lemma Quiet.ne_suspended (h : Quiet s q p) : q ≠ .suspended ∧ p ≠ .suspended := by
  cases h with
  | @call f => cases f <;> exact ⟨nofun, nofun⟩
  | _ => exact ⟨nofun, nofun⟩

/-- Rewriting a node that a coroutine does not hold leaves what it holds where it is. -/
lemma Pc.Chain.update [DecidableEq ι] (h : p.Chain next hand) {x : ι} (hx : x ∉ hand)
    (n : Option ι) : p.Chain (Function.update next x n) hand := by
  cases p with
  | reverseTest r curr => exact Linked.update h (by simpa using hx) n
  | reverseNext r curr prev => exact Reversing.update h hx n
  | reverseLink r y prev m =>
    have hyx : y ≠ x := fun heq => hx (heq ▸ h.2.mem)
    exact ⟨by simpa [hyx] using h.1, h.2.update hx n⟩
  | walk r waiters => exact Linked.update h hx n
  | resume r w m =>
    have hwx : w ≠ x := by
      rintro rfl
      obtain ⟨l, rfl, -⟩ := Linked.some_iff.mp h.2
      simp at hx
    exact ⟨by simpa [hwx] using h.1, h.2.update hx n⟩
  | _ => exact h

end Moves

variable [DecidableEq ι] {s t : State ι} {c : ι} {p : Pc ι}

@[simp] lemma State.goto_pc : (s.goto c p).pc = Function.update s.pc c p := rfl

@[simp] lemma State.goto_mNext : (s.goto c p).mNext = s.mNext := rfl

@[simp] lemma State.goto_sets : (s.goto c p).sets = s.sets := rfl

@[simp] lemma State.goto_exchanges : (s.goto c p).exchanges = s.exchanges := rfl

@[simp] lemma State.goto_insertedAt : (s.goto c p).insertedAt = s.insertedAt := rfl

@[simp] lemma State.goto_insertions : (s.goto c p).insertions = s.insertions := rfl

@[simp] lemma State.goto_resumptions : (s.goto c p).resumptions = s.resumptions := rfl

namespace Sound

omit [DecidableEq ι] in
/-- Whoever is not suspended is nowhere. -/
lemma not_mem_place (h : Sound s) (hc : s.pc c ≠ .suspended) (q : Option ι) : c ∉ s.place q :=
  fun hmem => hc (h.placed.of_mem hmem)

/-- The suspended coroutines after a move of `c`, which is not suspended before or after. -/
lemma placed_goto (h : Sound s) (hc : s.pc c ≠ .suspended) (hp : p ≠ .suspended) :
    Placed s.place fun d => Function.update s.pc c p d = .suspended := by
  refine h.placed.congr (fun _ => rfl) fun d => ?_
  rcases eq_or_ne d c with rfl | hd
  · simp [hc, hp]
  · simp [hd]

/-- A move of `c` that leaves what it holds where it is. -/
lemma goto (h : Sound s) (hchain : p.Chain s.mNext (s.sets c).left) (hprep : p.Prepared (s.mNext c))
    (hc : s.pc c ≠ .suspended) (hp : p ≠ .suspended) : Sound (s.goto c p) where
  list := h.list
  chain := (Function.forall_update_iff s.pc fun d (q : Pc ι) => q.Chain s.mNext (s.sets d).left).mpr
    ⟨hchain, fun d _ => h.chain d⟩
  prepared := (Function.forall_update_iff s.pc fun d (q : Pc ι) => q.Prepared (s.mNext d)).mpr
    ⟨hprep, fun d _ => h.prepared d⟩
  placed := h.placed_goto hc hp

/-- A coroutine that is about to insert its awaiter writes the `m_next` of it. -/
lemma link (h : Sound s) {old : Word ι} (hc : s.pc c = .suspendLink old) :
    Sound { s.goto c (.suspendExchange old) with
      mNext := Function.update s.mNext c old.pointer } := by
  have hsusp : s.pc c ≠ .suspended := by simp [hc]
  have hprep := h.prepared c
  have hchain := h.chain c
  rw [hc] at hprep hchain
  constructor
  · exact h.list.update (h.not_mem_place hsusp none) _
  · refine (Function.forall_update_iff s.pc fun d (q : Pc ι) =>
      q.Chain (Function.update s.mNext c old.pointer) (s.sets d).left).mpr ⟨hchain, ?_⟩
    exact fun d _ => (h.chain d).update (h.not_mem_place hsusp (some d)) _
  · refine (Function.forall_update_iff s.pc fun d (q : Pc ι) =>
      q.Prepared (Function.update s.mNext c old.pointer d)).mpr ⟨⟨hprep, by simp⟩, ?_⟩
    intro d hd
    simpa [hd] using h.prepared d
  · exact h.placed_goto hsusp nofun

/-- A coroutine inserts its awaiter. -/
lemma insert (h : Sound s) (hc : s.pc c = .suspendExchange s.mState) : Sound (insert s c) := by
  have hprep := h.prepared c
  have hchain := h.chain c
  rw [hc] at hprep hchain
  constructor
  · simp only [Event.insert, List.reverse_append, List.reverse_singleton, List.singleton_append]
    refine ⟨rfl, ?_⟩
    change Linked s.mNext (s.mNext c) s.listed.reverse
    rw [hprep.2]
    exact h.list
  · exact (Function.forall_update_iff s.pc fun d (q : Pc ι) =>
      q.Chain s.mNext (s.sets d).left).mpr ⟨hchain, fun d _ => h.chain d⟩
  · exact (Function.forall_update_iff s.pc fun d (q : Pc ι) =>
      q.Prepared (s.mNext d)).mpr ⟨trivial, fun d _ => h.prepared d⟩
  · refine h.placed.enter (p := none) (x := c) (by simp [hc]) ?_ ?_ ?_
    · simp [State.place, Event.insert]
    · intro q hq
      cases q with
      | none => exact (hq rfl).elim
      | some d => rfl
    · intro d
      rcases eq_or_ne d c with rfl | hd
      · simp [Event.insert]
      · simp [Event.insert, hd]

/-- How a `set` finds the list that it has detached. -/
lemma chain_first (h : Sound s) (r : Resumer) (policy : ResumeOrderPolicy) :
    Pc.Chain s.mNext (policy.order s.listed)
      (if s.mState = .this then .running else policy.first r s.mState.pointer) := by
  split_ifs with hset
  · have hlist := h.list
    rw [hset] at hlist
    have hempty : s.listed = [] := by simpa [Word.pointer] using hlist
    cases policy <;> simp [hempty, Pc.Chain]
  · cases policy <;> exact h.list

variable {r : Resumer}

/-- A `set` detaches the list. -/
lemma setExchange (h : Sound s) {policy : ResumeOrderPolicy}
    (hc : s.pc c = .setExchange r policy) : Sound (setExchange s c r policy) := by
  have hempty : (s.sets c).left = [] := by
    have hchain := h.chain c
    rwa [hc] at hchain
  have hfirst : (if s.mState = .this then .running else policy.first r s.mState.pointer) ≠
      (.suspended : Pc ι) := by
    split_ifs
    · nofun
    · cases policy <;> nofun
  constructor
  · exact rfl
  · intro d
    rcases eq_or_ne d c with rfl | hd
    · simpa [Event.setExchange, SetCall.left] using h.chain_first r policy
    · simpa [Event.setExchange, hd] using h.chain d
  · refine (Function.forall_update_iff s.pc fun d (q : Pc ι) => q.Prepared (s.mNext d)).mpr
      ⟨?_, fun d _ => h.prepared d⟩
    split_ifs
    · trivial
    · cases policy <;> trivial
  · refine h.placed.pass (p := none) (q := some c) (by simp) ?_ ?_ ?_
    · have hperm : (policy.order s.listed).Perm s.listed.reverse := by
        cases policy
        · exact List.Perm.refl _
        · exact (List.reverse_perm _).symm
      rw [show s.place (some c) = [] from hempty, List.append_nil]
      simpa [State.place, Event.setExchange, SetCall.left] using hperm
    · intro q hnone hsome
      cases q with
      | none => exact (hnone rfl).elim
      | some d =>
        have hd : d ≠ c := fun hdc => hsome (congrArg some hdc)
        simp [State.place, Event.setExchange, hd]
    · intro d
      rcases eq_or_ne d c with rfl | hd
      · simpa [Event.setExchange, hc] using hfirst
      · simp [Event.setExchange, hd]

/-- One turn of the reversal. -/
lemma relink (h : Sound s) {x : ι} {prev next : Option ι}
    (hc : s.pc c = .reverseLink r x prev next) :
    Sound { s.goto c (.reverseNext r next (some x)) with
      mNext := Function.update s.mNext x prev } := by
  have hchain := h.chain c
  rw [hc] at hchain
  obtain ⟨rfl, hrev⟩ := hchain
  have hmem : x ∈ s.place (some c) := hrev.mem
  have hx : s.pc x = .suspended := h.placed.of_mem hmem
  have hoff : ∀ q, q ≠ some c → x ∉ s.place q :=
    fun q hq hmem' => hq (h.placed.unique q (some c) x hmem' hmem)
  constructor
  · exact h.list.update (hoff none (by simp)) _
  · refine (Function.forall_update_iff s.pc fun d (q : Pc ι) =>
      q.Chain (Function.update s.mNext x prev) (s.sets d).left).mpr ⟨?_, ?_⟩
    · exact hrev.turn (h.placed.nodup (some c))
    · exact fun d hd => (h.chain d).update (hoff (some d) (by simpa using hd)) _
  · refine (Function.forall_update_iff s.pc fun d (q : Pc ι) =>
      q.Prepared (Function.update s.mNext x prev d)).mpr ⟨trivial, ?_⟩
    intro d _
    rcases eq_or_ne d x with rfl | hd
    · rw [hx]
      trivial
    · simpa [hd] using h.prepared d
  · exact h.placed_goto (by simp [hc]) nofun

omit [DecidableEq ι] in
/-- The awaiter that a `set` is about to resume. -/
lemma resuming (h : Sound s) {w : ι} {next : Option ι}
    (hc : s.pc c = .resume r w next) :
    s.pc w = .suspended ∧ ∃ l, (s.sets c).left = w :: l ∧ Linked s.mNext next l := by
  have hchain := h.chain c
  rw [hc] at hchain
  obtain ⟨rfl, hl⟩ := hchain
  obtain ⟨l, hleft, hl⟩ := Linked.some_iff.mp hl
  have hmem : w ∈ s.place (some c) := by simp [State.place, hleft]
  exact ⟨h.placed.of_mem hmem, l, hleft, hl⟩

/-- A `set` resumes an awaiter. -/
lemma resume (h : Sound s) {w : ι} {next : Option ι}
    (hc : s.pc c = .resume r w next) : Sound (resume s c r w next) := by
  obtain ⟨hw, l, hleft, hl⟩ := h.resuming hc
  have hwc : w ≠ c := by
    rintro rfl
    simp [hc] at hw
  have hnew := SetCall.left_resumed hleft
  have hr : r.resumed ≠ (.suspended : Pc ι) := by cases r <;> exact nofun
  constructor
  · exact h.list
  · intro d
    rcases eq_or_ne d c with rfl | hd
    · simpa [Event.resume, Pc.Chain, hnew] using hl
    · rcases eq_or_ne d w with rfl | hdw
      · have hempty := h.chain d
        rw [hw] at hempty
        cases r <;> simpa [Event.resume, hd, Resumer.resumed, Pc.Chain] using hempty
      · simpa [Event.resume, hd, hdw] using h.chain d
  · intro d
    rcases eq_or_ne d c with rfl | hd
    · simp [Event.resume]
    · rcases eq_or_ne d w with rfl | hdw
      · cases r <;> simp [Event.resume, hd, Resumer.resumed]
      · simpa [Event.resume, hd, hdw] using h.prepared d
  · refine h.placed.leave (p := some c) (x := w) ?_ ?_ ?_
    · simp [State.place, Event.resume, hleft, hnew]
    · intro q hq
      cases q with
      | none => rfl
      | some d =>
        have hd : d ≠ c := fun hdc => hq (congrArg some hdc)
        simp [State.place, Event.resume, hd]
    · intro d
      rcases eq_or_ne d c with rfl | hd
      · simp [Event.resume, hc]
      · rcases eq_or_ne d w with rfl | hdw
        · simp [Event.resume, hd, hr]
        · simp [Event.resume, hd, hdw]

/-- `reset` leaves the awaiters alone. -/
lemma reset (h : Sound s) (hc : s.pc c = .resetExchange) : Sound (reset s c) := by
  have hchain := h.chain c
  rw [hc] at hchain
  have hgoto : Sound (s.goto c .running) := h.goto hchain trivial (by simp [hc]) nofun
  refine ⟨?_, hgoto.chain, hgoto.prepared, hgoto.placed⟩
  have hpointer : (Event.reset s c).mState.pointer = s.mState.pointer := by
    unfold Event.reset
    split_ifs with hset
    · rw [hset]
      rfl
    · rfl
  rw [hpointer]
  exact h.list

/-- Every transition keeps the lists in order. -/
lemma transition (h : Sound s) (ht : Transition s c t) : Sound t := by
  cases ht with
  | quiet hq =>
    exact h.goto (hq.chain (h.chain c)) hq.prepared hq.ne_suspended.1 hq.ne_suspended.2
  | link hc => exact h.link hc
  | insert hc => exact h.insert hc
  | set hc => exact h.setExchange hc
  | relink hc => exact h.relink hc
  | resume hc => exact h.resume hc
  | reset hc => exact h.reset hc

end Sound

/-- The lists are in order in every reachable state. -/
lemma sound_of_reachable {initiallySet : Bool} (h : (machine ι initiallySet).Reachable s) :
    Sound s := by
  refine h.invariant ?_ ?_
  · refine ⟨?_, fun _ => rfl, fun _ => trivial, ?_⟩
    · cases initiallySet <;> exact rfl
    · have hnone : ∀ q : Option ι, (start initiallySet).place q = [] := by rintro (_ | _) <;> rfl
      refine ⟨fun q => ?_, fun q _ x hx => ?_, fun x => ?_⟩
      · exact hnone q ▸ List.nodup_nil
      · simp [machine, hnone q] at hx
      · refine iff_of_false nofun ?_
        rintro ⟨q, hx⟩
        simp [machine, hnone q] at hx
  · intro s a t _ hs hstep
    exact hs.transition (step_transition hstep)

end Libcoro.Event
