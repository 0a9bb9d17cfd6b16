import Libcoro.AwaiterList.Stack

/-!
# The list of awaiters is a linearizable stack

`Refines s a` relates the list in memory to the stack on which the operations take effect at one
moment each: that of the successful compare-exchange, or of the load that has found the list empty.
Every step of the former is answered by one of the latter or by none (`simulation`).

A pop installs the `m_next` that it has read before its exchange.  As nobody else removes nodes, the
node that it has seen at the head is still on the list if the exchange succeeds, and has never left
it; and `m_next` of a node on the list is written by nobody.
-/

namespace Libcoro.AwaiterStack

open Foundations

variable {τ κ ν : Type*}

/-! ## The abstraction relation -/

/-- The thread is inside a pop or a `pop_all`. -/
@[simp] def Pc.Removing : Pc ν → Prop
  | .popLoad | .popNext _ | .popExchange _ _ | .popped _ => True
  | .popAllLoad | .popAllExchange _ | .poppedAll _ => True
  | _ => False

/-- What a control point stands for, when the `m_next` fields are `next` and the stack is `l`. -/
inductive Abstracts (next : ν → Option ν) (l : List ν) :
    Pc ν → Status (Operation ν) (Result ν) → Prop
  | idle : Abstracts next l .idle .idle
  | pushLoad {x : ν} : Abstracts next l (.pushLoad x) (.called (.push x))
  | pushLink {x : ν} {p : Option ν} : Abstracts next l (.pushLink x p) (.called (.push x))
  | pushExchange {x : ν} {p : Option ν} : next x = p →
      Abstracts next l (.pushExchange x p) (.called (.push x))
  | pushed {x : ν} : Abstracts next l .pushed (.committed (.push x) .done)
  | popLoad : Abstracts next l .popLoad (.called .pop)
  | popNext {w : ν} : w ∈ l → Abstracts next l (.popNext w) (.called .pop)
  | popExchange {w : ν} {p : Option ν} : w ∈ l → next w = p →
      Abstracts next l (.popExchange w p) (.called .pop)
  | popped {w : Option ν} : Abstracts next l (.popped w) (.committed .pop (.node w))
  | popAllLoad : Abstracts next l .popAllLoad (.called .popAll)
  | popAllExchange {h : ν} : Abstracts next l (.popAllExchange h) (.called .popAll)
  | poppedAll {h : Option ν} {ws : List ν} : Linked next h ws →
      Abstracts next l (.poppedAll h) (.committed .popAll (.nodes ws))

/-- The operation that a thread is inside of and that has not taken effect. -/
def Pc.operation : Pc ν → Option (Operation ν)
  | .pushLoad x | .pushLink x _ | .pushExchange x _ => some (.push x)
  | .popLoad | .popNext _ | .popExchange _ _ => some .pop
  | .popAllLoad | .popAllExchange _ => some .popAll
  | .idle | .pushed | .popped _ | .poppedAll _ => none

/-- What a variable holds is the list `l`, or a reversal that will end in the reverse of it and has
taken `n` steps. -/
@[simp] def Held.Heads (next : ν → Option ν) (l : List ν) (n : ℕ) : Held ν → Prop
  | .nothing => l = []
  | .list head => Linked next head l
  | .reading curr prev => ∃ m, ReversingAt next (some curr) prev l.reverse m ∧ n = 2 * m
  | .writing curr prev p =>
    ∃ m, ReversingAt next (some curr) prev l.reverse m ∧ next curr = p ∧ n = 2 * m + 1

/-- The nodes that an operation has in hand: the one to be pushed, or those that it has removed. -/
def hand : Status (Operation ν) (Result ν) → List ν
  | .called (.push x) => [x]
  | .committed _ (.node (some x)) => [x]
  | .committed _ (.nodes l) => l
  | _ => []

/-- Where a node can be: on the stack, in the hand of a thread, or on a list that a variable
holds. -/
def places (l : List ν) (status : τ → Status (Operation ν) (Result ν)) (contents : κ → List ν) :
    Option (τ ⊕ κ) → List ν
  | none => l
  | some (.inl t) => hand (status t)
  | some (.inr k) => contents k

/-- A thread has only its own hand. -/
lemma places_update_of_ne [DecidableEq τ] {l : List ν}
    {status : τ → Status (Operation ν) (Result ν)} {contents : κ → List ν} {t : τ}
    {st : Status (Operation ν) (Result ν)} {q : Option (τ ⊕ κ)}
    (hq : q ≠ some (.inl t)) :
    places l (Function.update status t st) contents q = places l status contents q := by
  cases q with
  | none => rfl
  | some q =>
    cases q with
    | inl u =>
      have hu : u ≠ t := fun hut => hq (by rw [hut])
      simp [places, hu]
    | inr k => rfl

/-- A variable holds only its own list. -/
lemma places_hold_of_ne [DecidableEq κ] {l m : List ν}
    {status : τ → Status (Operation ν) (Result ν)} {contents : κ → List ν} {k : κ}
    {q : Option (τ ⊕ κ)} (hq : q ≠ some (.inr k)) :
    places l status (Function.update contents k m) q = places l status contents q := by
  cases q with
  | none => rfl
  | some q =>
    cases q with
    | inl u => rfl
    | inr j =>
      have hj : j ≠ k := fun hjk => hq (by rw [hjk])
      simp [places, hj]

/-- The list in memory implements the stack. -/
structure Refines (s : State τ κ ν) (a : Atomic τ (Operation ν) (Result ν) (List ν)) : Prop where
  history : a.history = s.history
  finished : a.finished = s.finished
  list : Linked s.mNext s.list a.value
  pc : ∀ t, Abstracts s.mNext a.value (s.pc t) (a.status t)
  remover : ∀ t, (s.pc t).Removing → s.remover = some t
  held : ∀ k, (s.held k).Heads s.mNext (s.contents k) (s.turns k)
  placed : Placed (places a.value a.status s.contents) fun x => s.free x = false

variable {s s' : State τ κ ν} {a : Atomic τ (Operation ν) (Result ν) (List ν)} {t : τ} {k : κ}
  {p : Pc ν}

/-! ## What a control point says -/

namespace Abstracts

variable {next : ν → Option ν} {l : List ν} {st : Status (Operation ν) (Result ν)}

lemma called (h : Abstracts next l p st) {op : Operation ν} (hp : p.operation = some op) :
    st = .called op := by
  cases h <;> simp_all [Pc.operation]

lemma eq_idle (h : Abstracts next l .idle st) : st = .idle := by
  cases h
  rfl

lemma exists_pushed (h : Abstracts next l .pushed st) : ∃ x, st = .committed (.push x) .done := by
  cases h
  exact ⟨_, rfl⟩

lemma eq_popped {w : Option ν} (h : Abstracts next l (.popped w) st) :
    st = .committed .pop (.node w) := by
  cases h
  rfl

lemma exists_poppedAll {head : Option ν} (h : Abstracts next l (.poppedAll head) st) :
    ∃ ws, st = .committed .popAll (.nodes ws) ∧ Linked next head ws := by
  cases h with
  | poppedAll hws => exact ⟨_, rfl, hws⟩

lemma next_of_pushExchange {x : ν} {v : Option ν} (h : Abstracts next l (.pushExchange x v) st) :
    next x = v := by
  cases h with
  | pushExchange hv => exact hv

lemma mem_of_popNext {w : ν} (h : Abstracts next l (.popNext w) st) : w ∈ l := by
  cases h with
  | popNext hw => exact hw

lemma next_of_popExchange {w : ν} {v : Option ν} (h : Abstracts next l (.popExchange w v) st) :
    next w = v := by
  cases h with
  | popExchange _ hv => exact hv

end Abstracts

/-- An operation that takes effect moves nodes between the stack and the hand of its thread. -/
lemma apply_perm (l : List ν) (op : Operation ν) :
    (((stack ν).apply l op).1 ++ hand (.committed op ((stack ν).apply l op).2)).Perm
      (l ++ hand (.called op)) := by
  cases op with
  | push x => simpa [stack, hand] using (List.perm_append_singleton x l).symm
  | pop =>
    cases l with
    | nil | cons x l => simp [stack, hand]
  | popAll => simp [stack, hand]

/-! ## Writing `m_next` -/

section Write

variable [DecidableEq ν] {next : ν → Option ν} {l : List ν} {n : ℕ} {x : ν} {v : Option ν}

/-- A control point does not depend on `m_next` of a node that is neither on the stack nor in the
hand of its thread. -/
lemma Abstracts.update {st : Status (Operation ν) (Result ν)} (h : Abstracts next l p st)
    (hl : x ∉ l) (hx : x ∉ hand st) : Abstracts (Function.update next x v) l p st := by
  cases h with
  | idle => exact .idle
  | pushLoad => exact .pushLoad
  | pushLink => exact .pushLink
  | @pushExchange y p hy =>
    have hne : y ≠ x := fun hyx => hx (by simp [hand, hyx])
    exact .pushExchange (by rwa [Function.update_of_ne hne])
  | pushed => exact .pushed
  | popLoad => exact .popLoad
  | popNext hw => exact .popNext hw
  | @popExchange w p hw hp =>
    have hne : w ≠ x := fun hwx => hl (hwx ▸ hw)
    exact .popExchange hw (by rwa [Function.update_of_ne hne])
  | popped => exact .popped
  | popAllLoad => exact .popAllLoad
  | popAllExchange => exact .popAllExchange
  | poppedAll hws => exact .poppedAll (hws.update hx v)

/-- What a variable holds does not depend on `m_next` of other nodes. -/
lemma Held.Heads.update {y : Held ν} (h : y.Heads next l n) (hx : x ∉ l) :
    y.Heads (Function.update next x v) l n := by
  have hx' : x ∉ l.reverse := by simpa using hx
  cases y with
  | nothing => exact h
  | list head => exact Linked.update h hx v
  | reading curr prev =>
    obtain ⟨m, hr, hn⟩ := h
    exact ⟨m, hr.update hx' v, hn⟩
  | writing curr prev p =>
    obtain ⟨m, hr, hp, hn⟩ := h
    have hne : curr ≠ x := fun hcx => hx' (hcx ▸ hr.mem)
    exact ⟨m, hr.update hx' v, by rwa [Function.update_of_ne hne], hn⟩

end Write

/-- The stack changes, and who removes nodes finds those that it has seen. -/
lemma Abstracts.restack {next : ν → Option ν} {l l' : List ν}
    {st : Status (Operation ν) (Result ν)} (h : Abstracts next l p st)
    (hl : p.Removing → ∀ w ∈ l, w ∈ l') : Abstracts next l' p st := by
  cases h with
  | idle => exact .idle
  | pushLoad => exact .pushLoad
  | pushLink => exact .pushLink
  | pushExchange hp => exact .pushExchange hp
  | pushed => exact .pushed
  | popLoad => exact .popLoad
  | popNext hw => exact .popNext (hl trivial _ hw)
  | popExchange hw hp => exact .popExchange (hl trivial _ hw) hp
  | popped => exact .popped
  | popAllLoad => exact .popAllLoad
  | popAllExchange => exact .popAllExchange
  | poppedAll hws => exact .poppedAll hws

/-- The stack answers with a step or by standing still. -/
def Answers [DecidableEq τ] (s' : State τ κ ν) (a : Atomic τ (Operation ν) (Result ν) (List ν)) :
    Prop :=
  Refines s' a ∨ ∃ b a', (stack ν).step a b = some a' ∧ Refines s' a'

namespace Refines

/-- Only one thread removes nodes. -/
lemma not_removing (h : Refines s a) (ht : (s.pc t).Removing) {u : τ} (hu : u ≠ t) :
    ¬ (s.pc u).Removing := by
  intro hr
  exact hu (Option.some.inj ((h.remover u hr).symm.trans (h.remover t ht)))

variable [DecidableEq τ]

/-- One thread moves, and the others stay where they are. -/
lemma abstracts_update {next : ν → Option ν} {l : List ν} {pc : τ → Pc ν}
    {status : τ → Status (Operation ν) (Result ν)} {st : Status (Operation ν) (Result ν)}
    (hp : Abstracts next l p st) (hother : ∀ u, u ≠ t → Abstracts next l (pc u) (status u))
    (u : τ) :
    Abstracts next l (Function.update pc t p u) (Function.update status t st u) := by
  rcases eq_or_ne u t with rfl | hu
  · rwa [Function.update_self, Function.update_self]
  · rw [Function.update_of_ne hu, Function.update_of_ne hu]
    exact hother u hu

variable {remover : Option τ}

/-- One thread moves, and who removes nodes is known. -/
lemma removing_update {pc : τ → Pc ν} (hp : p.Removing → remover = some t)
    (hother : ∀ u, u ≠ t → (pc u).Removing → remover = some u) (u : τ) :
    (Function.update pc t p u).Removing → remover = some u := by
  rcases eq_or_ne u t with rfl | hu
  · rwa [Function.update_self]
  · rw [Function.update_of_ne hu]
    exact hother u hu

/-- The thread `t` moves inside of its function. -/
lemma goto (h : Refines s a) (hp : Abstracts s.mNext a.value p (a.status t))
    (hr : p.Removing → s.remover = some t) : Refines (s.goto t p) a := by
  have hpc := abstracts_update (t := t) hp fun u _ => h.pc u
  rw [Function.update_eq_self] at hpc
  exact ⟨h.history, h.finished, h.list, hpc, removing_update hr fun u _ => h.remover u, h.held,
    h.placed⟩

variable {op : Operation ν}

/-- The operation of `t` takes effect, and with it the list changes. -/
lemma commit (h : Refines s a) {head : Option ν} (hop : a.status t = .called op)
    (hlist : Linked s.mNext head ((stack ν).apply a.value op).1)
    (hp : Abstracts s.mNext ((stack ν).apply a.value op).1 p
      (.committed op ((stack ν).apply a.value op).2))
    (hr : p.Removing → s.remover = some t)
    (hother : ∀ u, u ≠ t → (s.pc u).Removing →
      ∀ w ∈ a.value, w ∈ ((stack ν).apply a.value op).1) :
    Answers { s.goto t p with list := head } a := by
  refine Or.inr ⟨.commit t, _, Object.step_commit hop, h.history, h.finished, hlist,
    abstracts_update hp fun u hu => (h.pc u).restack (hother u hu),
    removing_update hr fun u _ => h.remover u, h.held, ?_⟩
  refine h.placed.pass (p := none) (q := some (.inl t)) nofun ?_ (fun q hn ht => ?_)
    fun _ => Iff.rfl
  · simpa [places, hop] using apply_perm a.value op
  · rw [places_update_of_ne ht]
    cases q with
    | none => exact (hn rfl).elim
    | some q => cases q <;> rfl

/-- The pop or `pop_all` of `t` takes effect.  Nobody else has seen a node that it removes. -/
lemma commit_removal (h : Refines s a) {head : Option ν}
    (hop : a.status t = .called op) (ht : (s.pc t).Removing)
    (hlist : Linked s.mNext head ((stack ν).apply a.value op).1)
    (hp : Abstracts s.mNext ((stack ν).apply a.value op).1 p
      (.committed op ((stack ν).apply a.value op).2)) :
    Answers { s.goto t p with list := head } a :=
  h.commit hop hlist hp (fun _ => h.remover t ht) fun _ hu hr => (h.not_removing ht hu hr).elim

/-- The exchange of a push finds what it expects. -/
lemma exchange_push (h : Refines s a) {x : ν} (hop : a.status t = .called (.push x))
    (hnext : s.mNext x = s.list) : Answers { s.goto t .pushed with list := some x } a := by
  refine h.commit hop ⟨rfl, ?_⟩ .pushed nofun fun _ _ _ _ hw => List.mem_cons_of_mem x hw
  rw [hnext]
  exact h.list

/-- The exchange of a pop finds what it expects, and installs the `m_next` that is there. -/
lemma exchange_pop (h : Refines s a) {w : ν} (hop : a.status t = .called .pop)
    (ht : (s.pc t).Removing) (hw : s.list = some w) :
    Answers { s.goto t (.popped (some w)) with list := s.mNext w } a := by
  obtain ⟨l, hl, htail⟩ := Linked.some_iff.mp (hw ▸ h.list)
  refine h.commit_removal hop ht ?_ ?_
  · rw [hl]
    exact htail
  · rw [hl]
    exact .popped

/-- The exchange of a `pop_all` finds what it expects. -/
lemma exchange_popAll (h : Refines s a) {head : ν} (hop : a.status t = .called .popAll)
    (ht : (s.pc t).Removing) (hhead : s.list = some head) :
    Answers { s.goto t (.poppedAll (some head)) with list := none } a := by
  have hall : Linked s.mNext (some head) a.value := hhead ▸ h.list
  exact h.commit_removal hop ht rfl (.poppedAll hall)

/-- The thread `t` returns, and the nodes that it has in hand go elsewhere. -/
lemma returns (h : Refines s a) {r : Result ν} {free : ν → Bool}
    {held : κ → Held ν} {contents : κ → List ν}
    (hop : a.status t = .committed op r)
    (hremover : ∀ u, u ≠ t → (s.pc u).Removing → remover = some u)
    (hheld : ∀ k, (held k).Heads s.mNext (contents k) (s.turns k))
    (hplaced : Placed (places a.value (Function.update a.status t .idle) contents)
      fun x => free x = false) :
    Answers { s.return t r with
      free := free, held := held, contents := contents, remover := remover } a := by
  refine Or.inr ⟨.ret t, _, Object.step_ret hop, ?_, ?_, h.list,
    abstracts_update .idle fun u _ => h.pc u, removing_update nofun hremover, hheld, hplaced⟩
  · simp only [State.return, State.goto, h.history, h.finished]
  · simp only [State.return, State.goto, h.finished]

/-- The thread `t` calls an operation, with the node to be pushed in hand. -/
lemma calls (h : Refines s a) {free : ν → Bool}
    (hidle : a.status t = .idle) (hremover : ∀ u, u ≠ t → (s.pc u).Removing → remover = some u)
    (hr : op.entry.Removing → remover = some t)
    (hplaced : Placed (places a.value (Function.update a.status t (.called op)) s.contents)
      fun x => free x = false) :
    Answers { s.call t op with free := free, remover := remover } a := by
  have hentry : Abstracts s.mNext a.value op.entry (.called op) := by
    cases op with
    | push x => exact .pushLoad
    | pop => exact .popLoad
    | popAll => exact .popAllLoad
  refine Or.inr ⟨.call t op, _, Object.step_call hidle, ?_, h.finished, h.list,
    abstracts_update hentry fun u _ => h.pc u, removing_update hr hremover, h.held, hplaced⟩
  simp only [State.call, State.goto, h.history, h.finished]

/-- The test of the loop of a pop. -/
lemma popTest (h : Refines s a) (hop : a.status t = .called .pop) (ht : (s.pc t).Removing) :
    Answers (popTest s t) a := by
  unfold AwaiterStack.popTest
  split
  · next hnone =>
    -- the list is empty, and the pop takes effect
    have hnil : a.value = [] := by simpa [hnone] using h.list
    have hlist : Linked s.mNext s.list ((stack ν).apply a.value .pop).1 := by
      simp [stack, hnil, hnone]
    have hpopped : Abstracts s.mNext ((stack ν).apply a.value .pop).1 (.popped none)
        (.committed .pop ((stack ν).apply a.value .pop).2) := by
      rw [hnil]
      exact .popped
    exact h.commit_removal hop ht hlist hpopped
  · next w hsome =>
    have hw : w ∈ a.value := by
      obtain ⟨l, hl, -⟩ := Linked.some_iff.mp (hsome ▸ h.list)
      simp [hl]
    exact Or.inl (h.goto (by rw [hop]; exact .popNext hw) fun _ => h.remover t ht)

/-- The test of the loop of a `pop_all`. -/
lemma popAllTest (h : Refines s a) (hop : a.status t = .called .popAll) (ht : (s.pc t).Removing) :
    Answers (popAllTest s t) a := by
  unfold AwaiterStack.popAllTest
  split
  · next hnone =>
    have hnil : a.value = [] := by simpa [hnone] using h.list
    have hlist : Linked s.mNext s.list ((stack ν).apply a.value .popAll).1 := by
      simp [stack, hnone]
    have hpopped : Abstracts s.mNext ((stack ν).apply a.value .popAll).1 (.poppedAll none)
        (.committed .popAll ((stack ν).apply a.value .popAll).2) :=
      .poppedAll (by simp [hnil])
    exact h.commit_removal hop ht hlist hpopped
  · next w hsome =>
    exact Or.inl (h.goto (by rw [hop]; exact .popAllExchange) fun _ => h.remover t ht)

variable [DecidableEq ν]

omit [DecidableEq τ] in
/-- Somebody writes `m_next` of a node in the place `q`, on which only the owner of the place
depends. -/
lemma writes (h : Refines s a) {q : Option (τ ⊕ κ)} {x : ν}
    (hx : x ∈ places a.value a.status s.contents q) (hq : q ≠ none) (v : Option ν) :
    Linked (Function.update s.mNext x v) s.list a.value ∧
    (∀ u, q ≠ some (.inl u) →
      Abstracts (Function.update s.mNext x v) a.value (s.pc u) (a.status u)) ∧
    ∀ k, q ≠ some (.inr k) →
      (s.held k).Heads (Function.update s.mNext x v) (s.contents k) (s.turns k) := by
  have hnot : ∀ q', q' ≠ q → x ∉ places a.value a.status s.contents q' := fun q' hne hmem =>
    hne (h.placed.unique q' q x hmem hx)
  have hstack : x ∉ a.value := hnot none hq.symm
  exact ⟨h.list.update hstack v, fun u hu => (h.pc u).update hstack (hnot (some (.inl u)) hu.symm),
    fun k hk => (h.held k).update (hnot (some (.inr k)) hk.symm)⟩

/-- A push writes `m_next` of its node. -/
lemma link (h : Refines s a) {x : ν} {v : Option ν} (hop : a.status t = .called (.push x)) :
    Refines { s.goto t (.pushExchange x v) with mNext := Function.update s.mNext x v } a := by
  have hx : x ∈ places a.value a.status s.contents (some (.inl t)) := by simp [places, hop, hand]
  obtain ⟨hlist, hpc, hheld⟩ := h.writes hx nofun v
  have hexchange : Abstracts (Function.update s.mNext x v) a.value (.pushExchange x v)
      (a.status t) := by
    rw [hop]
    exact .pushExchange (Function.update_self ..)
  have hpcs := abstracts_update hexchange fun u hu => hpc u fun heq => hu (by simpa using heq.symm)
  rw [Function.update_eq_self] at hpcs
  exact ⟨h.history, h.finished, hlist, hpcs, removing_update nofun fun u _ => h.remover u,
    fun k => hheld k nofun, h.placed⟩

end Refines

/-! ## One step -/

namespace Refines

/-- The status of a thread whose control point is known. -/
lemma called (h : Refines s a) {op : Operation ν} (ht : s.pc t = p) (hp : p.operation = some op) :
    a.status t = .called op :=
  (h.pc t).called (ht ▸ hp)

section Threads

variable [DecidableEq τ]

/-- The thread `t` has nothing in hand, before and after. -/
lemma placed_update (h : Refines s a) {st : Status (Operation ν) (Result ν)}
    (hold : hand (a.status t) = []) (hnew : hand st = []) :
    Placed (places a.value (Function.update a.status t st) s.contents)
      fun x => s.free x = false := by
  refine h.placed.congr (fun q => ?_) fun _ => Iff.rfl
  by_cases hq : q = some (.inl t)
  · subst hq
    simp [places, hold, hnew]
  · exact places_update_of_ne hq

/-- The exchange of `t` fails without a reason. -/
lemma spurious_step (h : Refines s a) (hstep : spurious s t = some s') : Answers s' a := by
  unfold spurious at hstep
  split at hstep <;> rename_i hc
  · cases hstep
    refine Or.inl (h.goto ?_ nofun)
    rw [h.called hc rfl]
    exact .pushLink
  · cases hstep
    exact h.popTest (h.called hc rfl) (by simp [hc])
  · cases hstep
    exact h.popAllTest (h.called hc rfl) (by simp [hc])
  · cases hstep

variable [DecidableEq ν]

/-- The thread `t` calls a function. -/
lemma call_step (h : Refines s a) {op : Operation ν} (hstep : call s t op = some s') :
    Answers s' a := by
  unfold AwaiterStack.call at hstep
  by_cases hidle : s.pc t = .idle
  · rw [if_pos hidle] at hstep
    have hst : a.status t = .idle := (hidle ▸ h.pc t).eq_idle
    -- a call of a pop or a `pop_all`
    have hremoval : ∀ op, hand (.called op : Status (Operation ν) (Result ν)) = [] →
        s.remover = none → Answers { s.call t op with remover := some t } a := by
      intro op hhand hnone
      refine h.calls hst (fun u _ hu => ?_) (fun _ => rfl)
        (h.placed_update (by rw [hst]; rfl) hhand)
      cases hnone.symm.trans (h.remover u hu)
    cases op with
    | push x =>
      dsimp only at hstep
      split_ifs at hstep with hfree
      cases hstep
      refine h.calls hst (fun u _ hu => h.remover u hu) nofun ?_
      refine h.placed.enter (p := some (.inl t)) (x := x) (by simp [hfree]) ?_
        (fun q hq => places_update_of_ne hq) fun y => ?_
      · simp [places, hst, hand]
      · rcases eq_or_ne y x with rfl | hy
        · simp
        · simp [hy]
    | pop =>
      dsimp only at hstep
      split_ifs at hstep with hnone
      cases hstep
      exact hremoval .pop rfl hnone
    | popAll =>
      dsimp only at hstep
      split_ifs at hstep with hnone
      cases hstep
      exact hremoval .popAll rfl hnone
  · rw [if_neg hidle] at hstep
    cases hstep

/-- The thread `t` returns from a pop, and the node is free again. -/
lemma return_pop (h : Refines s a) {w : Option ν} (hst : a.status t = .committed .pop (.node w))
    (ht : (s.pc t).Removing) :
    Answers { (s.return t (.node w)).release w with remover := none } a := by
  have hother : ∀ u, u ≠ t → (s.pc u).Removing → (none : Option τ) = some u :=
    fun u hu hr => (h.not_removing ht hu hr).elim
  cases w with
  | none => exact h.returns hst hother h.held (h.placed_update (by rw [hst]; rfl) rfl)
  | some x =>
    refine h.returns hst hother h.held ?_
    refine h.placed.leave (p := some (.inl t)) (x := x) ?_ (fun q hq => places_update_of_ne hq)
      fun y => ?_
    · simp [places, hst, hand]
    · rcases eq_or_ne y x with rfl | hy
      · simp [State.release]
      · simp [State.release, State.return, State.goto, hy]

/-- The thread `t` takes its next step. -/
lemma advance_step (h : Refines s a) (hstep : advance s t = some s') : Answers s' a := by
  have hpc := h.pc t
  unfold advance at hstep
  split at hstep <;> rename_i hc
  · -- pushLoad
    cases hstep
    refine Or.inl (h.goto ?_ nofun)
    rw [h.called hc rfl]
    exact .pushLink
  · -- pushLink
    cases hstep
    exact Or.inl (h.link (h.called hc rfl))
  · -- pushExchange
    have hop := h.called hc rfl
    split_ifs at hstep with hcas
    · cases hstep
      exact h.exchange_push hop ((hc ▸ hpc).next_of_pushExchange.trans hcas.symm)
    · cases hstep
      refine Or.inl (h.goto ?_ nofun)
      rw [hop]
      exact .pushLink
  · -- pushed
    cases hstep
    obtain ⟨x, hx⟩ := (hc ▸ hpc).exists_pushed
    exact h.returns hx (fun u _ hu => h.remover u hu) h.held
      (h.placed_update (by rw [hx]; rfl) rfl)
  · -- popLoad
    cases hstep
    exact h.popTest (h.called hc rfl) (by simp [hc])
  · -- popNext
    cases hstep
    refine Or.inl (h.goto ?_ fun _ => h.remover t (by simp [hc]))
    rw [h.called hc rfl]
    exact .popExchange (hc ▸ hpc).mem_of_popNext rfl
  · -- popExchange
    have hop := h.called hc rfl
    have hr : (s.pc t).Removing := by simp [hc]
    split_ifs at hstep with hcas
    · cases hstep
      -- what was read before the exchange is still there
      have hnext := (hc ▸ hpc).next_of_popExchange
      rw [← hnext]
      exact h.exchange_pop hop hr hcas
    · cases hstep
      exact h.popTest hop hr
  · -- popped
    cases hstep
    exact h.return_pop (hc ▸ hpc).eq_popped (by simp [hc])
  · -- popAllLoad
    cases hstep
    exact h.popAllTest (h.called hc rfl) (by simp [hc])
  · -- popAllExchange
    have hop := h.called hc rfl
    have hr : (s.pc t).Removing := by simp [hc]
    split_ifs at hstep with hcas
    · cases hstep
      exact h.exchange_popAll hop hr hcas
    · cases hstep
      exact h.popAllTest hop hr
  · cases hstep
  · cases hstep

/-- The thread `t` returns from `pop_all`. -/
lemma returnAll_step [DecidableEq κ] (h : Refines s a) {l : List ν}
    (hstep : returnAll s t k l = some s') : Answers s' a := by
  unfold returnAll at hstep
  split at hstep
  · next head hc hk =>
    split_ifs at hstep with hl
    cases hstep
    have hr : (s.pc t).Removing := by simp [hc]
    obtain ⟨ws, hst, hws⟩ := (hc ▸ h.pc t).exists_poppedAll
    obtain rfl : ws = l := hws.unique hl
    have hempty : s.contents k = [] := by
      have hheld := h.held k
      rwa [hk] at hheld
    refine h.returns hst (fun u hu hu' => (h.not_removing hr hu hu').elim) (fun j => ?_) ?_
    · rcases eq_or_ne j k with rfl | hj
      · simpa [State.return, State.goto] using hl
      · simpa [State.return, State.goto, hj] using h.held j
    · refine h.placed.pass (p := some (.inl t)) (q := some (.inr k)) nofun ?_ (fun q ht hq => ?_)
        fun _ => Iff.rfl
      · simp [places, hst, hempty, hand]
      · exact (places_update_of_ne ht).trans (places_hold_of_ne hq)
  · cases hstep

end Threads

section Variables

variable [DecidableEq κ]

/-- Only what `k` holds changes, perhaps with `m_next` of nodes on it. -/
lemma rehold (h : Refines s a) {next : ν → Option ν} {x : Held ν} {l : List ν} {turns : κ → ℕ}
    {free : ν → Bool} (hlist : Linked next s.list a.value)
    (hpc : ∀ u, Abstracts next a.value (s.pc u) (a.status u))
    (hothers : ∀ j, j ≠ k → (s.held j).Heads next (s.contents j) (s.turns j))
    (hturns : ∀ j, j ≠ k → turns j = s.turns j) (hx : x.Heads next l (turns k))
    (hplaced : Placed (places a.value a.status (Function.update s.contents k l))
      fun x => free x = false) :
    Refines { s.hold k x l with mNext := next, turns := turns, free := free } a := by
  refine ⟨h.history, h.finished, hlist, hpc, h.remover, fun j => ?_, hplaced⟩
  rcases eq_or_ne j k with rfl | hj
  · simpa using hx
  · simpa [hj, hturns j hj] using hothers j hj

/-- The same nodes are in what `k` holds. -/
lemma placed_perm (h : Refines s a) {l : List ν} (hl : l.Perm (s.contents k)) :
    Placed (places a.value a.status (Function.update s.contents k l))
      fun x => s.free x = false := by
  refine h.placed.perm (fun q => ?_) fun _ => Iff.rfl
  by_cases hq : q = some (.inr k)
  · subst hq
    simpa [places] using hl
  · rw [places_hold_of_ne hq]

/-- A reversal of what `k` holds begins. -/
lemma reverse_step (h : Refines s a) (hstep : reverse s k = some s') : Refines s' a := by
  unfold reverse at hstep
  have hheld := h.held k
  split at hstep <;> rename_i hk
  · exact Option.some.inj hstep ▸ h
  · split_ifs at hstep
    · exact Option.some.inj hstep ▸ h
    · cases hstep
      rw [hk] at hheld
      refine h.rehold h.list h.pc (fun j _ => h.held j) (fun j hj => Function.update_of_ne hj _ _)
        ⟨0, .start hheld, by simp⟩ (h.placed_perm (.refl _))
  · cases hstep

variable [DecidableEq ν]

/-- A reversal of what `k` holds takes its next step. -/
lemma turn_step (h : Refines s a) (hstep : turn s k = some s') : Refines s' a := by
  unfold turn at hstep
  have hheld := h.held k
  split at hstep <;> rename_i hk
  · cases hstep
    rw [hk] at hheld
    obtain ⟨m, hm, hturns⟩ := hheld
    exact h.rehold h.list h.pc (fun j _ => h.held j) (fun j hj => Function.update_of_ne hj _ _)
      ⟨m, hm, rfl, by rw [Function.update_self, hturns]⟩ (h.placed_perm (.refl _))
  · next curr prev next =>
    rw [hk] at hheld
    obtain ⟨m, hm, hnext, hturns⟩ := hheld
    have hmem : curr ∈ s.contents k := by simpa using hm.mem
    obtain ⟨hlist, hpc, hothers⟩ := h.writes (q := some (.inr k)) hmem nofun prev
    have hdone := hm.turn (List.nodup_reverse.mpr (h.placed.nodup (some (.inr k))))
    rw [hnext] at hdone
    have hothers' : ∀ j, j ≠ k → (s.held j).Heads (Function.update s.mNext curr prev)
        (s.contents j) (s.turns j) := fun j hj => hothers j fun heq => hj (by simpa using heq.symm)
    cases next with
    | some x =>
      cases hstep
      refine h.rehold hlist (fun u => hpc u nofun) hothers'
        (fun j hj => Function.update_of_ne hj _ _) ⟨m + 1, hdone, ?_⟩ (h.placed_perm (.refl _))
      simp only [Function.update_self, hturns]
      omega
    | none =>
      cases hstep
      exact h.rehold hlist (fun u => hpc u nofun) hothers'
        (fun j hj => Function.update_of_ne hj _ _) hdone.finish
        (h.placed_perm (List.reverse_perm _))
  · cases hstep

/-- The first node is taken off what `k` holds. -/
lemma take_step (h : Refines s a) (hstep : take s k = some s') : Refines s' a := by
  unfold take at hstep
  have hheld := h.held k
  split at hstep <;> rename_i hk
  · cases hstep
    rw [hk] at hheld
    have hnil : s.contents k = [] := Linked.none_iff.mp hheld
    exact h.rehold h.list h.pc (fun j _ => h.held j) (fun _ _ => rfl) rfl
      (h.placed_perm (by rw [hnil]))
  · next x =>
    cases hstep
    rw [hk] at hheld
    obtain ⟨l, hl, htail⟩ := Linked.some_iff.mp hheld
    have hrest : Linked s.mNext (s.mNext x) (s.contents k).tail := by
      rw [hl]
      exact htail
    refine h.rehold h.list h.pc (fun j _ => h.held j) (fun _ _ => rfl) hrest ?_
    refine h.placed.leave (p := some (.inr k)) (x := x) ?_ (fun q hq => places_hold_of_ne hq)
      fun y => ?_
    · simp [places, hl]
    · rcases eq_or_ne y x with rfl | hy
      · simp
      · simp [hy]
  · cases hstep

end Variables

end Refines

/-- The list in memory is simulated by the stack. -/
lemma simulation [DecidableEq τ] [DecidableEq κ] [DecidableEq ν] :
    Machine.Simulation (machine τ κ ν) ((stack ν).machine τ) Refines where
  start := by
    have hempty : ∀ q : Option (τ ⊕ κ),
        places ([] : List ν) (fun _ => .idle) (fun _ => []) q = [] := by
      intro q
      match q with
      | none => rfl
      | some (.inl t) => rfl
      | some (.inr k) => rfl
    refine ⟨rfl, rfl, rfl, fun _ => .idle, nofun, fun _ => rfl, fun q => ?_, fun q q' x hx => ?_,
      fun x => ?_⟩
    · exact (hempty q).symm ▸ List.nodup_nil
    · exact absurd ((hempty q) ▸ hx) List.not_mem_nil
    · refine iff_of_false nofun ?_
      rintro ⟨q, hx⟩
      exact absurd ((hempty q) ▸ hx) List.not_mem_nil
  step := by
    intro s b s' a h hstep
    cases b with
    | call t op => exact h.call_step hstep
    | advance t => exact h.advance_step hstep
    | spurious t => exact h.spurious_step hstep
    | returnAll t k l => exact h.returnAll_step hstep
    | reverse k => exact Or.inl (h.reverse_step hstep)
    | turn k => exact Or.inl (h.turn_step hstep)
    | take k => exact Or.inl (h.take_step hstep)

/-! ## The whole history -/

/-- The nodes that an operation has pushed. -/
def pushed (e : Entry (τ × ℕ) (Operation ν) (Result ν)) : List ν :=
  hand (.called e.op)

/-- The nodes that an operation has removed. -/
def removed (e : Entry (τ × ℕ) (Operation ν) (Result ν)) : List ν :=
  hand (.committed e.op e.res)

open scoped List in
/-- In a sequential execution what has been pushed is what has been removed and what is still
there. -/
lemma pushed_perm {log : List (Entry (τ × ℕ) (Operation ν) (Result ν))} {l : List ν}
    (h : (stack ν).Runs log l) : (log.flatMap pushed).Perm (log.flatMap removed ++ l) := by
  induction h with
  | nil => exact .refl _
  | @snoc log l i op _ ih =>
    have happly := (apply_perm l op).symm
    simp only [List.flatMap_append, List.flatMap_singleton, pushed, removed]
    calc log.flatMap pushed ++ hand (.called op)
      _ ~ (log.flatMap removed ++ l) ++ hand (.called op) := ih.append_right _
      _ ~ log.flatMap removed ++ (l ++ hand (.called op)) := by rw [List.append_assoc]
      _ ~ log.flatMap removed ++ (((stack ν).apply l op).1 ++
          hand (.committed op ((stack ν).apply l op).2)) := happly.append_left _
      _ ~ log.flatMap removed ++ (hand (.committed op ((stack ν).apply l op).2) ++
          ((stack ν).apply l op).1) := List.perm_append_comm.append_left _
      _ ~ (log.flatMap removed ++ hand (.committed op ((stack ν).apply l op).2)) ++
          ((stack ν).apply l op).1 := by rw [List.append_assoc]

/-- A reversal is under way. -/
def Held.Reversing : Held ν → Prop
  | .reading _ _ => True
  | .writing _ _ _ => True
  | _ => False

/-- The sequential execution `log` explains what has happened to the list, and `l` is what it has
left. -/
structure Explains (s : State τ κ ν) (log : List (Entry (τ × ℕ) (Operation ν) (Result ν)))
    (l : List ν) : Prop where
  linearizes : Linearizes (stack ν) s.history log
  runs : (stack ν).Runs log l
  -- If all calls have returned, the execution has the same operations and results.
  completed : Completed s.history →
    ∀ i op r, ⟨i, op, r⟩ ∈ log ↔ .call i op ∈ s.history ∧ .ret i r ∈ s.history
  -- The list in memory is the stack, without a cycle.
  list : Linked s.mNext s.list l ∧ l.Nodup
  -- No node is lost, and none is removed more often than it was pushed.
  conserved : (log.flatMap pushed).Perm (log.flatMap removed ++ l)
  -- A `pop_all` that is about to return has a pointer to the whole stack.
  whole : ∀ t head, s.pc t = .poppedAll head →
    ∃ ws, Linked s.mNext head ws ∧ ⟨(t, s.finished t), .popAll, .nodes ws⟩ ∈ log

/-- The list is a linearizable stack, and what `pop_all` has returned can be reversed. -/
structure StackSound [DecidableEq τ] [DecidableEq κ] [DecidableEq ν] (s : State τ κ ν) :
    Prop where
  explained : ∃ log l, Explains s log l
  -- What is kept of a `pop_all` is a list without a cycle.
  held : ∀ k head, s.held k = .list head → Linked s.mNext head (s.contents k) ∧ (s.contents k).Nodup
  -- A reversal goes on to its end, whatever happens to the list in the meantime.
  terminates : ∀ k, (s.held k).Reversing →
    (turn s k).isSome = true ∧ s.turns k < 2 * (s.contents k).length
  -- It returns the reverse of what it was called with.
  reverses : ∀ k s' head, reverse s k = some s' ∨ turn s k = some s' → s'.held k = .list head →
    Linked s'.mNext head (s.contents k).reverse
  -- By itself it gets there in at most two turns for each node.
  returns : ∀ k, (s.held k).Reversing → ∃ n ≤ 2 * (s.contents k).length, ∃ t head,
    (machine τ κ ν).run s (.replicate n (.turn k)) = some t ∧ t.held k = .list head ∧
      Linked t.mNext head (s.contents k).reverse

section Sound

variable [DecidableEq τ]

/-- The execution in the order of the effects explains everything. -/
lemma Refines.explains (h : Refines s a) (ha : ((stack ν).machine τ).Reachable a) :
    Explains s a.log a.value := by
  have hrec := Object.recorded_of_reachable ha
  have hlin : Linearizes (stack ν) s.history a.log := h.history ▸ hrec.linearizes
  have honce : CalledOnce s.history := h.history ▸ hrec.callsOnce
  refine ⟨hlin, hrec.runs, fun hc i op r => hlin.mem_iff hc honce,
    ⟨h.list, h.placed.nodup none⟩, pushed_perm hrec.runs, fun t head ht => ?_⟩
  obtain ⟨ws, hst, hws⟩ := (ht ▸ h.pc t).exists_poppedAll
  refine ⟨ws, hws, ?_⟩
  have hmem := hrec.committed t _ _ hst
  rwa [h.finished] at hmem

variable [DecidableEq κ] [DecidableEq ν]

omit [DecidableEq τ] in
/-- A reversal has steps to take, and only so many. -/
lemma Refines.terminates (h : Refines s a) (hk : (s.held k).Reversing) :
    (turn s k).isSome = true ∧ s.turns k < 2 * (s.contents k).length := by
  have hheld := h.held k
  cases hx : s.held k with
  | nothing | list head => simp [hx, Held.Reversing] at hk
  | reading curr prev =>
    rw [hx] at hheld
    obtain ⟨m, hm, hturns⟩ := hheld
    have hlt : m < (s.contents k).length := by simpa using hm.lt_length
    refine ⟨by simp [turn, hx], ?_⟩
    omega
  | writing curr prev next =>
    rw [hx] at hheld
    obtain ⟨m, hm, -, hturns⟩ := hheld
    have hlt : m < (s.contents k).length := by simpa using hm.lt_length
    refine ⟨?_, by omega⟩
    cases next <;> simp [turn, hx]

omit [DecidableEq τ] in
/-- A reversal that returns has reversed the list. -/
lemma Refines.reverses (h : Refines s a) {head : Option ν}
    (hstep : reverse s k = some s' ∨ turn s k = some s') (hk : s'.held k = .list head) :
    Linked s'.mNext head (s.contents k).reverse := by
  rcases hstep with hstep | hstep
  · have hheld := h.held k
    unfold reverse at hstep
    split at hstep <;> rename_i hlist
    · cases hstep
      rw [hlist] at hheld hk
      obtain rfl : none = head := Held.list.inj hk
      have hnil : s.contents k = [] := Linked.none_iff.mp hheld
      simp [hnil]
    · next x =>
      split_ifs at hstep with hone
      · cases hstep
        rw [hlist] at hheld hk
        obtain rfl : some x = head := Held.list.inj hk
        obtain ⟨l, hl, htail⟩ := Linked.some_iff.mp hheld
        rw [hone, Linked.none_iff] at htail
        simpa [hl, htail] using hheld
      · cases hstep
        simp at hk
    · cases hstep
  · have hheld := (h.turn_step hstep).held k
    rw [hk] at hheld
    suffices hcontents : s'.contents k = (s.contents k).reverse by rwa [hcontents] at hheld
    unfold turn at hstep
    split at hstep
    · cases hstep
      simp at hk
    · next next _ =>
      cases next with
      | some x =>
        cases hstep
        simp at hk
      | none =>
        cases hstep
        simp
    · cases hstep

omit [DecidableEq τ] in
/-- A turn ends the reversal or leaves one turn less to take. -/
lemma turn_cases (hstep : turn s k = some s') : (∃ head, s'.held k = .list head) ∨
    (s'.held k).Reversing ∧ s'.contents k = s.contents k ∧ s'.turns k = s.turns k + 1 := by
  unfold turn at hstep
  split at hstep
  · cases hstep
    simp [Held.Reversing]
  · next next _ => cases next <;> cases hstep <;> simp [Held.Reversing]
  · cases hstep

/-- The turns that are left lead to the end of a reversal. -/
lemma Refines.exists_returned {m : ℕ} (h : Refines s a) (hk : (s.held k).Reversing)
    (hm : 2 * (s.contents k).length = s.turns k + m) : ∃ n ≤ m, ∃ t head,
      (machine τ κ ν).run s (.replicate n (.turn k)) = some t ∧ t.held k = .list head ∧
        Linked t.mNext head (s.contents k).reverse := by
  induction m generalizing s with
  | zero =>
    have hlt := (h.terminates hk).2
    omega
  | succ m ih =>
    obtain ⟨s', hs'⟩ := Option.isSome_iff_exists.mp (h.terminates hk).1
    have hstep : (machine τ κ ν).step s (.turn k) = some s' := hs'
    rcases turn_cases hs' with ⟨head, hhead⟩ | ⟨hk', hcontents, hturns⟩
    · exact ⟨1, by omega, s', head, by simp [Machine.run_cons, hstep], hhead,
        h.reverses (Or.inr hs') hhead⟩
    · obtain ⟨n, hn, t, head, hrun, ht⟩ := ih (h.turn_step hs') hk' (by rw [hcontents]; omega)
      refine ⟨n + 1, by omega, t, head, ?_, hcontents ▸ ht⟩
      simpa [List.replicate_succ, Machine.run_cons, hstep] using hrun

end Sound

/-- Two threads push at the same time: the exchange of the one fails without a reason, that of the
other because the first has succeeded.  A `pop_all` returns both nodes, which are reversed; the
first of them is pushed again while the other one is still kept, and is popped. -/
def stackTrace : List (Action (Fin 2) (Fin 1) (Fin 2)) :=
  [.call 0 (.push 0), .advance 0, .call 1 (.push 1), .advance 1, .advance 1, .spurious 1,
    .advance 1, .advance 1, .advance 0, .advance 0, .advance 0, .advance 0, .advance 0, .advance 1,
    .call 1 .popAll, .advance 1, .advance 1, .returnAll 1 0 [0, 1], .reverse 0, .turn 0, .turn 0,
    .turn 0, .turn 0, .take 0, .call 0 (.push 1), .advance 0, .advance 0, .advance 0, .advance 0,
    .call 1 .pop, .advance 1, .advance 1, .advance 1, .advance 1]

end Libcoro.AwaiterStack
