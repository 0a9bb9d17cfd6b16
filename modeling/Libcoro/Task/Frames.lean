import Libcoro.Task.Calls

/-!
# The frames hold a call stack

`Represents s c h f fp`: the heap of `s` holds the configuration `c` of the call stack.  The
innermost body is the frame `f` with the handle `h`, its variables hold the lazy values as frames of
their own, and its continuation leads through the frames of the calls around it (`Calls`).  `fp` are
the handles of these frames and of the tasks in their variables; all handles differ, and nothing
else is on the heap.  Whatever changes other frames leaves `Calls` alone (`Calls.congr`).
-/

namespace Libcoro.Task

open Foundations Function

variable {σ α ε : Type*}

/-- The variable holds the lazy value. -/
inductive Holds (F : Heap σ α ε) : Option ℕ → Thunk σ α ε → Prop
  | gone : Holds F none .gone
  | fresh : F x = some (Frame.new body) → Holds F (some x) (.fresh body)
  | done : F x = some ⟨.final, cont, some r, []⟩ → Holds F (some x) (.done r)

/-- From the coroutine `c` with the continuation `cont` on, the calls `ks` wait, in frames with the
handles `fp`; the outermost coroutine is the task. -/
inductive Calls (F : Heap σ α ε) : ℕ → Option ℕ → List ℕ → List (Call σ α ε) → Prop
  | top : Calls F 0 none [] []
  | await : F g = some ⟨.awaiting t next, cont, m, ls⟩ → ls[t]? = some (some c) →
      (ls.set t none).Forall₂ (Holds F) env → Calls F g cont fp ks →
      Calls F c (some g) (g :: ((ls.set t none).reduceOption ++ fp)) (⟨env, t, next⟩ :: ks)

/-- Where the frame of the innermost body is, and who has its handle. -/
def Control.Stands (s : State σ α ε) (h : ℕ) (f : Frame σ α ε) : Control σ α ε → Prop
  | .initial p => f.point = .initial p ∧ s.running = none ∧ s.parked = none ∧ h = 0
  | .running p => f.point = .running p ∧ s.running = some h ∧ s.parked = none
  | .suspended next => f.point = .suspended next ∧ s.running = none ∧ s.parked = some h
  | .final r =>
    f.point = .final ∧ f.mStorage = some r ∧ s.running = none ∧ s.parked = none ∧ h = 0

/-- The heap holds the configuration. -/
structure Represents (s : State σ α ε) (c : Config σ α ε) (h : ℕ) (f : Frame σ α ε) (fp : List ℕ) :
    Prop where
  frame : s.frame h = some f
  stands : c.control.Stands s h f
  env : f.locals.Forall₂ (Holds s.frame) c.env
  calls : Calls s.frame h f.mContinuation fp c.calls
  nodup : (h :: (f.owned ++ fp)).Nodup
  mem_iff : ∀ x, x ∈ h :: (f.owned ++ fp) ↔ (s.frame x).isSome
  lt_next : ∀ x, (s.frame x).isSome → x < s.next

/-- The heap holds the configuration in some frames. -/
def Agree (s : State σ α ε) (c : Config σ α ε) : Prop :=
  ∃ h f fp, Represents s c h f fp

variable {P : Program σ α ε} {s s' : State σ α ε} {c : Config σ α ε} {F G : Heap σ α ε} {h t x : ℕ}
  {f : Frame σ α ε} {fp : List ℕ} {cont : Option ℕ} {ls : List (Option ℕ)}
  {env : List (Thunk σ α ε)} {ks : List (Call σ α ε)} {z : Thunk σ α ε} {v : Option ℕ}

/-- A frame that is overwritten stays. -/
lemma State.setFrame_isSome {g : Frame σ α ε} (hf : s.frame h = some f) (x : ℕ) :
    ((s.setFrame h g).frame x).isSome = (s.frame x).isSome := by
  rcases eq_or_ne x h with rfl | hx
  · simp [State.setFrame, hf]
  · simp [State.setFrame, hx]

/-! ## Variables -/

/-- The handles in the variables, before and after one of them. -/
lemma exists_reduceOption_eq (ls : List (Option ℕ)) (t : ℕ) :
    ∃ a b, ls.reduceOption = a ++ ((ls[t]?).join.toList ++ b) ∧
      (ls.set t none).reduceOption = a ++ b := by
  induction ls generalizing t with
  | nil => exact ⟨[], [], rfl, rfl⟩
  | cons y ls ih =>
    cases t with
    | zero => exact ⟨[], ls.reduceOption, by cases y <;> simp, by simp⟩
    | succ t =>
      obtain ⟨a, b, hab, hset⟩ := ih t
      exact ⟨y.toList ++ a, b, by cases y <;> simp [hab], by cases y <;> simp [hset]⟩

/-- The frames in variables are that of one variable and those of the others. -/
lemma reduceOption_perm_set (ls : List (Option ℕ)) (t : ℕ) :
    ls.reduceOption.Perm ((ls[t]?).join.toList ++ (ls.set t none).reduceOption) := by
  obtain ⟨a, b, hab, hset⟩ := exists_reduceOption_eq ls t
  rw [hab, hset]
  exact List.perm_append_comm_assoc ..

namespace Holds

/-- A variable is overwritten in both. -/
lemma set (hz : Holds F v z) (he : ls.Forall₂ (Holds F) env) (t : ℕ) :
    (ls.set t v).Forall₂ (Holds F) (env.set t z) := by
  induction he generalizing t with
  | nil => exact .nil
  | cons hw he ih =>
    cases t with
    | zero => exact .cons hz he
    | succ t => exact .cons hw (ih t)

/-- Variables still hold their values if the frames of their tasks stay. -/
lemma congr (he : ls.Forall₂ (Holds F) env) (hG : ∀ x ∈ ls.reduceOption, G x = F x) :
    ls.Forall₂ (Holds G) env := by
  induction he with
  | nil => exact .nil
  | @cons v z ls env hw _ ih =>
    refine .cons ?_ (ih fun y hy => hG y (by cases v <;> simp [hy]))
    cases hw with
    | gone => exact .gone
    | fresh hx => exact .fresh ((hG _ (by simp)).trans hx)
    | done hx => exact .done ((hG _ (by simp)).trans hx)

/-- A variable is read in both. -/
lemma rel_getElem? (he : ls.Forall₂ (Holds F) env) (t : ℕ) :
    Option.Rel (Holds F) ls[t]? env[t]? := by
  induction he generalizing t with
  | nil => simp
  | cons hw _ ih =>
    cases t with
    | zero => exact .some hw
    | succ t => exact ih t

/-- The tasks in the variables hold no tasks of their own. -/
lemma owned_eq_nil (he : ls.Forall₂ (Holds F) env) (hx : x ∈ ls.reduceOption) (hf : F x = some f) :
    f.owned = [] := by
  induction he with
  | nil => simp at hx
  | cons hw _ ih =>
    cases hw with
    | gone => exact ih (by simpa using hx)
    | fresh hy | done hy =>
      rcases List.mem_cons.mp (by simpa using hx) with rfl | hx
      · obtain rfl := Option.some.inj (hf.symm.trans hy)
        rfl
      · exact ih hx

end Holds

/-! ## Calls -/

/-- The open calls depend on nothing but their own frames. -/
lemma Calls.congr (hc : Calls F h cont fp ks) (hG : ∀ x ∈ fp, G x = F x) :
    Calls G h cont fp ks := by
  induction hc with
  | top => exact .top
  | await hg ht he _ ih =>
    exact .await ((hG _ (by simp)).trans hg) ht (Holds.congr he fun x hx => hG x (by simp [hx]))
      (ih fun x hx => hG x (by simp [hx]))

/-- The task is the innermost coroutine, or it awaits another one. -/
lemma Calls.top_or (hc : Calls F h cont fp ks) :
    h = 0 ∧ cont = none ∧ fp = [] ∧ ks = [] ∨
      ∃ f t next, F 0 = some f ∧ f.point = .awaiting t next := by
  induction hc with
  | top => exact .inl ⟨rfl, rfl, rfl, rfl⟩
  | await hg _ _ _ ih =>
    rcases ih with ⟨rfl, _⟩ | h0
    · exact .inr ⟨_, _, _, hg, rfl⟩
    · exact .inr h0

/-! ## Destruction -/

/-- A frame without tasks in its variables is destroyed alone. -/
lemma Heap.destroy_of_owned (howned : ∀ f, F x = some f → f.owned = []) (n : ℕ) :
    F.destroy (n + 1) x = update F x none := by
  simp only [Heap.destroy]
  split
  next hx => rw [← hx, update_eq_self]
  next f hx => rw [howned f hx, List.foldr_nil]

/-- The destruction of frames that own no others. -/
lemma Heap.foldr_destroy {hs : List ℕ} (howned : ∀ x ∈ hs, ∀ f, F x = some f → f.owned = [])
    (n x : ℕ) : hs.foldr (fun y G => G.destroy (n + 1) y) F x = if x ∈ hs then none else F x := by
  induction hs generalizing x with
  | nil => simp
  | cons y hs ih =>
    have ih := ih fun z hz => howned z (List.mem_cons_of_mem y hz)
    rw [List.foldr_cons, Heap.destroy_of_owned (fun f hf => howned y (by simp) f (by grind)),
      update_apply, ih x]
    grind

end Libcoro.Task
