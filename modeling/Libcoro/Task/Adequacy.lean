import Libcoro.Task.Lockstep

/-!
# `co_await` computes like a call

The frames, handles and continuations of `coro::task` run every schedule as the call stack does
(`agree_run`).  So a task has exactly the outcomes of the direct style, and no frame is leaked or
destroyed early, also if the task is destroyed while it is suspended somewhere in its calls.
-/

namespace Libcoro.Task

open Foundations Function

variable {σ α ε : Type*} {P : Program σ α ε} {s : State σ α ε}
  {c : Config σ α ε} {F G : Heap σ α ε} {h n x : ℕ} {body : σ} {f : Frame σ α ε} {fp B : List ℕ}
  {cont : Option ℕ} {ls : List (Option ℕ)} {env : List (Thunk σ α ε)} {ks : List (Call σ α ε)}
  {l : List (Except ε α)} {r : Except ε α}

/-- Both machines are about to begin the outermost body. -/
lemma agree_start (P : Program σ α ε) (body : σ) :
    Agree (machine P body).start (callMachine P body).start := by
  have hframe : ∀ x, (machine P body).start.frame x =
      if x = 0 then some (Frame.new body) else none :=
    update_apply _ _ _
  exact ⟨0, Frame.new body, [], {
    frame := hframe 0
    stands := ⟨rfl, rfl, rfl, rfl⟩
    env := .nil
    calls := .top
    nodup := List.nodup_singleton 0
    mem_iff := fun x => by
      rw [hframe, show (Frame.new body : Frame σ α ε).owned = [] from rfl]
      grind
    lt_next := fun x hx => by
      rw [hframe] at hx
      simp only [machine]
      grind }⟩

/-- Every schedule is run alike by the frames and with a call stack. -/
lemma agree_run (P : Program σ α ε) (body : σ) (as : List (Action α ε)) :
    Option.Rel Agree ((machine P body).run (machine P body).start as)
      ((callMachine P body).run (callMachine P body).start as) :=
  Machine.run_rel (fun a hagree => hagree.step a) (agree_start P body) as

/-- What can be told from a state and from a configuration that agree is the same after every
schedule. -/
lemma map_run_eq {β : Type*} {φ : State σ α ε → β} {ψ : Config σ α ε → β}
    (hφ : ∀ s c, Agree s c → φ s = ψ c) (as : List (Action α ε)) :
    ((machine P body).run (machine P body).start as).map φ =
      ((callMachine P body).run (callMachine P body).start as).map ψ := by
  have hrel := agree_run P body as
  generalize (machine P body).run _ as = x at hrel ⊢
  generalize (callMachine P body).run _ as = y at hrel ⊢
  cases hrel with
  | none => rfl
  | some hagree => exact congrArg some (hφ _ _ hagree)

/-! ## Outcomes -/

/-- States that agree have the same outcome. -/
lemma Agree.outcome_eq (hagree : Agree s c) : s.outcome P = c.outcome := by
  obtain ⟨h, f, fp, R⟩ := hagree
  rcases c with ⟨ctl, env, ks⟩
  have hst := R.stands
  have hf := R.frame
  -- the frame of the task is the innermost one, or in the middle of a `co_await`
  rcases R.calls.top_or with ⟨rfl, -⟩ | ⟨g, t, next, hg, hpt⟩ <;> cases ctl <;>
    simp_all [State.outcome, Config.outcome, Control.Stands, Point.isFinal, Program.result]

/-- A task comes to an end, with the outcome `r` and after operations outside have given the results
`l`, in exactly those cases in which its body evaluates to `r` in direct style. -/
theorem exists_run_outcome_iff : (∃ as s, inputs as = l ∧
    (machine P body).run (machine P body).start as = some s ∧ s.outcome P = some r) ↔
      Evaluates P body [] l r := by
  have hrun : ∀ as, (∃ s, (machine P body).run (machine P body).start as = some s ∧
      s.outcome P = some r) ↔ ∃ c, (callMachine P body).run (callMachine P body).start as = some c ∧
        c.outcome = some r := by
    intro as
    rw [← Option.map_eq_some_iff, ← Option.map_eq_some_iff,
      map_run_eq (fun s c hagree => hagree.outcome_eq) as]
  simp only [evaluates_iff, exists_and_left, hrun]

/-! ## Frames -/

/-- The number of frames on the heap. -/
def State.liveFrames (s : State σ α ε) : ℕ :=
  ((List.range s.next).filter fun x => (s.frame x).isSome).length

/-- Whether a variable holds a task. -/
def Thunk.isTask : Thunk σ α ε → Bool
  | .gone => false
  | _ => true

/-- The outermost body, which is counted also when it has returned, the bodies that have been called
from it and have not returned, and the tasks in the variables of all of them. -/
def Config.tasks (c : Config σ α ε) : ℕ :=
  1 + c.env.countP Thunk.isTask + (c.calls.map fun k => 1 + k.env.countP Thunk.isTask).sum

/-- The frames that variables own are as many as their tasks. -/
lemma Holds.length_eq (he : ls.Forall₂ (Holds F) env) :
    ls.reduceOption.length = env.countP Thunk.isTask := by
  induction he with
  | nil => rfl
  | cons hw _ ih => cases hw <;> simp [ih, List.countP_cons, Thunk.isTask]

/-- The frames below the running one are those of the open calls. -/
lemma Calls.length_eq (hc : Calls F h cont fp ks) :
    fp.length = (ks.map fun k => 1 + k.env.countP Thunk.isTask).sum := by
  induction hc with
  | top => rfl
  | await _ _ he _ ih =>
    simp only [List.length_cons, List.length_append, Holds.length_eq he, ih, List.map_cons,
      List.sum_cons]
    omega

/-- The frames on the heap are those that the configuration accounts for. -/
lemma Represents.liveFrames_eq (R : Represents s c h f fp) :
    s.liveFrames = (h :: (f.owned ++ fp)).length := by
  refine List.Perm.length_eq ((List.perm_ext_iff_of_nodup (List.nodup_range.filter _) R.nodup).mpr
    fun x => ?_)
  rw [R.mem_iff, List.mem_filter, List.mem_range]
  exact ⟨And.right, fun hx => ⟨R.lt_next x hx, hx⟩⟩

/-- After every schedule the frames on the heap are as many as the bodies under way and the tasks in
their variables: none is leaked and none is destroyed early. -/
theorem liveFrames_run (as : List (Action α ε)) :
    ((machine P body).run (machine P body).start as).map State.liveFrames =
      ((callMachine P body).run (callMachine P body).start as).map Config.tasks := by
  refine map_run_eq (fun s c hagree => ?_) as
  obtain ⟨h, f, fp, R⟩ := hagree
  rw [R.liveFrames_eq, List.length_cons, List.length_append, R.calls.length_eq, Frame.owned,
    Holds.length_eq R.env, Config.tasks]
  omega

/-! ## Destruction -/

/-- Destroying `h` frees the frames `B`, as long as these are as in the heap `F`. -/
def Clears (n : ℕ) (F : Heap σ α ε) (h : ℕ) (B : List ℕ) : Prop :=
  ∀ G : Heap σ α ε, (∀ x ∈ B, G x = F x) → ∀ x, G.destroy n h x = if x ∈ B then none else G x

/-- The calls around a coroutine are destroyed with it, from the task at the top. -/
lemma Calls.clears (hc : Calls F h cont fp ks) (hB : Clears (n + 1) F h B)
    (hnodup : (B ++ fp).Nodup) : Clears (n + 1 + ks.length) F 0 (B ++ fp) := by
  induction hc generalizing n B with
  | top => simpa using hB
  | @await g t next cont m ls c env fp ks hg hx he _ ih =>
    obtain ⟨a, b, hab, hset⟩ := exists_reduceOption_eq ls t
    rw [hset] at hnodup ⊢
    have hclears : Clears (n + 1 + 1) F g (B ++ g :: (a ++ b)) := by
      intro G hG x
      have howned : ∀ y ∈ a ++ b, ∀ f, G y = some f → f.owned = [] := fun y hy f hf =>
        Holds.owned_eq_nil he (hset ▸ hy) ((hG y (by grind)).symm.trans hf)
      rw [Heap.destroy, (hG g (by simp)).trans hg]
      simp only [Frame.owned, hab, hx, Option.join_some, Option.toList_some, List.foldr_append,
        List.foldr_cons, List.foldr_nil]
      -- the variables behind the awaited one, then the awaited task with all below it, the rest
      set G₁ : Heap σ α ε :=
        b.foldr (fun y G => Heap.destroy (n + 1) G y) (update G g none) with hG₁
      have hb : ∀ y, G₁ y = if y ∈ b then none else update G g none y :=
        Heap.foldr_destroy (fun y hy f hf => howned y (List.mem_append_right a hy) f (by grind)) n
      have hcB : ∀ y, G₁.destroy (n + 1) c y = if y ∈ B then none else G₁ y :=
        hB G₁ fun y hy => by rw [hb]; grind
      rw [Heap.foldr_destroy fun y hy f hf => howned y (List.mem_append_left b hy) f (by grind)]
      rw [hcB, hb]
      grind
    have hlength : n + 1 + 1 + ks.length = n + 1 + (ks.length + 1) := by omega
    simpa [hlength] using ih hclears (by simpa using hnodup)

namespace Represents

/-- The innermost body and the tasks in its variables are destroyed together. -/
lemma clears (R : Represents s c h f fp) (n : ℕ) :
    Clears (n + 1 + 1) s.frame h (h :: f.owned) := by
  intro G hG y
  have hnodup := R.nodup
  have hfree := Heap.foldr_destroy (F := update G h none)
    (fun x (hx : x ∈ f.owned) g hg => Holds.owned_eq_nil R.env hx (by grind)) n y
  simp only [Heap.destroy, (hG h (by simp)).trans R.frame] at hfree ⊢
  rw [hfree]
  grind

/-- The calls are nested less deep than there have been allocations. -/
lemma length_calls_lt (R : Represents s c h f fp) : c.calls.length < s.next := by
  have hlive : s.liveFrames ≤ s.next := (List.length_filter_le _ _).trans List.length_range.le
  have hcalls := List.length_le_sum_of_one_le
    (c.calls.map fun k => 1 + k.env.countP Thunk.isTask) (by simp)
  simp only [R.liveFrames_eq, List.length_cons, List.length_append, R.calls.length_eq,
    List.length_map] at hlive hcalls
  omega

end Represents

/-- The run lemma: every state agrees with a configuration. -/
lemma exists_agree_of_reachable (hs : (machine P body).Reachable s) : ∃ c, Agree s c := by
  refine hs.invariant (I := fun s => ∃ c, Agree s c) ⟨_, agree_start P body⟩ ?_
  rintro s a s' _ ⟨c, hagree⟩ hstep
  have hrel := hagree.step (P := P) a
  rw [show Task.step P s a = some s' from hstep] at hrel
  cases hc : c.step P a with
  | none => simp [hc] at hrel
  | some c' => exact ⟨c', by simpa [hc] using hrel⟩

/-- In every reachable state, destroying the task frees all that is left of it: it may be suspended
however deep in its calls. -/
theorem destroy_frees_all (hs : (machine P body).Reachable s) (x : ℕ) :
    (s.destroyAll [0]).frame x = none := by
  obtain ⟨c, h, f, fp, R⟩ := exists_agree_of_reachable hs
  obtain ⟨n, hn⟩ : ∃ n, s.next + 1 = n + 1 + 1 + c.calls.length :=
    ⟨s.next - (c.calls.length + 1), by have := R.length_calls_lt; omega⟩
  have hall := R.calls.clears (R.clears n) (by simpa using R.nodup) s.frame (fun _ _ => rfl) x
  simp only [State.destroyAll, List.foldr_cons, List.foldr_nil, hn, hall]
  split
  next => rfl
  next hx => exact Option.not_isSome_iff_eq_none.mp (mt (R.mem_iff x).mpr hx)

/-- A coroutine that awaits another one, which waits for a number from outside. -/
def relay : Program ℕ ℕ Unit where
  code
    | 0 => .create 10 1
    | 1 => .coAwait 0 fun r => r.toOption.elim 2 (20 + ·)
    | 2 => .throw ()
    | 10 => .suspend fun r => r.toOption.elim 2 (100 + ·)
    | n => .coReturn n
  unset := .error ()

/-- The task is destroyed while its inner coroutine waits. -/
theorem destroy_frees_all_relay : ∃ s,
    (machine relay 0).run (machine relay 0).start [.resume, .run, .run, .run] = some s ∧
    s.parked = some 1 ∧ s.liveFrames = 2 ∧ ∀ x, (s.destroyAll [0]).frame x = none :=
  ⟨_, rfl, rfl, rfl, destroy_frees_all (Machine.reachable_of_run (M := machine relay 0)
    (l := [.resume, .run, .run, .run]) rfl)⟩

end Libcoro.Task
