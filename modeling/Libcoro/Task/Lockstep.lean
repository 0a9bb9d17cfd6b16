import Libcoro.Task.Frames

/-!
# Frames and calls in lockstep

One lemma for each thing that the innermost body can do, about the heap after it; `Agree.step` puts
them together: the frames take a step if and only if the call stack does, and then they agree again.
-/

namespace Libcoro.Task

open Foundations Function

variable {σ α ε : Type*} {P : Program σ α ε} {s s' : State σ α ε}
  {c : Config σ α ε} {h t x : ℕ} {p body : σ} {f : Frame σ α ε} {fp : List ℕ}
  {env : List (Thunk σ α ε)} {ks : List (Call σ α ε)}
  {ctl : Control σ α ε} {pt : Point σ α ε} {r : Except ε α} {next : Except ε α → σ}

namespace Represents

lemma ne_of_mem (R : Represents s c h f fp) (hx : x ∈ f.owned ++ fp) : x ≠ h := by
  rintro rfl
  exact (List.nodup_cons.mp R.nodup).1 hx

/-- The innermost body changes its frame and destroys tasks that it holds. -/
lemma destroyAll_frame (R : Represents s c h f fp) (g : Frame σ α ε) {hs : List ℕ}
    (hsub : ∀ y ∈ hs, y ∈ f.owned) (y : ℕ) :
    ((s.setFrame h g).destroyAll hs).frame y =
      if y ∈ hs then none else update s.frame h (some g) y := by
  refine Heap.foldr_destroy (fun y hy g' hg => ?_) s.next y
  have hne := R.ne_of_mem (List.mem_append_left fp (hsub y hy))
  exact Holds.owned_eq_nil R.env (hsub y hy) ((update_of_ne hne _ _).symm.trans hg)

/-- The innermost body goes on in its frame. -/
lemma advance (R : Represents s c h f fp)
    (hframe : s'.frame = (s.setFrame h { f with point := pt }).frame)
    (hnext : s'.next = s.next) (hst : ctl.Stands s' h { f with point := pt }) :
    Represents s' ⟨ctl, c.env, c.calls⟩ h { f with point := pt } fp := by
  have hG : ∀ x ∈ f.owned ++ fp, s'.frame x = s.frame x := fun x hx =>
    (congrFun hframe x).trans (update_of_ne (R.ne_of_mem hx) _ _)
  have hsome : ∀ x, (s'.frame x).isSome = (s.frame x).isSome := by
    rw [hframe]
    exact State.setFrame_isSome R.frame
  exact {
    frame := (congrFun hframe h).trans (update_self ..)
    stands := hst
    env := Holds.congr R.env fun x hx => hG x (List.mem_append_left _ hx)
    calls := R.calls.congr fun x hx => hG x (List.mem_append_right _ hx)
    nodup := R.nodup
    mem_iff := fun x => by rw [hsome]; exact R.mem_iff x
    lt_next := fun x hx => by rw [hnext]; exact R.lt_next x (hsome x ▸ hx) }

/-- A coroutine function is called. -/
lemma create (R : Represents s ⟨.running p, env, ks⟩ h f fp) (next : σ)
    (hframe : s'.frame = update (update s.frame h
      (some { f with point := .running next, locals := f.locals ++ [some s.next] })) s.next
      (some (Frame.new body)))
    (hnext : s'.next = s.next + 1) (hrun : s'.running = s.running) (hpark : s'.parked = s.parked) :
    Agree s' ⟨.running next, env ++ [.fresh body], ks⟩ := by
  have hlt : ∀ x ∈ h :: (f.owned ++ fp), x ≠ s.next := fun x hx =>
    (R.lt_next x ((R.mem_iff x).mp hx)).ne
  have hG : ∀ x ∈ f.owned ++ fp, s'.frame x = s.frame x := fun x hx => by
    rw [hframe, update_of_ne (hlt x (List.mem_cons_of_mem h hx)),
      update_of_ne (R.ne_of_mem hx)]
  have hown : ∀ g : Frame σ α ε, g.locals = f.locals ++ [some s.next] →
      g.owned = f.owned ++ [s.next] := fun g hg => by
    simp [Frame.owned, hg, List.reduceOption_append]
  refine ⟨h, { f with point := .running next, locals := f.locals ++ [some s.next] }, fp, {
    frame := by rw [hframe, update_of_ne (hlt h (by simp)), update_self]
    stands := ⟨rfl, hrun.trans R.stands.2.1, hpark.trans R.stands.2.2⟩
    env := List.rel_append (Holds.congr R.env fun x hx => hG x (List.mem_append_left _ hx))
      (.cons (.fresh (by rw [hframe, update_self])) .nil)
    calls := R.calls.congr fun x hx => hG x (List.mem_append_right _ hx)
    nodup := ?_, mem_iff := fun x => ?_, lt_next := fun x hx => ?_ }⟩
  · rw [hown _ rfl]
    have := R.nodup
    have := hlt
    grind
  · rw [hown _ rfl, hframe]
    have := R.mem_iff x
    grind [R.frame]
  · rw [hframe] at hx
    have := R.lt_next x
    have := R.lt_next h (by simp [R.frame])
    grind

/-- The task `x` in the variable `t` is awaited for the first time. -/
lemma call (R : Represents s ⟨.running p, env, ks⟩ h f fp) (hx : f.locals[t]? = some (some x))
    (hframe : s'.frame = update (update s.frame h
      (some { f with point := .awaiting t next })) x
      (some ⟨.running body, some h, none, []⟩))
    (hnext : s'.next = s.next) (hrun : s'.running = some x) (hpark : s'.parked = s.parked) :
    Agree s' ⟨.running body, [], ⟨env.set t .gone, t, next⟩ :: ks⟩ := by
  have hperm : f.owned.Perm (x :: (f.locals.set t none).reduceOption) := by
    simpa [hx, Frame.owned] using reduceOption_perm_set f.locals t
  have hall : (h :: (f.owned ++ fp)).Perm
      (x :: h :: ((f.locals.set t none).reduceOption ++ fp)) :=
    ((hperm.append_right fp).cons h).trans (.swap x h _)
  have hnodup : (x :: h :: ((f.locals.set t none).reduceOption ++ fp)).Nodup :=
    hall.nodup_iff.mp R.nodup
  have hG : ∀ y ∈ (f.locals.set t none).reduceOption ++ fp, s'.frame y = s.frame y := by
    intro y hy
    rw [hframe]
    grind
  have hsome : ∀ y, (s'.frame y).isSome = (s.frame y).isSome := fun y => by
    have := (R.mem_iff x).mp (hall.mem_iff.mpr (by simp))
    rw [hframe]
    grind [R.frame]
  have hh : s'.frame h = some ⟨.awaiting t next, f.mContinuation, f.mStorage, f.locals⟩ := by
    rw [hframe]
    grind
  exact ⟨x, ⟨.running body, some h, none, []⟩, _, {
    frame := by rw [hframe, update_self]
    stands := ⟨rfl, hrun, hpark.trans R.stands.2.2⟩
    env := .nil
    calls := .await hh hx
      (Holds.congr (Holds.gone.set R.env t) fun y hy => hG y (List.mem_append_left _ hy))
      (R.calls.congr fun y hy => hG y (List.mem_append_right _ hy))
    nodup := hnodup
    mem_iff := fun y => by rw [hsome, ← R.mem_iff y]; exact hall.mem_iff.symm
    lt_next := fun y hy => by rw [hnext]; exact R.lt_next y (hsome y ▸ hy) }⟩

/-- The task in the variable `t` is destroyed. -/
lemma destroy (R : Represents s ⟨.running p, env, ks⟩ h f fp) (next : σ) :
    Agree ((s.setFrame h
        { f with point := .running next, locals := f.locals.set t none }).destroyAll
      (f.locals[t]?).join.toList) ⟨.running next, env.set t .gone, ks⟩ := by
  set s' := (s.setFrame h
      { f with point := .running next, locals := f.locals.set t none }).destroyAll
    (f.locals[t]?).join.toList with hs'
  have hperm : f.owned.Perm ((f.locals[t]?).join.toList ++ (f.locals.set t none).reduceOption) :=
    reduceOption_perm_set f.locals t
  have hnodup := ((hperm.append_right fp).cons h).nodup_iff.mp R.nodup
  have hframe : ∀ y, s'.frame y = if y ∈ (f.locals[t]?).join.toList then none else
      update s.frame h
        (some { f with point := .running next, locals := f.locals.set t none }) y :=
    R.destroyAll_frame _ fun y hy => hperm.mem_iff.mpr (List.mem_append_left _ hy)
  have hG : ∀ y ∈ (f.locals.set t none).reduceOption ++ fp, s'.frame y = s.frame y := by
    intro y hy
    rw [hframe]
    grind
  refine ⟨h, { f with point := .running next, locals := f.locals.set t none }, fp, {
    frame := by rw [hframe]; grind
    stands := ⟨rfl, R.stands.2⟩
    env := Holds.congr (Holds.gone.set R.env t) fun y hy => hG y (List.mem_append_left _ hy)
    calls := R.calls.congr fun y hy => hG y (List.mem_append_right _ hy)
    nodup := ?_, mem_iff := fun y => ?_, lt_next := fun y hy => ?_ }⟩
  · simp only [Frame.owned]
    grind
  · have := R.mem_iff y
    have := hperm.mem_iff (a := y)
    rw [hframe]
    simp only [Frame.owned] at *
    grind [R.frame]
  · rw [hframe] at hy
    exact R.lt_next y (by grind [R.frame])

/-- The body stores its outcome and its variables are destroyed. -/
lemma ended (R : Represents s c h f fp) (g : Frame σ α ε) :
    ((s.setFrame h g).destroyAll f.owned).frame h = some g ∧
      (∀ y ∈ fp, ((s.setFrame h g).destroyAll f.owned).frame y = s.frame y) ∧
      ∀ y, y ∈ h :: fp ↔ (((s.setFrame h g).destroyAll f.owned).frame y).isSome := by
  have hnodup := R.nodup
  simp only [R.destroyAll_frame g fun _ => id]
  refine ⟨by grind, by grind, fun y => ?_⟩
  have := R.mem_iff y
  grind

/-- The coroutine `k` is resumed with the outcome of the task that it awaits. -/
lemma resumed {k : ℕ} {cont cont' : Option ℕ} {m : Option (Except ε α)} {ls : List (Option ℕ)}
    (hk : s.frame k = some ⟨.awaiting t next, cont, m, ls⟩) (hx : ls[t]? = some (some h))
    (hh : s.frame h = some ⟨.final, cont', some r, []⟩)
    (he : (ls.set t none).Forall₂ (Holds s.frame) env) (hcalls : Calls s.frame k cont fp ks)
    (hnodup : (h :: k :: ((ls.set t none).reduceOption ++ fp)).Nodup)
    (hmem : ∀ y, y ∈ h :: k :: ((ls.set t none).reduceOption ++ fp) ↔ (s.frame y).isSome)
    (hlt : ∀ y, (s.frame y).isSome → y < s.next) (hpark : s.parked = none) :
    ∃ s', s.resumeHandle P k = some s' ∧
      Agree s' ⟨.running (next r), env.set t (.done r), ks⟩ := by
  have hperm : (k :: (ls.reduceOption ++ fp)).Perm
      (h :: k :: ((ls.set t none).reduceOption ++ fp)) := by
    have hls := reduceOption_perm_set ls t
    rw [hx] at hls
    exact ((hls.append_right fp).cons k).trans (.swap h k _)
  have hls : (ls.set t none).set t (some h) = ls := by
    obtain ⟨hlt, hget⟩ := List.getElem?_eq_some_iff.mp hx
    rw [List.set_set, ← hget, List.set_getElem_self]
  set s' : State σ α ε :=
    { s.setFrame k ⟨.running (next r), cont, m, ls⟩ with running := some k } with hs'
  have hne : ∀ {y}, y ≠ k → s'.frame y = s.frame y := fun hy => update_of_ne hy _ _
  have hsome : ∀ y, (s'.frame y).isSome = (s.frame y).isSome := State.setFrame_isSome hk
  have he' := Holds.congr he fun y hy => hne (y := y) (by grind)
  refine ⟨s', ?_, k, ⟨.running (next r), cont, m, ls⟩, fp, {
    frame := update_self ..
    stands := ⟨rfl, rfl, hpark⟩
    env := hls ▸ (Holds.done ((hne (by grind)).trans hh)).set he' t
    calls := hcalls.congr fun y hy => hne (by grind)
    nodup := hperm.nodup_iff.mpr hnodup
    mem_iff := fun y => by rw [hsome, ← hmem]; exact hperm.mem_iff
    lt_next := fun y hy => hlt y (hsome y ▸ hy) }⟩
  simp [State.resumeHandle, hk, State.taskAt, hx, hh, Program.result, hs']

/-- The body ends. -/
lemma finish (R : Represents s ⟨.running p, env, ks⟩ h f fp) (r : Except ε α) :
    ∃ s', s.finish P h f r = some s' ∧ Agree s' (.finish r ks) := by
  obtain ⟨hh, hfp, hmem⟩ := R.ended { f with point := .final, mStorage := some r, locals := [] }
  have hlt : ∀ y ∈ h :: fp, y < s.next := fun y hy => R.lt_next y ((R.mem_iff y).mp (by grind))
  have hnodup := R.nodup
  rcases R with ⟨-, ⟨-, -, hpark⟩, -, hcalls, -, -, -⟩
  rcases f with ⟨pt, cont, m, ls⟩
  cases hcalls with
  | top =>
    exact ⟨_, rfl, 0, ⟨.final, none, some r, []⟩, [], {
      frame := hh
      stands := ⟨rfl, rfl, rfl, hpark, rfl⟩
      env := .nil
      calls := .top
      nodup := List.nodup_singleton 0
      mem_iff := hmem
      lt_next := fun y hy => hlt y ((hmem y).mpr hy) }⟩
  | @await k t next cont m' ls' _ env' fp ks hk hx he hcalls =>
    refine resumed ((hfp k (by simp)).trans hk) hx hh
      (Holds.congr he fun y hy => hfp y (by simp [hy]))
      (hcalls.congr fun y hy => hfp y (by simp [hy])) (by grind) hmem ?_ hpark
    exact fun y hy => hlt y ((hmem y).mpr hy)

end Represents

/-! ## The machines -/

/-- The running body takes the same step in its frame and on the call stack. -/
lemma Represents.exec (R : Represents s ⟨.running p, env, ks⟩ h f fp) :
    Option.Rel Agree (s.exec P h f p) (Config.exec P ⟨.running p, env, ks⟩ p) := by
  cases hp : P.code p with
  | coReturn v | throw e =>
    simp only [State.exec, Config.exec, hp]
    obtain ⟨s', hs', hagree⟩ := R.finish (P := P) _
    rw [hs']
    exact .some hagree
  | create body next =>
    simp only [State.exec, Config.exec, hp]
    exact .some (R.create next rfl rfl rfl rfl)
  | destroy t next =>
    simp only [State.exec, Config.exec, hp]
    exact .some (R.destroy next)
  | suspend next =>
    simp only [State.exec, Config.exec, hp]
    exact .some ⟨h, _, fp, R.advance rfl rfl ⟨rfl, rfl, rfl⟩⟩
  | coAwait t next =>
    simp only [State.exec, Config.exec, hp, State.taskAt]
    have hrel := Holds.rel_getElem? R.env t
    generalize hv : f.locals[t]? = v at hrel ⊢
    generalize hz : env[t]? = z at hrel ⊢
    cases hrel with
    | none => exact .none
    | some hw =>
      cases hw with
      | gone => exact .none
      | @fresh x body hx =>
        have hne : x ≠ h := R.ne_of_mem (List.mem_append_left fp (List.mem_filterMap.mpr
          ⟨some x, List.mem_of_getElem? hv, rfl⟩))
        have hresume : ((s.setFrame x ⟨.initial body, some h, none, []⟩).setFrame h
            { f with point := .awaiting t next }).resumeHandle P x =
              some { (s.setFrame h { f with point := .awaiting t next }).setFrame x
                ⟨.running body, some h, none, []⟩ with running := some x } := by
          simp [State.resumeHandle, State.setFrame, update_comm hne]
        simp only [Option.join_some, Option.bind_some, hx, Option.map_some, Frame.new,
          Point.isFinal, Bool.false_eq_true, if_false]
        rw [hresume]
        exact .some (R.call hv rfl rfl rfl rfl)
      | @done x cont r hx =>
        simp only [Option.join_some, Option.bind_some, hx, Option.map_some, Point.isFinal, if_true,
          Program.result, Option.getD_some]
        exact .some ⟨h, _, fp, R.advance rfl rfl ⟨rfl, R.stands.2⟩⟩

lemma step_resume (hrun : s.running = none) (hpark : s.parked = none) :
    step P s .resume =
      (s.frame 0).bind fun f => if f.point.isFinal then some s else s.resumeHandle P 0 := by
  simp [step, hrun, hpark]

/-- Frames and calls take the same steps. -/
lemma Agree.step (hagree : Agree s c) (a : Action α ε) :
    Option.Rel Agree (step P s a) (c.step P a) := by
  obtain ⟨h, f, fp, R⟩ := hagree
  rcases c with ⟨ctl, env, ks⟩
  have hst := R.stands
  cases ctl with
  | initial p =>
    obtain ⟨hpt, hrun, hpark, rfl⟩ := hst
    cases a with
    | run | complete r => simp [Task.step, Config.step, hrun, hpark]
    | resume =>
      simp only [step_resume hrun hpark, Config.step, R.frame, Option.bind_some, hpt,
        Point.isFinal, Bool.false_eq_true, if_false, State.resumeHandle]
      exact .some ⟨0, _, fp, R.advance rfl rfl ⟨rfl, rfl, hpark⟩⟩
  | running p =>
    obtain ⟨hpt, hrun, hpark⟩ := hst
    cases a with
    | resume | complete r => simp [Task.step, Config.step, hrun, hpark]
    | run => simpa [Task.step, Config.step, hrun, R.frame, hpt] using R.exec
  | suspended next =>
    obtain ⟨hpt, hrun, hpark⟩ := hst
    cases a with
    | resume | run => simp [Task.step, Config.step, hrun, hpark]
    | complete r =>
      simp only [Task.step, Config.step, hpark, R.frame, hpt, Option.bind_some]
      exact .some ⟨h, _, fp, R.advance rfl rfl ⟨rfl, rfl, rfl⟩⟩
  | final r =>
    obtain ⟨hpt, _, hrun, hpark, rfl⟩ := hst
    cases a with
    | run | complete r => simp [Task.step, Config.step, hrun, hpark]
    | resume =>
      simp only [step_resume hrun hpark, Config.step, R.frame, Option.bind_some, hpt,
        Point.isFinal, if_true]
      exact .some ⟨0, f, fp, R⟩

end Libcoro.Task
