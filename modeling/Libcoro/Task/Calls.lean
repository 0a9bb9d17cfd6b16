import Libcoro.Task.Model

/-!
# Tasks as function calls

What a program means if tasks are taken for lazy values: the first `co_await` of a task evaluates
its body, as a function call would, and every further one recalls the outcome.  No frame, handle or
continuation pointer occurs.

It is said twice.  `Evaluates P p env l r` is the direct style: from the point `p`, with the tasks
`env` in the variables, the body ends with the outcome `r` after the operations outside have given
the results `l`, one after the other.  `callMachine` computes the same with a call stack, one step
for each step of the coroutines (`evaluates_iff`).
-/

namespace Libcoro.Task

open Foundations

/-- A task in a variable, as a lazy value. -/
inductive Thunk (σ α ε : Type*) where
  | fresh (body : σ)
  | done (r : Except ε α)
  | gone

variable {σ α ε : Type*}

/-- The outcome of a body in direct style. -/
inductive Evaluates (P : Program σ α ε) :
    σ → List (Thunk σ α ε) → List (Except ε α) → Except ε α → Prop
  | coReturn : P.code p = .coReturn v → Evaluates P p env [] (.ok v)
  | throw : P.code p = .throw e → Evaluates P p env [] (.error e)
  | create : P.code p = .create body next → Evaluates P next (env ++ [.fresh body]) l r →
      Evaluates P p env l r
  | force : P.code p = .coAwait t next → env[t]? = some (.fresh body) → Evaluates P body [] l r →
      Evaluates P (next r) (env.set t (.done r)) l' r' → Evaluates P p env (l ++ l') r'
  | remember : P.code p = .coAwait t next → env[t]? = some (.done r) →
      Evaluates P (next r) env l r' → Evaluates P p env l r'
  | destroy : P.code p = .destroy t next → Evaluates P next (env.set t .gone) l r →
      Evaluates P p env l r
  | suspend : P.code p = .suspend next → Evaluates P (next x) env l r →
      Evaluates P p env (x :: l) r

/-- A call that has not returned: the `co_await` of the variable `var`, which is empty meanwhile. -/
structure Call (σ α ε : Type*) where
  env : List (Thunk σ α ε)
  var : ℕ
  next : Except ε α → σ

/-- Where the innermost body is. -/
inductive Control (σ α ε : Type*) where
  | initial (p : σ)
  | running (p : σ)
  | suspended (next : Except ε α → σ)
  | final (r : Except ε α)

/-- The innermost body with its variables, and the calls around it, the innermost first. -/
structure Config (σ α ε : Type*) where
  control : Control σ α ε
  env : List (Thunk σ α ε)
  calls : List (Call σ α ε)

/-- The innermost body has the outcome `r`. -/
def Config.finish (r : Except ε α) : List (Call σ α ε) → Config σ α ε
  | [] => ⟨.final r, [], []⟩
  | k :: ks => ⟨.running (k.next r), k.env.set k.var (.done r), ks⟩

/-- The innermost body goes on at the point `p`. -/
def Config.exec (P : Program σ α ε) (c : Config σ α ε) (p : σ) : Option (Config σ α ε) :=
  match P.code p with
  | .coReturn v => some (.finish (.ok v) c.calls)
  | .throw e => some (.finish (.error e) c.calls)
  | .create body next => some ⟨.running next, c.env ++ [.fresh body], c.calls⟩
  | .coAwait t next =>
    match c.env[t]? with
    | some (.fresh body) => some ⟨.running body, [], ⟨c.env.set t .gone, t, next⟩ :: c.calls⟩
    | some (.done r) => some ⟨.running (next r), c.env, c.calls⟩
    | _ => none
  | .destroy t next => some ⟨.running next, c.env.set t .gone, c.calls⟩
  | .suspend next => some ⟨.suspended next, c.env, c.calls⟩

/-- One step with the call stack. -/
def Config.step (P : Program σ α ε) (c : Config σ α ε) : Action α ε → Option (Config σ α ε)
  | .resume =>
    match c.control with
    | .initial p => some { c with control := .running p }
    | .final _ => some c
    | _ => none
  | .run =>
    match c.control with
    | .running p => c.exec P p
    | _ => none
  | .complete r =>
    match c.control with
    | .suspended next => some { c with control := .running (next r) }
    | _ => none

/-- The program `P` with a call stack, from the call of `body` on. -/
def callMachine (P : Program σ α ε) (body : σ) : Machine (Config σ α ε) (Action α ε) where
  start := ⟨.initial body, [], []⟩
  step := Config.step P

/-- The outcome, once the outermost body has ended. -/
def Config.outcome (c : Config σ α ε) : Option (Except ε α) :=
  match c.control with
  | .final r => some r
  | _ => none

/-- The results that operations outside give in the course of a schedule. -/
def inputs : List (Action α ε) → List (Except ε α)
  | [] => []
  | .complete r :: as => r :: inputs as
  | _ :: as => inputs as

lemma inputs_append (as as' : List (Action α ε)) :
    inputs (as ++ as') = inputs as ++ inputs as' := by
  induction as with
  | nil => rfl
  | cons a as ih => cases a <;> simp [inputs, ih]

variable {P : Program σ α ε} {p body : σ} {env : List (Thunk σ α ε)} {ks : List (Call σ α ε)}
  {l l' : List (Except ε α)} {r r' : Except ε α} {c c' : Config σ α ε} {a : Action α ε}
  {as : List (Action α ε)}

/-! ## The call stack evaluates -/

lemma run_exec (hexec : Config.exec P ⟨.running p, env, ks⟩ p = some c)
    (hrun : (callMachine P body).run c as = some c') :
    (callMachine P body).run ⟨.running p, env, ks⟩ (.run :: as) = some c' :=
  Machine.run_cons.mpr ⟨c, hexec, hrun⟩

/-- A body that evaluates is run up to its end, whatever calls are around it. -/
lemma Evaluates.exists_run (h : Evaluates P p env l r) (ks : List (Call σ α ε)) :
    ∃ as, inputs as = l ∧
      (callMachine P body).run ⟨.running p, env, ks⟩ as = some (.finish r ks) := by
  induction h generalizing ks with
  | coReturn hp | throw hp =>
    exact ⟨[.run], rfl, run_exec (by simp only [Config.exec, hp]) (Machine.run_nil _)⟩
  | create hp _ ih | destroy hp _ ih =>
    obtain ⟨as, rfl, hrun⟩ := ih ks
    exact ⟨.run :: as, rfl, run_exec (by simp only [Config.exec, hp]) hrun⟩
  | remember hp ht _ ih =>
    obtain ⟨as, rfl, hrun⟩ := ih ks
    exact ⟨.run :: as, rfl, run_exec (by simp only [Config.exec, hp, ht]) hrun⟩
  | @suspend p next x env l r hp _ ih =>
    obtain ⟨as, rfl, hrun⟩ := ih ks
    have hstep : Config.exec P ⟨.running p, env, ks⟩ p = some ⟨.suspended next, env, ks⟩ := by
      simp only [Config.exec, hp]
    exact ⟨.run :: .complete x :: as, rfl, run_exec hstep (Machine.run_cons.mpr ⟨_, rfl, hrun⟩)⟩
  | @force p t next env body l r l' r' hp ht _ _ ih ih' =>
    obtain ⟨as, rfl, hrun⟩ := ih (⟨env.set t .gone, t, next⟩ :: ks)
    obtain ⟨as', rfl, hrun'⟩ := ih' ks
    simp only [Config.finish, List.set_set] at hrun
    exact ⟨.run :: (as ++ as'), inputs_append as as',
      run_exec (by simp only [Config.exec, hp, ht]) (Machine.run_append hrun hrun')⟩

/-- A body from which the end is reached has an outcome, with which the call around it goes on. -/
lemma exists_evaluates_of_run (hrun : (callMachine P body).run ⟨.running p, env, ks⟩ as = some c)
    (hc : c.outcome = some r) :
    ∃ as₁ as₂ r₁, as = as₁ ++ as₂ ∧ Evaluates P p env (inputs as₁) r₁ ∧
      (callMachine P body).run (.finish r₁ ks) as₂ = some c := by
  -- by the length of the schedule: after the body of an awaited task comes a part of its rest
  induction hn : as.length using Nat.strong_induction_on generalizing p env ks as with
  | _ n ih =>
    cases as with
    | nil =>
      cases hrun
      simp [Config.outcome] at hc
    | cons a as =>
      obtain ⟨c₁, hstep, hrun⟩ := Machine.run_cons.mp hrun
      have hrest : ∀ {p' env' ks'}, c₁ = ⟨.running p', env', ks'⟩ →
          ∃ as₁ as₂ r₁, as = as₁ ++ as₂ ∧ Evaluates P p' env' (inputs as₁) r₁ ∧
            (callMachine P body).run (.finish r₁ ks') as₂ = some c :=
        fun hc₁ => ih as.length (by simp [← hn]) (hc₁ ▸ hrun) rfl
      cases a with
      | resume | complete r => simp [callMachine, Config.step] at hstep
      | run =>
        simp only [callMachine, Config.step, Config.exec] at hstep
        cases hp : P.code p with
        | coReturn v | throw e =>
          simp only [hp, Option.some.injEq] at hstep
          subst hstep
          exact ⟨[.run], as, _, rfl, by first | exact .coReturn hp | exact .throw hp, hrun⟩
        | create body next | destroy t next =>
          simp only [hp, Option.some.injEq] at hstep
          obtain ⟨as₁, as₂, r₁, rfl, hev, hrun⟩ := hrest hstep.symm
          exact ⟨.run :: as₁, as₂, r₁, rfl,
            by first | exact .create hp hev | exact .destroy hp hev, hrun⟩
        | coAwait t next =>
          simp only [hp] at hstep
          split at hstep
          next body ht =>
            obtain ⟨as₁, as₂, r₁, rfl, hev, hrun₂⟩ := hrest (Option.some.inj hstep).symm
            simp only [Config.finish, List.set_set] at hrun₂
            obtain ⟨as₂, as₃, r₂, rfl, hev', hrun₃⟩ := ih as₂.length (by grind) hrun₂ rfl
            exact ⟨.run :: (as₁ ++ as₂), as₃, r₂, by simp,
              inputs_append as₁ as₂ ▸ .force hp ht hev hev', hrun₃⟩
          next r ht =>
            obtain ⟨as₁, as₂, r₁, rfl, hev, hrun⟩ := hrest (Option.some.inj hstep).symm
            exact ⟨.run :: as₁, as₂, r₁, rfl, .remember hp ht hev, hrun⟩
          next => simp at hstep
        | suspend next =>
          simp only [hp, Option.some.injEq] at hstep
          subst hstep
          cases as with
          | nil =>
            cases hrun
            simp [Config.outcome] at hc
          | cons a as =>
            obtain ⟨c₂, hstep, hrun⟩ := Machine.run_cons.mp hrun
            cases a with
            | resume | run => simp [callMachine, Config.step] at hstep
            | complete r =>
              cases hstep
              obtain ⟨as₁, as₂, r₁, rfl, hev, hrun⟩ := ih as.length (by simp [← hn]) hrun rfl
              exact ⟨.run :: .complete r :: as₁, as₂, r₁, rfl, .suspend hp hev, hrun⟩

/-- After the end of the outermost body only its outcome is left. -/
lemma run_final (hrun : (callMachine P body).run ⟨.final r, [], []⟩ as = some c) :
    c = ⟨.final r, [], []⟩ ∧ inputs as = [] := by
  induction as with
  | nil => exact ⟨(Option.some.inj hrun).symm, rfl⟩
  | cons a as ih =>
    obtain ⟨c₁, hstep, hrun⟩ := Machine.run_cons.mp hrun
    cases a with
    | run | complete r => simp [callMachine, Config.step] at hstep
    | resume =>
      cases hstep
      exact ih hrun

/-- The runs of the call stack that come to an end are the evaluations in direct style. -/
lemma evaluates_iff : Evaluates P body [] l r ↔ ∃ as c, inputs as = l ∧
    (callMachine P body).run (callMachine P body).start as = some c ∧ c.outcome = some r := by
  constructor
  · intro h
    obtain ⟨as, hl, hrun⟩ := h.exists_run []
    exact ⟨.resume :: as, _, hl, Machine.run_cons.mpr ⟨_, rfl, hrun⟩, rfl⟩
  · rintro ⟨as, c, rfl, hrun, hc⟩
    cases as with
    | nil =>
      cases hrun
      simp [Config.outcome, callMachine] at hc
    | cons a as =>
      obtain ⟨c₁, hstep, hrun⟩ := Machine.run_cons.mp hrun
      cases a with
      | run | complete r => simp [callMachine, Config.step] at hstep
      | resume =>
        cases hstep
        obtain ⟨as₁, as₂, r₁, rfl, hev, hrun⟩ := exists_evaluates_of_run hrun hc
        obtain ⟨rfl, hl⟩ := run_final hrun
        cases hc
        simpa [callMachine, inputs, inputs_append, hl] using hev

end Libcoro.Task
