import Libcoro.Foundations.Machine

/-!
# Closing a channel

A channel is closed in two ways.  A drain closes it to producers, waits without the lock until it
has seen the channel empty, and then goes on as a stop; a stop loads the state, compares it under
the lock with what it has loaded, and gives up when the two differ.  `ClosingStage` says where a
call stands in this, and `ClosingStage.Step` what a step can do.  Two things follow for every
channel whose steps are of this kind: a stop that has come to its end leaves the channel stopped,
unless a drain begins between its load and its comparison (`Step.knows`); and a channel that is only
drained stops empty (`Step.drained`).
-/

namespace Foundations

open Function

/-- How far a channel is closed. -/
inductive RunningState where
  | running
  | draining
  | stopped
  deriving DecidableEq, Repr

/-- Where a call stands in the closing of a channel. -/
inductive ClosingStage where
  | outside
  -- A drain is about to close the channel, or waits until it has seen the channel empty.
  | closing
  | draining
  -- A stop is about to load the state, or to compare it with what it has loaded.
  | loading
  | comparing (expected : RunningState)
  -- A stop has stopped the channel, or has found that it need not.
  | finished

namespace ClosingStage

/-- One move of a call, with the state `m` before and the one after it.  The channel is `empty`
when the move is made, and a call may begin a stop if it `enters`. -/
inductive Move (empty enters : Prop) (m : RunningState) :
    ClosingStage → RunningState → ClosingStage → Prop
  | stay {q : ClosingStage} : Move empty enters m q m q
  | leave {q : ClosingStage} : Move empty enters m q m .outside
  | enterDrain : Move empty enters m .outside m .closing
  | enterStop : enters → Move empty enters m .outside m .loading
  | close : m = .running → Move empty enters m .closing .draining .draining
  | drained : empty → Move empty enters m .draining m .loading
  | drainLeft : m ≠ .draining → Move empty enters m .draining m .loading
  | found : m = .stopped → Move empty enters m .loading m .finished
  | load : m ≠ .stopped → Move empty enters m .loading m (.comparing m)
  | lost {expected : RunningState} : m ≠ expected →
      Move empty enters m (.comparing expected) m .finished
  | stop : Move empty enters m (.comparing m) .stopped .finished

/-- What a stop knows about the state `m`. -/
@[simp] def Knows (m : RunningState) : ClosingStage → Prop
  | .comparing x =>
    x ≠ .stopped ∧ (x = .running → m ≠ .draining) ∧ (x = .draining → m ≠ .running)
  | .finished => m = .stopped
  | _ => True

/-- What a drain has seen: that the channel is `closed` to producers, and from the end of its loop
on that it is `empty`. -/
def Saw (closed empty : Prop) : ClosingStage → Prop
  | .draining => closed
  | .loading => closed ∧ empty
  | .comparing _ => closed ∧ empty
  | _ => True

variable {empty enters empty' : Prop} {m m' : RunningState} {q q' : ClosingStage}

/-- A stopped channel stays stopped. -/
lemma Move.stopped (h : Move empty enters m q m' q') (hm : m = .stopped) : m' = .stopped := by
  cases h with
  | close hrun => simp [hm] at hrun
  | stop => rfl
  | _ => exact hm

/-- A channel that is closed to producers stays so. -/
lemma Move.closed (h : Move empty enters m q m' q') (hm : m ≠ .running) : m' ≠ .running := by
  cases h with
  | close hrun => exact (hm hrun).elim
  | stop => simp
  | _ => exact hm

/-- A move of another call contradicts no stop, but for one that has loaded `running` when the
channel begins to drain. -/
lemma Knows.of_move {p p' : ClosingStage} (h : q.Knows m) (hmove : Move empty enters m p m' p')
    (hguard : p = .closing → m = .running → q ≠ .comparing .running) : q.Knows m' := by
  cases hmove with
  | close hrun =>
    subst hrun
    cases q with
    | comparing x =>
      refine ⟨h.1, ?_, by simp⟩
      rintro rfl
      exact (hguard rfl rfl rfl).elim
    | finished => cases h
    | _ => trivial
  | stop =>
    cases q with
    | comparing x => exact ⟨h.1, by simp, by simp⟩
    | _ => trivial
  | _ => exact h

/-- What a call knows after its own move. -/
lemma Move.knows (hmove : Move empty enters m q m' q') (h : q.Knows m) : q'.Knows m' := by
  cases hmove with
  | stay => exact h
  | found hstop => exact hstop
  | load hload =>
    refine ⟨hload, ?_, ?_⟩
    · intro hx
      simp [hx]
    · intro hx
      simp [hx]
  | @lost x hne =>
    -- the comparison fails only because somebody else has stopped the channel
    obtain ⟨hx, hrun, hdrain⟩ := h
    change m = .stopped
    cases x <;> cases m <;> simp_all
  | stop => rfl
  | _ => trivial

/-- What a call has seen stays true of a channel that stays closed and, once closed, empty. -/
lemma Saw.mono {a b : Prop} (h : q.Saw a empty) (hclosed : a → b)
    (hempty : a → empty → empty') : q.Saw b empty' := by
  cases q with
  | draining => exact hclosed h
  | loading | comparing x => exact ⟨hclosed h.1, hempty h.1 h.2⟩
  | _ => trivial

/-- What a call has seen after its own move. -/
lemma Move.saw (hmove : Move empty enters m q m' q') (henters : ¬ enters)
    (h : q.Saw (m ≠ .running) empty) (hstopped : m = .stopped → empty)
    (hempty : m ≠ .running → empty → empty') : q'.Saw (m' ≠ .running) empty' := by
  cases hmove with
  | stay => exact h.mono id hempty
  | load => exact ⟨h.1, hempty h.1 h.2⟩
  | enterStop he => exact (henters he).elim
  | close => simp [Saw]
  | drained he => exact ⟨h, hempty h he⟩
  | drainLeft hne =>
    -- the state has left `draining` for `stopped`
    refine ⟨h, hempty h (hstopped ?_)⟩
    cases m with
    | running => exact (h rfl).elim
    | draining => exact (hne rfl).elim
    | stopped => rfl
  | _ => trivial

/-- A move that leaves the channel stopped leaves it empty. -/
lemma Move.empty_of_stopped (hmove : Move empty enters m q m' q')
    (h : q.Saw (m ≠ .running) empty) (hstopped : m = .stopped → empty)
    (hempty : m ≠ .running → empty → empty') (hm : m' = .stopped) : empty' := by
  cases hmove with
  | close => cases hm
  | stop => exact hempty h.1 h.2
  | _ => exact hempty (by simp [hm]) (hstopped hm)

section Step

variable {P κ : Type*} {stage : P → ClosingStage} {c w : κ} {pc pc' : κ → P}

/-- The state of a channel that nobody has stopped without having drained it. -/
structure Drained (stage : P → ClosingStage) (empty : Prop) (m : RunningState) (pc : κ → P) :
    Prop where
  calls : ∀ c, (stage (pc c)).Saw (m ≠ .running) empty
  stopped : m = .stopped → empty

/-- A step of the call `c` of a system whose calls are at the control points `pc`: the call makes
one move, and a call that it resumes is outside. -/
structure Step (stage : P → ClosingStage) (empty enters : Prop) (c : κ) (m m' : RunningState)
    (pc pc' : κ → P) : Prop where
  own : Move empty enters m (stage (pc c)) m' (stage (pc' c))
  others : ∀ d, d ≠ c → stage (pc' d) = stage (pc d) ∨ stage (pc' d) = .outside

namespace Step

variable [DecidableEq κ] {a p : P}

/-- The call `c` moves to `p`. -/
lemma of_update (h : Move empty enters m (stage (pc c)) m' (stage p)) :
    Step stage empty enters c m m' pc (update pc c p) := by
  refine ⟨by simpa using h, ?_⟩
  intro d hd
  simp [hd]

/-- The call `c` moves to `p` and resumes the call `w`. -/
lemma of_resume (ha : stage a = .outside) (h : Move empty enters m (stage (pc c)) m' (stage p)) :
    Step stage empty enters c m m' pc (update (update pc w a) c p) := by
  refine ⟨by simpa using h, ?_⟩
  intro d hd
  rcases eq_or_ne d w with rfl | hdw
  · simp [hd, ha]
  · simp [hd, hdw]

omit [DecidableEq κ]

/-- Every step keeps what the stops know, unless a drain begins while one of them has loaded
`running`. -/
lemma knows (hstep : Step stage empty enters c m m' pc pc') (h : ∀ d, (stage (pc d)).Knows m)
    (hguard : stage (pc c) = .closing → m = .running →
      ∀ d, stage (pc d) ≠ .comparing .running) : ∀ d, (stage (pc' d)).Knows m' := by
  intro d
  by_cases hd : d = c
  · rw [hd]
    exact hstep.own.knows (h c)
  · rcases hstep.others d hd with hsame | hout
    · rw [hsame]
      exact (h d).of_move hstep.own fun hc hrun => hguard hc hrun d
    · rw [hout]
      trivial

/-- A channel that only drains stop, and that stays empty once it is closed and empty, stops
empty. -/
lemma drained (hstep : Step stage empty enters c m m' pc pc') (henters : ¬ enters)
    (h : Drained stage empty m pc) (hempty : m ≠ .running → empty → empty') :
    Drained stage empty' m' pc' := by
  refine ⟨?_, hstep.own.empty_of_stopped (h.calls c) h.stopped hempty⟩
  intro d
  by_cases hd : d = c
  · rw [hd]
    exact hstep.own.saw henters (h.calls c) h.stopped hempty
  · rcases hstep.others d hd with hsame | hout
    · rw [hsame]
      exact (h.calls d).mono hstep.own.closed hempty
    · rw [hout]
      trivial

end Step

end Step

end ClosingStage

end Foundations
