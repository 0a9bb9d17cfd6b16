import Libcoro.Net.TcpClient

/-!
# Readiness that turns out to be wrong

A system call that would block is tried again after a poll if the client relied on its own flag.
After a poll that reported readiness it is not: `read_some_impl` and `write_some_impl` return what
the call returned, and the loops around them take this for an error.
As long as every poll that reports readiness is right about the call that follows it, `read_exact`
and `write_all` never return `would_block_or_try_again`, and every call that would block is
followed by a poll.
-/

namespace Libcoro.Net.Tcp

open Foundations
open Scheduler.Poll (PollStatus)

variable {s : Local} {buffer : Span} {timeout t startTime : ℤ} {l : Log}
  {e : Exchange Request Answer}

/-- A system call that would block. -/
def wouldBlock : Exchange Request Answer → Bool
  | ⟨.recv _, .error errno⟩ => errno = eagain
  | ⟨.send _, .error errno⟩ => errno = eagain
  | _ => false

/-- A poll that reports what it was asked for. -/
def reportsReady : Exchange Request Answer → Bool
  | ⟨.poll .read _, .read⟩ => true
  | ⟨.poll .write _, .write⟩ => true
  | _ => false

/-- A poll. -/
def isPoll : Exchange Request Answer → Bool
  | ⟨.poll _ _, _⟩ => true
  | _ => false

/-- No call blocks right after a poll has reported that it would not. -/
def Reliable (before : Log) (e : Exchange Request Answer) : Prop :=
  wouldBlock e = true → ∀ p ∈ before.getLast?, reportsReady p = false

/-- Every call that would block is followed by a poll. -/
abbrev Absorbed (l : Log) : Prop := Followed wouldBlock isPoll l

/-- The status after a log is not `would_block_or_try_again`, if the polls were reliable. -/
def Absorbs (l : Log) (status : IoStatus) : Prop :=
  Always Reliable l → Absorbed l ∧ status.tryAgain = false

/-- A call after a poll that reported readiness. -/
lemma absorbs_call (h : Always Reliable l → Absorbed l) {p : Exchange Request Answer}
    (hlast : p ∈ l.getLast?) (hready : reportsReady p = true) {status : IoStatus}
    (hstatus : status.tryAgain = wouldBlock e) : Absorbs (l ++ [e]) status := by
  intro hreliable
  obtain ⟨hbefore, he⟩ := always_concat.mp hreliable
  have hgoes : wouldBlock e = false := by
    by_contra hblock
    have hnot : reportsReady p = false := he (by simpa using hblock) p hlast
    rw [hready] at hnot
    cases hnot
  exact ⟨(h hbefore).concat hgoes, hstatus.trans hgoes⟩

/-! ## Reading -/

/-- The status of a `::recv` asks to try again exactly when the call would have blocked. -/
lemma tryAgain_recvResult (x : RecvResult buffer.size) :
    (recvResult s buffer x).2.1.tryAgain = wouldBlock ⟨.recv buffer, x⟩ := by
  cases x with
  | data bytes h => rfl
  | closed => rfl
  | error errno =>
    rw [Bool.eq_iff_iff]
    simp [recvResult, wouldBlock]

/-- A `::recv` after a reliable poll does not block. -/
lemma pollAndRecv_absorbs
    (h : ∀ status, Always Reliable l → Absorbed (l ++ [⟨.poll .read t, status⟩])) :
    (pollAndRecv s buffer t).Ensures (fun l' r => Absorbs l' r.2.1) l := by
  simp only [pollAndRecv, Dialogue.ensures_bind, ensures_poll, Dialogue.ensures_ite]
  intro status
  have hpoll : Always Reliable (l ++ [⟨.poll .read t, status⟩]) →
      Absorbed (l ++ [⟨.poll .read t, status⟩]) :=
    fun hreliable => h status (always_concat.mp hreliable).1
  constructor
  · rintro rfl x
    exact absorbs_call hpoll List.getLast?_concat rfl (tryAgain_recvResult x)
  · intro _ hreliable
    exact ⟨hpoll hreliable, tryAgain_fromPollStatus status⟩

/-- A `::recv` that relied on a wrong flag is followed by a poll. -/
lemma readSomeImpl_absorbs (h : Always Reliable l → Absorbed l) :
    (readSomeImpl s buffer t).Ensures (fun l' r => Absorbs l' r.2.1) l := by
  rw [readSomeImpl, Dialogue.ensures_ite]
  constructor
  · intro _
    rw [Dialogue.ensures_bind]
    intro x
    -- the flag was right, or else a poll follows
    refine Dialogue.ensures_ite.mpr ⟨fun _ => ?_, fun hgoes => ?_⟩
    · exact pollAndRecv_absorbs fun status hreliable =>
        (h (always_concat.mp hreliable).1).pair rfl rfl
    · intro hreliable
      have hfalse : (recvResult s buffer x).2.1.tryAgain = false := Bool.eq_false_iff.mpr hgoes
      refine ⟨(h (always_concat.mp hreliable).1).concat ?_, hfalse⟩
      rw [← tryAgain_recvResult x, hfalse]
  · intro _
    exact pollAndRecv_absorbs fun status hreliable => (h hreliable).concat rfl

/-! ## Writing -/

/-- The status of a `::send` asks to try again exactly when the call would have blocked. -/
lemma tryAgain_sendResult (x : SendResult buffer.size) :
    (sendResult buffer x).1.tryAgain = wouldBlock ⟨.send buffer, x⟩ := by
  cases x with
  | sent count h => rfl
  | error errno =>
    rw [Bool.eq_iff_iff]
    simp [sendResult, wouldBlock]

/-- A `::send` after a reliable poll does not block. -/
lemma pollAndSend_absorbs
    (h : ∀ status, Always Reliable l → Absorbed (l ++ [⟨.poll .write t, status⟩])) :
    (pollAndSend s buffer t).Ensures (fun l' r => Absorbs l' r.2.1) l := by
  simp only [pollAndSend, Dialogue.ensures_bind, ensures_poll, Dialogue.ensures_ite]
  intro status
  have hpoll : Always Reliable (l ++ [⟨.poll .write t, status⟩]) →
      Absorbed (l ++ [⟨.poll .write t, status⟩]) :=
    fun hreliable => h status (always_concat.mp hreliable).1
  constructor
  · rintro rfl x
    exact absorbs_call hpoll List.getLast?_concat rfl (tryAgain_sendResult x)
  · intro _ hreliable
    exact ⟨hpoll hreliable, tryAgain_fromPollStatus status⟩

/-- A `::send` that relied on a wrong flag is followed by a poll. -/
lemma writeSomeImpl_absorbs (h : Always Reliable l → Absorbed l) :
    (writeSomeImpl s buffer t).Ensures (fun l' r => Absorbs l' r.2.1) l := by
  rw [writeSomeImpl, Dialogue.ensures_ite]
  constructor
  · intro _
    rw [Dialogue.ensures_bind]
    intro x
    refine Dialogue.ensures_ite.mpr ⟨fun _ => ?_, fun hgoes => ?_⟩
    · exact pollAndSend_absorbs fun status hreliable =>
        (h (always_concat.mp hreliable).1).pair rfl rfl
    · intro hreliable
      have hfalse : (sendResult buffer x).1.tryAgain = false := Bool.eq_false_iff.mpr hgoes
      refine ⟨(h (always_concat.mp hreliable).1).concat ?_, hfalse⟩
      rw [← tryAgain_sendResult x, hfalse]
  · intro _
    exact pollAndSend_absorbs fun status hreliable => (h hreliable).concat rfl

/-! ## The loops -/

/-- The time that is left is found out without a call. -/
lemma remainingTimeout_absorbs (h : Always Reliable l → Absorbed l) :
    (remainingTimeout timeout startTime).Ensures
      (fun l' _ => Always Reliable l' → Absorbed l') l := by
  rw [remainingTimeout, Dialogue.ensures_ite]
  refine ⟨fun _ => ?_, fun _ => h⟩
  simp only [Dialogue.ensures_bind, ensures_now, Dialogue.ensures_ite, Dialogue.ensures_pure]
  intro time
  have hnow : Always Reliable (l ++ [⟨.now, time⟩]) → Absorbed (l ++ [⟨.now, time⟩]) :=
    fun hreliable => (h (always_concat.mp hreliable).1).concat rfl
  exact ⟨fun _ => hnow, fun _ => hnow⟩

/-- The step lemma of `read_exact`. -/
lemma readExactBody_absorbs (h : Always Reliable l → Absorbed l) (x : Local × Span) :
    (readExactBody buffer timeout startTime x).Ensures (fun l' r =>
      r.elim (fun _ => Always Reliable l' → Absorbed l') (fun r => Absorbs l' r.2.1)) l := by
  obtain ⟨s, remaining⟩ := x
  rw [readExactBody, Dialogue.ensures_ite]
  refine ⟨fun _ hreliable => ⟨h hreliable, rfl⟩, fun _ => ?_⟩
  rw [Dialogue.ensures_bind]
  refine (remainingTimeout_absorbs h).mono fun l₁ r h₁ => ?_
  cases r with
  | none => exact fun hreliable => ⟨h₁ hreliable, rfl⟩
  | some t =>
    change Dialogue.Ensures _ (readSomeImpl s remaining t >>= _) l₁
    rw [Dialogue.ensures_bind]
    refine (readSomeImpl_absorbs h₁).mono fun l₂ r h₂ => ?_
    exact Dialogue.ensures_ite.mpr ⟨fun _ hreliable => (h₂ hreliable).1, fun _ => h₂⟩

/-- The step lemma of `write_all`. -/
lemma writeAllBody_absorbs (h : Always Reliable l → Absorbed l) (x : Local × Span) :
    (writeAllBody timeout startTime x).Ensures (fun l' r =>
      r.elim (fun _ => Always Reliable l' → Absorbed l') (fun r => Absorbs l' r.2.1)) l := by
  obtain ⟨s, remaining⟩ := x
  rw [writeAllBody, Dialogue.ensures_ite]
  refine ⟨fun _ hreliable => ⟨h hreliable, rfl⟩, fun _ => ?_⟩
  rw [Dialogue.ensures_bind]
  refine (remainingTimeout_absorbs h).mono fun l₁ r h₁ => ?_
  cases r with
  | none => exact fun hreliable => ⟨h₁ hreliable, rfl⟩
  | some t =>
    change Dialogue.Ensures _ (writeSomeImpl s remaining t >>= _) l₁
    rw [Dialogue.ensures_bind]
    refine (writeSomeImpl_absorbs h₁).mono fun l₂ r h₂ => ?_
    exact Dialogue.ensures_ite.mpr ⟨fun _ hreliable => (h₂ hreliable).1, fun _ => h₂⟩

/-- What both functions ensure after reading the clock: a loop whose rounds absorb readiness that
was wrong. -/
lemma loop_absorbs {σ : Type} {body : σ → Io (σ ⊕ (Local × IoStatus × Span))}
    (hbody : ∀ l x, (Always Reliable l → Absorbed l) → (body x).Ensures (fun l' r =>
      r.elim (fun _ => Always Reliable l' → Absorbed l') (fun r => Absorbs l' r.2.1)) l)
    (fuel : ℕ) (x : σ) (h : Always Reliable l → Absorbed l) :
    (Dialogue.loop body fuel x).Ensures
      (fun l' r => Always Reliable l' → Absorbed l' ∧ ∀ y ∈ r, y.2.1.tryAgain = false) l := by
  have hrule := Dialogue.loop_rule (I := fun _ l _ => Always Reliable l → Absorbed l)
    (R := fun l' (r : Local × IoStatus × Span) => Absorbs l' r.2.1)
    (fun _ l x hl => hbody l x hl) fuel (k := 0) (s := x) h
  refine hrule.mono fun l' r hr hreliable => ?_
  cases r with
  | none =>
    obtain ⟨-, hl'⟩ := hr
    exact ⟨hl' hreliable, nofun⟩
  | some y =>
    obtain ⟨habsorbed, hstatus⟩ := hr hreliable
    refine ⟨habsorbed, ?_⟩
    rintro z ⟨⟩
    exact hstatus

/-- The run lemma of `read_exact`. -/
lemma readExact_absorbs (fuel : ℕ) (s : Local) (timeout : ℤ) :
    (readExact fuel s timeout).Ensures
      (fun l r => Always Reliable l → Absorbed l ∧ ∀ y ∈ r, y.2.1.tryAgain = false) [] := by
  rw [readExact, Dialogue.ensures_ite]
  constructor
  · intro _ _
    refine ⟨followed_nil, ?_⟩
    rintro y ⟨⟩
    rfl
  · intro _
    rw [readExactImpl, Dialogue.ensures_bind]
    simp only [ensures_now]
    intro startTime
    exact loop_absorbs (fun l x h => readExactBody_absorbs h x) fuel _
      fun _ => followed_nil.concat rfl

/-- The run lemma of `write_all`. -/
lemma writeAll_absorbs (fuel : ℕ) (s : Local) (timeout : ℤ) :
    (writeAll fuel s timeout).Ensures
      (fun l r => Always Reliable l → Absorbed l ∧ ∀ y ∈ r, y.2.1.tryAgain = false) [] := by
  rw [writeAll, Dialogue.ensures_ite]
  constructor
  · intro _ _
    refine ⟨followed_nil, ?_⟩
    rintro y ⟨⟩
    rfl
  · intro _
    rw [writeAllImpl, Dialogue.ensures_bind]
    simp only [ensures_now]
    intro startTime
    exact loop_absorbs (fun l x h => writeAllBody_absorbs h x) fuel _
      fun _ => followed_nil.concat rfl

/-- In every run of `read_exact` or `write_all` in which no call blocks right after a poll has
reported that it would not, the status returned is not `would_block_or_try_again`, and every call
that would block is followed by a poll. -/
theorem spurious_readiness_absorbed (env : Log → (r : Request) → Answer r) (fuel : ℕ) (s : Local)
    (timeout : ℤ) {call : Io (Option (Local × IoStatus × Span))}
    (hcall : call = readExact fuel s timeout ∨ call = writeAll fuel s timeout)
    {log : Log} {r : Option (Local × IoStatus × Span)} (h : call.play env [] = (log, r))
    (hreliable : Always Reliable log) :
    (∀ s' status span, r = some (s', status, span) → status.type ≠ .wouldBlockOrTryAgain) ∧
    Followed wouldBlock isPoll log := by
  have habsorbs : Absorbed log ∧ ∀ y ∈ r, y.2.1.tryAgain = false := by
    rcases hcall with rfl | rfl
    · exact (readExact_absorbs fuel s timeout).of_play h hreliable
    · exact (writeAll_absorbs fuel s timeout).of_play h hreliable
  refine ⟨?_, habsorbs.1⟩
  rintro s' status span rfl
  simpa [IoStatus.tryAgain] using habsorbs.2 _ rfl

/-- The flag says ready; the second call would block, and after a poll the last byte arrives. -/
def staleFlagScript : Log → (r : Request) → Answer r :=
  scripted (fun _ => 0) (fun _ => .read)
    (fun k => if k = 2 then .error eagain else .ok [7]) (fun _ => .error 0)

/-- A flag that turns out to be wrong is absorbed. -/
theorem spurious_readiness_absorbed_flag : ∃ log s',
    (readExact 3 ⟨true, false, [0, 0]⟩ 0).play staleFlagScript [] =
      (log, some (s', { type := .ok }, ⟨0, 2⟩)) ∧
    log.countP wouldBlock = 1 ∧ Followed wouldBlock isPoll log := by
  have hrun : ∃ log s', (readExact 3 ⟨true, false, [0, 0]⟩ 0).play staleFlagScript [] =
      (log, some (s', { type := .ok }, ⟨0, 2⟩)) ∧ log.countP wouldBlock = 1 ∧
      Always Reliable log := by
    refine ⟨[] ++ [⟨.now, (0 : ℤ)⟩] ++ [⟨.recv ⟨0, 2⟩, .data [7] (by decide)⟩] ++
      [⟨.recv ⟨1, 1⟩, .error eagain⟩] ++ [⟨.poll .read 0, PollStatus.read⟩] ++
      [⟨.recv ⟨1, 1⟩, .data [7] (by decide)⟩], _, rfl, rfl, ?_⟩
    simp only [always_concat, always_nil, Reliable]
    simp [wouldBlock, reportsReady]
  obtain ⟨log, s', hplay, hcount, hreliable⟩ := hrun
  exact ⟨log, s', hplay, hcount,
    (spurious_readiness_absorbed _ _ _ _ (Or.inl rfl) hplay hreliable).2⟩

/-- Every poll reports what it was asked for, and every call would block. -/
def spuriousScript (status : PollStatus) : Log → (r : Request) → Answer r :=
  scripted (fun _ => 0) (fun _ => status) (fun _ => .error eagain) (fun _ => .error eagain)

/-- A single poll that was wrong makes both functions give up, although no time limit was set. -/
theorem spurious_readiness_returned :
    (∃ log s', (readExact 2 ⟨false, false, [0]⟩ 0).play (spuriousScript .read) [] =
        (log, some (s', { type := .wouldBlockOrTryAgain, nativeCode := eagain }, ⟨0, 0⟩)) ∧
      log = [⟨.now, (0 : ℤ)⟩, ⟨.poll .read 0, PollStatus.read⟩,
        ⟨.recv ⟨0, 1⟩, .error eagain⟩]) ∧
    ∃ log s', (writeAll 2 ⟨false, false, [7]⟩ 0).play (spuriousScript .write) [] =
        (log, some (s', { type := .wouldBlockOrTryAgain, nativeCode := eagain }, ⟨0, 1⟩)) ∧
      log = [⟨.now, (0 : ℤ)⟩, ⟨.poll .write 0, PollStatus.write⟩,
        ⟨.send ⟨0, 1⟩, .error eagain⟩] :=
  ⟨⟨_, _, rfl, rfl⟩, ⟨_, _, rfl, rfl⟩⟩

end Libcoro.Net.Tcp
