import Libcoro.Net.TcpClient

/-!
# `write_all` accounts for every byte

Every path through `write_some_impl` returns the part of the buffer that the kernel has not
accepted, and this is what the next round of `write_all` offers (`Sending`, `unsent`).
-/

namespace Libcoro.Net.Tcp

open Foundations
open Scheduler.Poll (PollStatus)

variable {memory : List UInt8} {timeout t startTime : ℤ} {s : Local} {l l' : Log}

/-- What `write_all` of the bytes `memory` may ask for after the log `before`: to send all of the
buffer that was not accepted yet, and to poll for no more than the time that is left. -/
def WriteStep (memory : List UInt8) (timeout : ℤ) (before : Log) : Exchange Request Answer → Prop
  | ⟨.now, _⟩ => True
  | ⟨.poll op t, _⟩ => op = .write ∧ (0 < timeout → 1 ≤ t ∧ t ≤ timeout - elapsed before)
  | ⟨.send buffer, _⟩ => buffer.offset = (accepted memory before).length ∧ 0 < buffer.size ∧
      buffer.offset + buffer.size = memory.length
  | ⟨.recv _, _⟩ => False

/-- The bytes accepted so far are the front of the buffer. -/
structure Sending (memory : List UInt8) (timeout : ℤ) (l : Log) : Prop where
  steps : Always (WriteStep memory timeout) l
  front : accepted memory l <+: memory

/-- The part of the buffer that was not accepted yet. -/
def unsent (memory : List UInt8) (l : Log) : Span :=
  ⟨(accepted memory l).length, memory.length - (accepted memory l).length⟩

/-- What one call of `send` or `write_some_impl` does, from the log `l` to the log `l'`. -/
structure Writes (memory : List UInt8) (timeout : ℤ) (l l' : Log) (status : IoStatus)
    (span : Span) : Prop where
  sending : Sending memory timeout l'
  rest : span = unsent memory l'
  clock : readings l' = readings l
  failed : status.isOk = false → accepted memory l' = accepted memory l
  stalled : stalls l ≤ stalls l'
  grows : (accepted memory l).length ≤ (accepted memory l').length
  progress : status.isOk = true →
    (accepted memory l).length + stalls l < (accepted memory l').length + stalls l'

/-- The rest depends on how much was accepted only. -/
lemma unsent_of_length {count : ℕ} (h : (accepted memory l).length = count) :
    unsent memory l = ⟨count, memory.length - count⟩ := by
  subst h
  rfl

lemma unsent_congr (h : accepted memory l' = accepted memory l) :
    unsent memory l' = unsent memory l :=
  unsent_of_length (congrArg List.length h)

/-- The front and the rest make up the buffer. -/
lemma Sending.append_unsent (h : Sending memory timeout l) :
    accepted memory l ++ (unsent memory l).bytes memory = memory := by
  have hbytes : (unsent memory l).bytes memory = memory.drop (accepted memory l).length := by
    rw [unsent, Span.bytes, ← List.length_drop, List.take_length]
  rw [hbytes]
  exact List.prefix_iff_eq_append.mp h.front

/-- The rest lies within the buffer. -/
lemma Sending.unsent_le (h : Sending memory timeout l) :
    (unsent memory l).offset + (unsent memory l).size ≤ memory.length :=
  (Nat.add_sub_cancel' h.front.length_le).le

/-- An exchange in which nothing is accepted. -/
lemma Sending.concat (h : Sending memory timeout l) {e : Exchange Request Answer}
    (he : WriteStep memory timeout l e) (hnone : acceptance memory e = []) :
    Sending memory timeout (l ++ [e]) := by
  refine ⟨always_concat.mpr ⟨h.steps, he⟩, ?_⟩
  simpa [hnone] using h.front

/-- The kernel accepts the first bytes of the rest. -/
lemma Sending.sent (h : Sending memory timeout l) {count : ℕ}
    (hcount : count ≤ (unsent memory l).size)
    (hstep : WriteStep memory timeout l ⟨.send (unsent memory l), .sent count hcount⟩) :
    Sending memory timeout (l ++ [⟨.send (unsent memory l), .sent count hcount⟩]) ∧
    (accepted memory (l ++ [⟨.send (unsent memory l), .sent count hcount⟩])).length =
      (accepted memory l).length + count := by
  set rest := memory.drop (accepted memory l).length with hrest
  have hmemory : accepted memory l ++ rest = memory := List.prefix_iff_eq_append.mp h.front
  have hlen : count ≤ rest.length := by
    rw [hrest, List.length_drop]
    exact hcount
  have hnew : accepted memory (l ++ [⟨.send (unsent memory l), .sent count hcount⟩]) =
      accepted memory l ++ rest.take count := accepted_concat ..
  refine ⟨⟨always_concat.mpr ⟨h.steps, hstep⟩, ?_⟩, ?_⟩
  · refine ⟨rest.drop count, ?_⟩
    rw [hnew, List.append_assoc, List.take_append_drop, hmemory]
  · rw [hnew, List.length_append, List.length_take, Nat.min_eq_left hlen]

/-- `send` of the rest. -/
lemma send_ensures (h : Sending memory timeout l)
    (hpos : (accepted memory l).length < memory.length) :
    (send (unsent memory l)).Ensures (fun l' r => Writes memory timeout l l' r.1 r.2) l := by
  have hstep : ∀ x, WriteStep memory timeout l ⟨.send (unsent memory l), x⟩ := by
    intro x
    refine ⟨rfl, ?_, ?_⟩
    · change 0 < memory.length - (accepted memory l).length
      omega
    · change (accepted memory l).length + (memory.length - (accepted memory l).length) = _
      omega
  simp only [send, Dialogue.ensures_bind, Dialogue.ensures_request, Dialogue.ensures_pure]
  intro x
  cases x with
  | sent count hcount =>
    obtain ⟨hsending, hlen⟩ := h.sent hcount (hstep _)
    refine ⟨hsending, ?_, by simp [reading], by simp [sendResult, IoStatus.isOk], by simp, by omega,
      fun _ => ?_⟩
    · rw [unsent_of_length hlen, ← Nat.sub_sub]
      rfl
    · rw [hlen, stalls_concat]
      simp only [stall]
      split_ifs <;> omega
  | error errno =>
    have hsame : accepted memory (l ++ [⟨.send (unsent memory l), .error errno⟩]) =
        accepted memory l := by simp [acceptance]
    refine ⟨h.concat (hstep _) rfl, (unsent_congr hsame).symm, by simp [reading], fun _ => hsame,
      by simp, by rw [hsame], fun hok => ?_⟩
    have hzero : errno = 0 := (isOk_fromNative errno).mp hok
    rw [hsame, stalls_concat]
    simp [stall, hzero]

/-- What is written after exchanges in which nothing was accepted. -/
lemma Writes.after {l₁ : Log} {status : IoStatus} {span : Span}
    (h : Writes memory timeout l₁ l' status span)
    (hsame : accepted memory l₁ = accepted memory l) (hclock : readings l₁ = readings l)
    (hstall : stalls l ≤ stalls l₁) : Writes memory timeout l l' status span := by
  refine ⟨h.sending, h.rest, h.clock.trans hclock, fun hbad => (h.failed hbad).trans hsame,
    hstall.trans h.stalled, ?_, fun hok => ?_⟩
  · rw [← hsame]
    exact h.grows
  · have hprogress := h.progress hok
    rw [hsame] at hprogress
    omega

/-- The slow path of `write_some_impl`. -/
lemma pollAndSend_ensures (h : Sending memory timeout l)
    (hpos : (accepted memory l).length < memory.length)
    (ht : 0 < timeout → 1 ≤ t ∧ t ≤ timeout - elapsed l) :
    (pollAndSend s (unsent memory l) t).Ensures
      (fun l' r => Writes memory timeout l l' r.2.1 r.2.2) l := by
  simp only [pollAndSend, Dialogue.ensures_bind, ensures_poll]
  intro status
  have hsending : Sending memory timeout (l ++ [⟨.poll .write t, status⟩]) :=
    h.concat ⟨rfl, ht⟩ rfl
  have hsame : accepted memory (l ++ [⟨.poll .write t, status⟩]) = accepted memory l := by
    simp [acceptance]
  rw [Dialogue.ensures_ite]
  constructor
  · intro _
    have hsend := send_ensures hsending (by rwa [hsame])
    rw [unsent_congr hsame] at hsend
    rw [Dialogue.ensures_bind]
    refine hsend.mono fun l' r hr => ?_
    exact hr.after hsame (by simp [reading]) (by simp)
  · intro hne
    refine ⟨hsending, (unsent_congr hsame).symm, by simp [reading], fun _ => hsame, by simp,
      by rw [hsame], fun hok => ?_⟩
    -- a poll for writing that reports the other direction counts as a success
    obtain rfl : status = .read := (isOk_fromPollStatus hok).resolve_right hne
    rw [hsame, stalls_concat]
    simp [stall]

/-- `write_some_impl` returns what was not accepted, on every path. -/
lemma writeSomeImpl_ensures (h : Sending memory timeout l)
    (hpos : (accepted memory l).length < memory.length)
    (ht : 0 < timeout → 1 ≤ t ∧ t ≤ timeout - elapsed l) :
    (writeSomeImpl s (unsent memory l) t).Ensures
      (fun l' r => Writes memory timeout l l' r.2.1 r.2.2) l := by
  rw [writeSomeImpl, Dialogue.ensures_ite]
  refine ⟨fun _ => ?_, fun _ => pollAndSend_ensures h hpos ht⟩
  rw [Dialogue.ensures_bind]
  refine (send_ensures h hpos).mono fun l₁ r hr => ?_
  obtain ⟨status, span⟩ := r
  simp only [Dialogue.ensures_ite, Dialogue.ensures_pure]
  refine ⟨fun hagain => ?_, fun _ => hr⟩
  have hsame : accepted memory l₁ = accepted memory l :=
    hr.failed (IoStatus.not_isOk_of_tryAgain hagain)
  have hslow := pollAndSend_ensures (s := { s with mIsWriteReady := false }) (t := t) hr.sending
    (by rwa [hsame]) (by rwa [elapsed_congr hr.clock])
  rw [unsent_congr hsame] at hslow
  exact hslow.mono fun l' r' hr' => hr'.after hsame hr.clock hr.stalled

/-- `write_some` returns the part of the buffer that was not accepted. -/
lemma writeSome_ensures (s : Local) (t : ℤ) :
    (writeSome s t).Ensures (fun l r => r.2.2 = unsent s.memory l) [] := by
  rw [writeSome, Dialogue.ensures_ite]
  constructor
  · intro hnil
    rw [Dialogue.ensures_pure, hnil]
    rfl
  · intro hne
    -- a call with its own timeout is the case in which `write_all` has no limit
    have hempty : Sending s.memory 0 [] := ⟨always_nil, List.nil_prefix⟩
    have hpos : (accepted s.memory []).length < s.memory.length := List.length_pos_of_ne_nil hne
    exact (writeSomeImpl_ensures (t := t) hempty hpos fun h => (lt_irrefl _ h).elim).mono
      fun l r hr => hr.rest

/-- The loop of `write_all` is entered with the rest of the buffer. -/
def WriteInv (memory : List UInt8) (timeout startTime : ℤ) (l : Log) : Local × Span → Prop
  | (_, remaining) => Sending memory timeout l ∧ remaining = unsent memory l ∧
      (readings l).head? = some startTime

/-- What `write_all` returns. -/
def WriteDone (memory : List UInt8) (timeout : ℤ) (l : Log) : Local × IoStatus × Span → Prop
  | (_, status, span) => Sending memory timeout l ∧
      span.offset + span.size ≤ memory.length ∧
      accepted memory l ++ span.bytes memory = memory ∧ (status.isOk = true ↔ span.size = 0)

/-- One round of the loop. -/
lemma writeAllBody_ensures {x : Local × Span} (h : WriteInv memory timeout startTime l x) :
    (writeAllBody timeout startTime x).Ensures (fun l' r =>
      r.elim (fun x' => WriteInv memory timeout startTime l' x' ∧
        (accepted memory l).length + stalls l < (accepted memory l').length + stalls l')
        (WriteDone memory timeout l')) l := by
  obtain ⟨s, remaining⟩ := x
  obtain ⟨hsending, rfl, hstart⟩ := h
  rw [writeAllBody, Dialogue.ensures_ite]
  constructor
  · intro hsize
    have hall := hsending.append_unsent
    have hnil : (unsent memory l).bytes memory = [] := by
      rw [Span.bytes, hsize, List.take_zero]
    rw [hnil] at hall
    exact ⟨hsending, Nat.zero_le _, hall, iff_of_true rfl rfl⟩
  · intro hsize
    have hpos : (accepted memory l).length < memory.length := by
      change memory.length - (accepted memory l).length ≠ 0 at hsize
      omega
    rw [Dialogue.ensures_bind]
    refine (remainingTimeout_ensures hstart).mono fun l₁ r hr => ?_
    obtain ⟨hlog, hhead, hleft⟩ := hr
    -- reading the clock changes nothing but the readings
    have hclock : accepted memory l₁ = accepted memory l ∧ stalls l₁ = stalls l ∧
        Sending memory timeout l₁ := by
      rcases hlog with rfl | ⟨time, rfl⟩
      · exact ⟨rfl, rfl, hsending⟩
      · exact ⟨by simp [acceptance], by simp [stall], hsending.concat trivial rfl⟩
    obtain ⟨hsame, hstall, hsending₁⟩ := hclock
    have hunsent : unsent memory l₁ = unsent memory l := unsent_congr hsame
    cases r with
    | none =>
      refine ⟨hsending₁, hsending.unsent_le, ?_, iff_of_false nofun hsize⟩
      rw [← hunsent]
      exact hsending₁.append_unsent
    | some t =>
      have hwrite := writeSomeImpl_ensures (s := s) hsending₁ (by rwa [hsame]) (hleft t rfl)
      rw [hunsent] at hwrite
      change Dialogue.Ensures _ (writeSomeImpl s (unsent memory l) t >>= _) l₁
      rw [Dialogue.ensures_bind]
      refine hwrite.mono fun l₂ r hr => ?_
      obtain ⟨s₂, status, unsentSpan⟩ := r
      simp only [Dialogue.ensures_ite, Dialogue.ensures_pure]
      constructor
      · intro hok
        refine ⟨⟨hr.sending, hr.rest, ?_⟩, ?_⟩
        · rw [hr.clock]
          exact hhead
        · have hprogress := hr.progress hok
          rw [hsame, hstall] at hprogress
          exact hprogress
      · intro hbad
        have hrest : unsentSpan = unsent memory l₂ := hr.rest
        have hnothing : accepted memory l₂ = accepted memory l :=
          (hr.failed (by simpa using hbad)).trans hsame
        refine ⟨hr.sending, ?_, ?_, iff_of_false hbad ?_⟩
        · rw [hrest]
          exact hr.sending.unsent_le
        · rw [hrest]
          exact hr.sending.append_unsent
        · rw [hrest, unsent_congr hnothing]
          exact hsize

/-- The whole call. -/
lemma writeAll_ensures (fuel : ℕ) (s : Local) (timeout : ℤ) :
    (writeAll fuel s timeout).Ensures (fun l r =>
      Always (WriteStep s.memory timeout) l ∧
      (r = none → fuel ≤ (accepted s.memory l).length + stalls l) ∧
      ∀ x ∈ r, WriteDone s.memory timeout l x) [] := by
  have hempty : Sending s.memory timeout [] := ⟨always_nil, List.nil_prefix⟩
  rw [writeAll, Dialogue.ensures_ite]
  constructor
  · intro hnil
    refine ⟨always_nil, by simp, ?_⟩
    rintro x ⟨⟩
    exact ⟨hempty, Nat.zero_le _, by simp [hnil, accepted, Span.bytes], iff_of_true rfl rfl⟩
  · intro _
    rw [writeAllImpl, Dialogue.ensures_bind]
    simp only [ensures_now]
    intro startTime
    have hinv : WriteInv s.memory timeout startTime ([] ++ [⟨.now, startTime⟩])
        (s, ⟨0, s.memory.length⟩) :=
      ⟨hempty.concat trivial rfl, by simp [unsent, acceptance, accepted],
        by simp [reading, readings]⟩
    refine (Dialogue.loop_ensures (c := fun l => (accepted s.memory l).length + stalls l)
      (fun l x => writeAllBody_ensures) fuel hinv).mono fun l r hr => ?_
    cases r with
    | none =>
      obtain ⟨⟨x, hx⟩, hrounds⟩ := hr
      refine ⟨hx.1.steps, fun _ => ?_, by simp⟩
      exact le_trans (Nat.le_add_right _ _) hrounds
    | some x =>
      have hsending : Sending s.memory timeout l := hr.1
      refine ⟨hsending.steps, by simp, ?_⟩
      rintro y ⟨⟩
      exact hr

/-- `write_all` accounts for every byte.  For every buffer, timeout and initial readiness, and
whatever the kernel, the scheduler and the clock answer:
* every `::send` is offered exactly the part of the buffer that was not accepted yet, and with a
  positive timeout every poll is given at least a millisecond and no more than what is left of it;
* there are at most as many rounds of the loop as bytes accepted and answers that move no byte;
* the bytes accepted, in order, and the span returned make up the buffer, and the status is `ok` if
  and only if the span is empty. -/
theorem write_all_accounts (env : Log → (r : Request) → Answer r) (fuel : ℕ) (s : Local)
    (timeout : ℤ) {log : Log} {r : Option (Local × IoStatus × Span)}
    (h : (writeAll fuel s timeout).play env [] = (log, r)) :
    Always (WriteStep s.memory timeout) log ∧
    (r = none → fuel ≤ (accepted s.memory log).length + stalls log) ∧
    ∀ s' status span, r = some (s', status, span) →
      span.offset + span.size ≤ s.memory.length ∧
      accepted s.memory log ++ span.bytes s.memory = s.memory ∧
      (status.isOk = true ↔ span.size = 0) := by
  obtain ⟨hsteps, hrounds, hdone⟩ := (writeAll_ensures fuel s timeout).of_play h
  refine ⟨hsteps, hrounds, ?_⟩
  rintro s' status span rfl
  exact (hdone _ rfl).2

/-- The kernel accepts a byte, is busy, and after a poll accepts another one; then it resets the
connection. -/
def writeScript : Log → (r : Request) → Answer r :=
  scripted (fun k => 1000000 * k) (fun _ => .write) (fun _ => .error 0)
    (fun k => if k = 4 then .error eagain else if k = 8 then .error econnreset else .ok 1)

/-- After two of three bytes the third one is returned with the error. -/
theorem write_all_accounts_reset : ∃ log s',
    (writeAll 5 ⟨false, true, [1, 2, 3]⟩ 20).play writeScript [] =
      (log, some (s', { type := .connectionReset, nativeCode := 104 }, ⟨2, 1⟩)) ∧
    log.length = 9 ∧ accepted [1, 2, 3] log = [1, 2] ∧
    accepted [1, 2, 3] log ++ (⟨2, 1⟩ : Span).bytes [1, 2, 3] = [1, 2, 3] :=
  ⟨_, _, rfl, rfl, rfl, ((write_all_accounts writeScript 5 ⟨false, true, [1, 2, 3]⟩ 20 rfl).2.2
    _ _ _ rfl).2.1⟩

end Libcoro.Net.Tcp
