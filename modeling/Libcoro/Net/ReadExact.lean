import Libcoro.Net.TcpClient

/-!
# `read_exact` fills the buffer in order

The loop of `read_exact` composes a fast path, which reads without a poll, and a slow path.  Both
offer the kernel the rest of the buffer, so the bytes received so far are at each moment the front
part of the buffer (`Filling`), whatever status a round ends with.

The time that has passed is taken in whole milliseconds.  A poll may therefore be given more than
what is left of the timeout, but by less than a millisecond.
-/

namespace Libcoro.Net.Tcp

open Foundations
open Scheduler.Poll (PollStatus)

variable {n : ℕ} {timeout t startTime : ℤ} {s : Local} {l l' : Log}

/-- What `read_exact` into `n` bytes may ask for after the log `before`: to receive into all of the
buffer that is not filled yet, and to poll for the timeout less the whole milliseconds that have
passed, which is less than a millisecond more than what is left. -/
def ReadStep (n : ℕ) (timeout : ℤ) (before : Log) : Exchange Request Answer → Prop
  | ⟨.now, _⟩ => True
  | ⟨.poll op t, _⟩ => op = .read ∧ (0 < timeout → 1 ≤ t ∧ t ≤ timeout - elapsed before ∧
      1000000 * t < 1000000 * timeout - elapsedNs before + 1000000)
  | ⟨.recv buffer, _⟩ =>
    buffer.offset = (received before).length ∧ 0 < buffer.size ∧ buffer.offset + buffer.size = n
  | ⟨.send _, _⟩ => False

/-- The bytes received fill the front of a buffer of `n` bytes. -/
structure Filling (n : ℕ) (timeout : ℤ) (memory : List UInt8) (l : Log) : Prop where
  steps : Always (ReadStep n timeout) l
  fits : (received l).length ≤ n
  size : memory.length = n
  filled : memory.take (received l).length = received l

/-- The part of the buffer that is not filled yet. -/
def unfilled (n : ℕ) (l : Log) : Span := ⟨(received l).length, n - (received l).length⟩

/-- What one call of `recv` or `read_some_impl` does, from the log `l` to the log `l'`. -/
structure Reads (n : ℕ) (timeout : ℤ) (l l' : Log) (r : Local × IoStatus × Span) : Prop where
  filling : Filling n timeout r.1.memory l'
  grown : (received l').length = (received l).length + r.2.2.size
  clock : readings l' = readings l
  failed : r.2.1.isOk = false → r.2.2.size = 0
  stalled : stalls l ≤ stalls l'
  progress : r.2.1.isOk = true → (received l).length + stalls l < (received l').length + stalls l'

/-- To receive into the unfilled part is allowed as long as there is one. -/
lemma readStep_recv (hpos : (received l).length < n) (x : RecvResult (unfilled n l).size) :
    ReadStep n timeout l ⟨.recv (unfilled n l), x⟩ := by
  refine ⟨rfl, ?_, ?_⟩
  · change 0 < n - (received l).length
    omega
  · change (received l).length + (n - (received l).length) = n
    omega

variable {memory : List UInt8}

/-- An exchange that delivers nothing leaves the buffer as it is. -/
lemma Filling.concat (h : Filling n timeout memory l)
    {e : Exchange Request Answer} (he : ReadStep n timeout l e) (hnone : delivery e = []) :
    Filling n timeout memory (l ++ [e]) := by
  refine ⟨always_concat.mpr ⟨h.steps, he⟩, ?_, h.size, ?_⟩
  · simpa [hnone] using h.fits
  · simpa [hnone] using h.filled

/-- The span that `read_exact` returns when it ends early. -/
lemma Filling.first_unfilled (h : Filling n timeout memory l) :
    (⟨0, n⟩ : Span).first (n - (unfilled n l).size) = ⟨0, (received l).length⟩ := by
  have hfits := h.fits
  change (⟨0, n - (n - (received l).length)⟩ : Span) = _
  congr 1
  omega

/-- Bytes received into the unfilled part are added to the front. -/
lemma Filling.data (h : Filling n timeout memory l)
    (hpos : (received l).length < n) {bytes : List UInt8}
    (hb : 0 < bytes.length ∧ bytes.length ≤ (unfilled n l).size) :
    Filling n timeout (writeAt memory (received l).length bytes)
      (l ++ [⟨.recv (unfilled n l), .data bytes hb⟩]) := by
  have hfits := h.fits
  have hlen : bytes.length ≤ n - (received l).length := hb.2
  have hfilled := h.filled
  refine ⟨always_concat.mpr ⟨h.steps, readStep_recv hpos _⟩, ?_, ?_, ?_⟩
  · simp only [received_concat, delivery, List.length_append]
    omega
  · simp only [writeAt, List.length_append, List.length_take, List.length_drop, h.size]
    omega
  · simp only [received_concat, delivery, writeAt, hfilled]
    rw [← List.length_append, List.take_left']
    rfl

/-- `recv` into the unfilled part. -/
lemma recv_ensures (h : Filling n timeout s.memory l) (hpos : (received l).length < n) :
    (recv s (unfilled n l)).Ensures (Reads n timeout l) l := by
  simp only [recv, Dialogue.ensures_bind, Dialogue.ensures_request, Dialogue.ensures_pure]
  intro x
  cases x with
  | data bytes hb =>
    refine ⟨h.data hpos hb, ?_, by simp [reading], fun hbad => ?_, by simp, ?_⟩
    · simp [recvResult, Span.first, delivery]
    · simp [recvResult, IoStatus.isOk] at hbad
    · intro _
      simp only [received_concat, stalls_concat, delivery, List.length_append]
      omega
  | closed =>
    exact ⟨h.concat (readStep_recv hpos _) rfl, by simp [recvResult, Span.empty, delivery],
      by simp [reading], fun _ => rfl, by simp, by simp [recvResult, IoStatus.isOk]⟩
  | error errno =>
    refine ⟨h.concat (readStep_recv hpos _) rfl, by simp [recvResult, Span.empty, delivery],
      by simp [reading], fun _ => rfl, by simp, ?_⟩
    intro hok
    have hzero : errno = 0 := (isOk_fromNative errno).mp hok
    simp [stall, delivery, hzero]

/-- What is read after exchanges that delivered nothing. -/
lemma Reads.after {l₁ : Log} {r : Local × IoStatus × Span} (h : Reads n timeout l₁ l' r)
    (hlen : (received l₁).length = (received l).length) (hclock : readings l₁ = readings l)
    (hstall : stalls l ≤ stalls l₁) : Reads n timeout l l' r := by
  refine ⟨h.filling, ?_, h.clock.trans hclock, h.failed, hstall.trans h.stalled, fun hok => ?_⟩
  · rw [h.grown, hlen]
  · have hprogress := h.progress hok
    omega

/-- The slow path of `read_some_impl`. -/
lemma pollAndRecv_ensures (h : Filling n timeout s.memory l) (hpos : (received l).length < n)
    (ht : 0 < timeout → 1 ≤ t ∧ t ≤ timeout - elapsed l) :
    (pollAndRecv s (unfilled n l) t).Ensures (Reads n timeout l) l := by
  simp only [pollAndRecv, Dialogue.ensures_bind, ensures_poll]
  intro status
  have hfill : Filling n timeout s.memory (l ++ [⟨.poll .read t, status⟩]) := by
    refine h.concat ⟨rfl, fun hpos => ⟨(ht hpos).1, (ht hpos).2, ?_⟩⟩ rfl
    have hlt := elapsedNs_lt l
    have hle := (ht hpos).2
    omega
  have hsame : received (l ++ [⟨.poll .read t, status⟩]) = received l := by simp [delivery]
  rw [Dialogue.ensures_ite]
  constructor
  · intro _
    have hrecv := recv_ensures (s := { s with mIsReadReady := true }) hfill (by rwa [hsame])
    rw [unfilled, hsame] at hrecv
    refine hrecv.mono fun l' r hr => ?_
    exact hr.after (by rw [hsame]) (by simp [reading]) (by simp)
  · intro hne
    refine ⟨hfill, ?_, by simp [reading], fun _ => rfl, by simp, fun hok => ?_⟩
    · rw [hsame]
      rfl
    · -- a poll for reading that reports the other direction counts as a success
      obtain rfl : status = .write := (isOk_fromPollStatus hok).resolve_left hne
      simp [hsame, stall]

/-- `read_some_impl`: the fast path and the slow path read into the same part of the buffer. -/
lemma readSomeImpl_ensures (h : Filling n timeout s.memory l) (hpos : (received l).length < n)
    (ht : 0 < timeout → 1 ≤ t ∧ t ≤ timeout - elapsed l) :
    (readSomeImpl s (unfilled n l) t).Ensures (Reads n timeout l) l := by
  rw [readSomeImpl, Dialogue.ensures_ite]
  refine ⟨fun _ => ?_, fun _ => pollAndRecv_ensures h hpos ht⟩
  rw [Dialogue.ensures_bind]
  refine (recv_ensures h hpos).mono fun l₁ r hr => ?_
  obtain ⟨s₁, status, read⟩ := r
  simp only [Dialogue.ensures_ite, Dialogue.ensures_pure]
  refine ⟨fun hagain => ?_, fun _ => hr⟩
  have hlen : (received l₁).length = (received l).length := by
    rw [hr.grown, hr.failed (IoStatus.not_isOk_of_tryAgain hagain), Nat.add_zero]
  have hslow := pollAndRecv_ensures (s := { s₁ with mIsReadReady := false }) (t := t) hr.filling
    (by rwa [hlen]) (by rwa [elapsed_congr hr.clock])
  rw [unfilled, hlen] at hslow
  exact hslow.mono fun l' r' hr' => hr'.after hlen hr.clock hr.stalled

/-- The loop of `read_exact` is entered with the rest of the buffer. -/
def ReadInv (n : ℕ) (timeout startTime : ℤ) (l : Log) : Local × Span → Prop
  | (s, remaining) => Filling n timeout s.memory l ∧ remaining = unfilled n l ∧
      (readings l).head? = some startTime

/-- What `read_exact` returns. -/
def ReadDone (n : ℕ) (timeout : ℤ) (l : Log) : Local × IoStatus × Span → Prop
  | (s, status, span) => Filling n timeout s.memory l ∧ span = ⟨0, (received l).length⟩ ∧
      (status.isOk = true ↔ (received l).length = n)

/-- One round of the loop. -/
lemma readExactBody_ensures {x : Local × Span} (h : ReadInv n timeout startTime l x) :
    (readExactBody ⟨0, n⟩ timeout startTime x).Ensures (fun l' r =>
      r.elim (fun x' => ReadInv n timeout startTime l' x' ∧
        (received l).length + stalls l < (received l').length + stalls l')
        (ReadDone n timeout l')) l := by
  obtain ⟨s, remaining⟩ := x
  obtain ⟨hfill, rfl, hstart⟩ := h
  have hfits := hfill.fits
  rw [readExactBody, Dialogue.ensures_ite]
  constructor
  · intro hsize
    have hfull : (received l).length = n := by
      change n - (received l).length = 0 at hsize
      omega
    exact ⟨hfill, by rw [hfull], iff_of_true rfl hfull⟩
  · intro hsize
    have hpos : (received l).length < n := by
      change n - (received l).length ≠ 0 at hsize
      omega
    rw [Dialogue.ensures_bind]
    refine (remainingTimeout_ensures hstart).mono fun l₁ r hr => ?_
    obtain ⟨hlog, hhead, hleft⟩ := hr
    -- reading the clock changes nothing but the readings
    have hsame : received l₁ = received l ∧ stalls l₁ = stalls l ∧
        Filling n timeout s.memory l₁ := by
      rcases hlog with rfl | ⟨time, rfl⟩
      · exact ⟨rfl, rfl, hfill⟩
      · exact ⟨by simp [delivery], by simp [stall], hfill.concat trivial rfl⟩
    obtain ⟨hrec, hstall, hfill₁⟩ := hsame
    cases r with
    | none =>
      refine ⟨hfill₁, ?_, iff_of_false nofun ?_⟩
      · rw [hrec]
        exact hfill.first_unfilled
      · rw [hrec]
        exact hpos.ne
    | some t =>
      have hread := readSomeImpl_ensures hfill₁ (by rwa [hrec]) (hleft t rfl)
      rw [unfilled, hrec] at hread
      change Dialogue.Ensures _ (readSomeImpl s (unfilled n l) t >>= _) l₁
      rw [Dialogue.ensures_bind]
      refine hread.mono fun l₂ r hr => ?_
      obtain ⟨s₂, status, readSpan⟩ := r
      have hgrown : (received l₂).length = (received l).length + readSpan.size := by
        rw [hr.grown, hrec]
      simp only [Dialogue.ensures_ite, Dialogue.ensures_pure]
      constructor
      · intro hok
        refine ⟨⟨hr.filling, ?_, ?_⟩, ?_⟩
        · simp only [unfilled, Span.subspan, hgrown, Nat.sub_sub]
        · rw [hr.clock]
          exact hhead
        · have hprogress := hr.progress hok
          rw [hrec, hstall] at hprogress
          exact hprogress
      · intro hbad
        have hzero : readSpan.size = 0 := hr.failed (by simpa using hbad)
        rw [hzero, Nat.add_zero] at hgrown
        refine ⟨hr.filling, ?_, iff_of_false hbad ?_⟩
        · rw [hgrown, hzero]
          exact hfill.first_unfilled
        · rw [hgrown]
          exact hpos.ne

/-- Every successful call of `::recv` has delivered at least one byte. -/
lemma countP_delivery_le (l : Log) :
    l.countP (fun e => delivery e ≠ []) ≤ (received l).length := by
  induction l using List.reverseRecOn with
  | nil => simp
  | append_singleton l e ih =>
    rw [received_concat, List.countP_append, List.length_append]
    refine Nat.add_le_add ih ?_
    by_cases he : delivery e = []
    · simp [he]
    · rw [List.countP_singleton, if_pos (by simpa using he)]
      exact List.length_pos_of_ne_nil he

/-- The whole call. -/
lemma readExact_ensures (fuel : ℕ) (s : Local) (timeout : ℤ) :
    (readExact fuel s timeout).Ensures (fun l r =>
      Always (ReadStep s.memory.length timeout) l ∧ (received l).length ≤ s.memory.length ∧
      (r = none → fuel ≤ (received l).length + stalls l) ∧
      ∀ x ∈ r, ReadDone s.memory.length timeout l x) [] := by
  have hempty : Filling s.memory.length timeout s.memory [] :=
    ⟨always_nil, Nat.zero_le _, rfl, List.take_zero⟩
  rw [readExact, Dialogue.ensures_ite]
  constructor
  · intro hnil
    refine ⟨always_nil, Nat.zero_le _, by simp, ?_⟩
    rintro x ⟨⟩
    exact ⟨hempty, rfl, iff_of_true rfl (by simp [hnil, received])⟩
  · intro _
    rw [readExactImpl, Dialogue.ensures_bind]
    simp only [ensures_now]
    intro startTime
    have hinv : ReadInv s.memory.length timeout startTime ([] ++ [⟨.now, startTime⟩])
        (s, ⟨0, s.memory.length⟩) :=
      ⟨hempty.concat trivial rfl, by simp [unfilled, delivery, received],
        by simp [reading, readings]⟩
    refine (Dialogue.loop_ensures (c := fun l => (received l).length + stalls l)
      (fun l x => readExactBody_ensures) fuel hinv).mono fun l r hr => ?_
    cases r with
    | none =>
      obtain ⟨⟨x, hx⟩, hrounds⟩ := hr
      refine ⟨hx.1.steps, hx.1.fits, fun _ => ?_, by simp⟩
      exact le_trans (Nat.le_add_right _ _) hrounds
    | some x =>
      have hfill : Filling s.memory.length timeout x.1.memory l := hr.1
      refine ⟨hfill.steps, hfill.fits, by simp, ?_⟩
      rintro y ⟨⟩
      exact hr

/-- `read_exact` neither loses nor repeats nor reorders bytes.  For every buffer, timeout and
initial readiness, and whatever the kernel, the scheduler and the clock answer:
* every `::recv` is offered exactly the part of the buffer that is not filled yet, and with a
  positive timeout every poll is given at least a millisecond and no more than the timeout less the
  whole milliseconds that have passed, so less than a millisecond more than what is left of it;
* there are at most as many successful reads as bytes in the buffer, and at most as many rounds of
  the loop as bytes received and answers that move no byte;
* the span returned is the front part of the buffer, which holds the bytes received in order, and
  the status is `ok` if and only if it is the whole buffer. -/
theorem read_exact_in_order (env : Log → (r : Request) → Answer r) (fuel : ℕ) (s : Local)
    (timeout : ℤ) {log : Log} {r : Option (Local × IoStatus × Span)}
    (h : (readExact fuel s timeout).play env [] = (log, r)) :
    Always (ReadStep s.memory.length timeout) log ∧
    log.countP (fun e => delivery e ≠ []) ≤ s.memory.length ∧
    (r = none → fuel ≤ (received log).length + stalls log) ∧
    ∀ s' status span, r = some (s', status, span) →
      s'.memory.length = s.memory.length ∧ span = ⟨0, (received log).length⟩ ∧
      span.bytes s'.memory = received log ∧
      (status.isOk = true ↔ span.size = s.memory.length) := by
  obtain ⟨hsteps, hfits, hrounds, hdone⟩ := (readExact_ensures fuel s timeout).of_play h
  refine ⟨hsteps, (countP_delivery_le log).trans hfits, hrounds, ?_⟩
  rintro s' status span rfl
  obtain ⟨hfill, rfl, hok⟩ := hdone _ rfl
  exact ⟨hfill.size, rfl, hfill.filled, hok⟩

/-- A client believes to be ready; its first try fails, the poll reports readiness, and two bytes
arrive, then one more. -/
def readScript : Log → (r : Request) → Answer r :=
  scripted (fun k => 1000000 * k) (fun _ => .read)
    (fun k => if k = 2 then .error eagain else if k = 4 then .ok [7, 8] else .ok [9])
    (fun _ => .error 0)

/-- The buffer of three bytes is full after two rounds. -/
theorem read_exact_in_order_two_rounds : ∃ log s',
    (readExact 3 ⟨true, false, [0, 0, 0]⟩ 10).play readScript [] =
      (log, some (s', { type := .ok }, ⟨0, 3⟩)) ∧
    s'.memory = [7, 8, 9] ∧ log.length = 7 ∧ received log = [7, 8, 9] ∧
    log.countP (fun e => delivery e ≠ []) ≤ 3 :=
  ⟨_, _, rfl, rfl, rfl, rfl,
    (read_exact_in_order readScript 3 ⟨true, false, [0, 0, 0]⟩ 10 rfl).2.1⟩

/-- A client that is not ready; one and a half milliseconds pass before its first poll. -/
def lateScript : Log → (r : Request) → Answer r :=
  scripted (fun k => 1500000 * k) (fun _ => .read) (fun _ => .ok [7]) (fun _ => .error 0)

/-- With a timeout of ten milliseconds the poll is given nine, and only eight and a half are
left. -/
theorem read_exact_poll_exceeds_rest : ∃ s' status,
    (readExact 2 ⟨false, false, [0]⟩ 10).play lateScript [] =
      ([⟨.now, 0⟩, ⟨.now, 1500000⟩, ⟨.poll .read 9, .read⟩,
        ⟨.recv ⟨0, 1⟩, .data [7] ⟨by decide, by decide⟩⟩], some (s', status, ⟨0, 1⟩)) ∧
    (1000000 * 9 : ℤ) > 1000000 * 10 - elapsedNs [⟨.now, 0⟩, ⟨.now, 1500000⟩] :=
  ⟨_, _, rfl, by decide⟩

end Libcoro.Net.Tcp
