import Libcoro.Foundations.Dialogue
import Libcoro.Net.IoStatus

/-!
# `coro::net::tcp::client`

The reading and writing functions of a connected client as programs that talk to the kernel, the
scheduler and the clock.  A span is a range of the caller's buffer, whose bytes are kept beside the
readiness flags of the client.  A reading of the clock is a number of nanoseconds, a timeout a
number of milliseconds; their arithmetic is that of unbounded integers.

The kernel writes at most as many bytes as it is offered room for, and accepts at most as many as
it is offered.  Everything else is left to it: how many bytes it takes, which error it reports, and
whether a poll that reported readiness was right.
-/

namespace Libcoro.Net.Tcp

open Foundations
open Scheduler.Poll (PollStatus)

/-- A `std::span` into the caller's buffer. -/
structure Span where
  offset : ℕ
  size : ℕ
  deriving DecidableEq, Repr

namespace Span

/-- `std::span{}`. -/
def empty : Span := ⟨0, 0⟩

/-- `subspan(count)`. -/
def subspan (s : Span) (count : ℕ) : Span := ⟨s.offset + count, s.size - count⟩

/-- `subspan(0, count)`. -/
def first (s : Span) (count : ℕ) : Span := ⟨s.offset, count⟩

/-- The bytes of a span. -/
def bytes (s : Span) (memory : List UInt8) : List UInt8 := (memory.drop s.offset).take s.size

end Span

/-- What `::recv` returns when it is offered `size` bytes of room. -/
inductive RecvResult (size : ℕ) where
  | data (bytes : List UInt8) (h : 0 < bytes.length ∧ bytes.length ≤ size)
  | closed
  | error (errno : ℤ)

/-- What `::send` returns when it is offered `size` bytes. -/
inductive SendResult (size : ℕ) where
  | sent (count : ℕ) (h : count ≤ size)
  | error (errno : ℤ)

/-- What a client asks for: the time, a poll of its socket, and the two system calls on a part of
the buffer. -/
inductive Request where
  | now
  | poll (op : PollOp) (timeout : ℤ)
  | recv (buffer : Span)
  | send (buffer : Span)
  deriving DecidableEq, Repr

/-- What it gets. -/
@[reducible] def Answer : Request → Type
  | .now => ℤ
  | .poll _ _ => PollStatus
  | .recv buffer => RecvResult buffer.size
  | .send buffer => SendResult buffer.size

/-- The programs of a client. -/
abbrev Io := Dialogue Request Answer

/-- A log of what a client has asked for and got. -/
abbrev Log := List (Exchange Request Answer)

/-- The flags of the client and the bytes of the caller's buffer. -/
structure Local where
  mIsReadReady : Bool
  mIsWriteReady : Bool
  memory : List UInt8
  deriving DecidableEq, Repr

/-- `std::chrono::steady_clock::now()`. -/
def now : Io ℤ := Dialogue.request Request.now

/-- `poll`. -/
def poll (op : PollOp) (timeout : ℤ) : Io PollStatus :=
  Dialogue.request (Request.poll op timeout)

@[simp] lemma ensures_now {Q : Log → ℤ → Prop} {l : Log} :
    now.Ensures Q l ↔ ∀ time, Q (l ++ [⟨.now, time⟩]) time :=
  Iff.rfl

@[simp] lemma ensures_poll {op : PollOp} {timeout : ℤ} {Q : Log → PollStatus → Prop} {l : Log} :
    (poll op timeout).Ensures Q l ↔ ∀ status, Q (l ++ [⟨.poll op timeout, status⟩]) status :=
  Iff.rfl

/-- Writes bytes into the buffer. -/
def writeAt (memory : List UInt8) (offset : ℕ) (bytes : List UInt8) : List UInt8 :=
  memory.take offset ++ bytes ++ memory.drop (offset + bytes.length)

/-- The part of `recv` after the system call. -/
def recvResult (s : Local) (buffer : Span) : RecvResult buffer.size → Local × IoStatus × Span
  | .data bytes _ =>
    ({ s with memory := writeAt s.memory buffer.offset bytes }, { type := .ok },
      buffer.first bytes.length)
  | .closed => (s, { type := .closed }, .empty)
  | .error errno => (s, makeIoStatusFromNative errno, .empty)

/-- `recv`. -/
def recv (s : Local) (buffer : Span) : Io (Local × IoStatus × Span) := do
  let result ← Dialogue.request (Request.recv buffer)
  pure (recvResult s buffer result)

/-- The part of `send` after the system call. -/
def sendResult (buffer : Span) : SendResult buffer.size → IoStatus × Span
  | .sent count _ => ({ type := .ok }, buffer.subspan count)
  | .error errno => (makeIoStatusFromNative errno, buffer)

/-- `send`. -/
def send (buffer : Span) : Io (IoStatus × Span) := do
  let result ← Dialogue.request (Request.send buffer)
  pure (sendResult buffer result)

/-- The slow path of `read_some_impl`. -/
def pollAndRecv (s : Local) (buffer : Span) (timeout : ℤ) : Io (Local × IoStatus × Span) := do
  let pollStatus ← poll .read timeout
  if pollStatus = .read then recv { s with mIsReadReady := true } buffer
  else pure (s, makeIoStatusFromPollStatus pollStatus, .empty)

/-- `read_some_impl`. -/
def readSomeImpl (s : Local) (buffer : Span) (timeout : ℤ) : Io (Local × IoStatus × Span) :=
  if s.mIsReadReady then do
    let (s, status, read) ← recv s buffer
    if status.tryAgain then pollAndRecv { s with mIsReadReady := false } buffer timeout
    else pure (s, status, read)
  else pollAndRecv s buffer timeout

/-- The slow path of `write_some_impl`. -/
def pollAndSend (s : Local) (buffer : Span) (timeout : ℤ) : Io (Local × IoStatus × Span) := do
  let pstatus ← poll .write timeout
  if pstatus = .write then do
    let (status, unsent) ← send buffer
    pure ({ s with mIsWriteReady := true }, status, unsent)
  else pure (s, makeIoStatusFromPollStatus pstatus, buffer)

/-- `write_some_impl`. -/
def writeSomeImpl (s : Local) (buffer : Span) (timeout : ℤ) : Io (Local × IoStatus × Span) :=
  if s.mIsWriteReady then do
    let (status, unsent) ← send buffer
    if status.tryAgain then pollAndSend { s with mIsWriteReady := false } buffer timeout
    else pure (s, status, unsent)
  else pollAndSend s buffer timeout

/-- `write_some`. -/
def writeSome (s : Local) (timeout : ℤ) : Io (Local × IoStatus × Span) :=
  if s.memory = [] then pure (s, { type := .ok }, .empty)
  else writeSomeImpl s ⟨0, s.memory.length⟩ timeout

/-- The duration in milliseconds between two readings of the clock. -/
def durationMs (start stop : ℤ) : ℤ := (stop - start).tdiv 1000000

/-- The first part of the loops of `read_exact_impl` and `write_all_impl`: the timeout of the next
poll, or `none` when the time is over. -/
def remainingTimeout (timeout startTime : ℤ) : Io (Option ℤ) :=
  if 0 < timeout then do
    let time ← now
    if timeout ≤ durationMs startTime time then pure none
    else pure (some (timeout - durationMs startTime time))
  else pure (some 0)

/-- The loop of `read_exact_impl`, with its condition. -/
def readExactBody (buffer : Span) (timeout startTime : ℤ) :
    Local × Span → Io ((Local × Span) ⊕ (Local × IoStatus × Span))
  | (s, remaining) =>
    if remaining.size = 0 then pure (.inr (s, { type := .ok }, buffer))
    else do
      match ← remainingTimeout timeout startTime with
      | none =>
        pure (.inr (s, { type := .timeout }, buffer.first (buffer.size - remaining.size)))
      | some t => do
        let (s, status, readSpan) ← readSomeImpl s remaining t
        let remaining := remaining.subspan readSpan.size
        if status.isOk then pure (.inl (s, remaining))
        else pure (.inr (s, status, buffer.first (buffer.size - remaining.size)))

/-- `read_exact_impl`, up to `fuel` rounds of its loop. -/
def readExactImpl (fuel : ℕ) (s : Local) (buffer : Span) (timeout : ℤ) :
    Io (Option (Local × IoStatus × Span)) := do
  let startTime ← now
  Dialogue.loop (readExactBody buffer timeout startTime) fuel (s, buffer)

/-- `read_exact` into the caller's buffer. -/
def readExact (fuel : ℕ) (s : Local) (timeout : ℤ) : Io (Option (Local × IoStatus × Span)) :=
  if s.memory = [] then pure (some (s, { type := .ok }, .empty))
  else readExactImpl fuel s ⟨0, s.memory.length⟩ timeout

/-- The loop of `write_all_impl`, with its condition. -/
def writeAllBody (timeout startTime : ℤ) :
    Local × Span → Io ((Local × Span) ⊕ (Local × IoStatus × Span))
  | (s, remaining) =>
    if remaining.size = 0 then pure (.inr (s, { type := .ok }, .empty))
    else do
      match ← remainingTimeout timeout startTime with
      | none => pure (.inr (s, { type := .timeout }, remaining))
      | some t => do
        let (s, status, unsentSpan) ← writeSomeImpl s remaining t
        if status.isOk then pure (.inl (s, unsentSpan))
        else pure (.inr (s, status, unsentSpan))

/-- `write_all_impl`, up to `fuel` rounds of its loop. -/
def writeAllImpl (fuel : ℕ) (s : Local) (buffer : Span) (timeout : ℤ) :
    Io (Option (Local × IoStatus × Span)) := do
  let startTime ← now
  Dialogue.loop (writeAllBody timeout startTime) fuel (s, buffer)

/-- `write_all` of the caller's buffer. -/
def writeAll (fuel : ℕ) (s : Local) (timeout : ℤ) : Io (Option (Local × IoStatus × Span)) :=
  if s.memory = [] then pure (some (s, { type := .ok }, .empty))
  else writeAllImpl fuel s ⟨0, s.memory.length⟩ timeout

/-- The environment that answers by the position in the log: with the time, the status of a poll,
and the bytes that arrive or the number of those that are accepted, or else an `errno`. -/
def scripted (time : ℕ → ℤ) (status : ℕ → PollStatus) (arriving : ℕ → Except ℤ (List UInt8))
    (accepting : ℕ → Except ℤ ℕ) (l : Log) : (r : Request) → Answer r
  | .now => time l.length
  | .poll _ _ => status l.length
  | .recv buffer =>
    match arriving l.length with
    | .ok bytes =>
      if h : 0 < bytes.length ∧ bytes.length ≤ buffer.size then .data bytes h else .closed
    | .error errno => .error errno
  | .send buffer =>
    match accepting l.length with
    | .ok count => if h : count ≤ buffer.size then .sent count h else .error 0
    | .error errno => .error errno

/-! ## Reading a log -/

/-- What a log says about the clock. -/
def reading : Exchange Request Answer → Option ℤ
  | ⟨.now, time⟩ => some time
  | _ => none

/-- The readings of the clock, in order. -/
def readings (l : Log) : List ℤ := l.filterMap reading

/-- The whole milliseconds between the first and the last reading of the clock. -/
def elapsed (l : Log) : ℤ := durationMs ((readings l).headD 0) ((readings l).getLastD 0)

/-- The nanoseconds between the first and the last reading of the clock. -/
def elapsedNs (l : Log) : ℤ := (readings l).getLastD 0 - (readings l).headD 0

/-- The bytes of one exchange that the kernel has delivered. -/
def delivery : Exchange Request Answer → List UInt8
  | ⟨.recv _, .data bytes _⟩ => bytes
  | _ => []

/-- The bytes that the kernel has delivered, in order. -/
def received (l : Log) : List UInt8 := l.flatMap delivery

/-- The bytes of the buffer that the kernel has accepted in one exchange. -/
def acceptance (memory : List UInt8) : Exchange Request Answer → List UInt8
  | ⟨.send buffer, .sent count _⟩ => (buffer.first count).bytes memory
  | _ => []

/-- The bytes of the buffer that the kernel has accepted, in order. -/
def accepted (memory : List UInt8) (l : Log) : List UInt8 := l.flatMap (acceptance memory)

/-- The exchanges after which a loop goes on although no byte has moved: a poll that reports the
other direction, and a system call that fails without an error or accepts nothing. -/
def stall : Exchange Request Answer → ℕ
  | ⟨.poll .read _, .write⟩ => 1
  | ⟨.poll .write _, .read⟩ => 1
  | ⟨.recv _, .error errno⟩ => if errno = 0 then 1 else 0
  | ⟨.send _, .error errno⟩ => if errno = 0 then 1 else 0
  | ⟨.send _, .sent count _⟩ => if count = 0 then 1 else 0
  | _ => 0

/-- How often a loop has gone on although no byte had moved. -/
def stalls (l : Log) : ℕ := (l.map stall).sum

variable {l : Log}

@[simp] lemma stalls_concat (e : Exchange Request Answer) :
    stalls (l ++ [e]) = stalls l + stall e := by
  simp [stalls]

@[simp] lemma readings_concat (e : Exchange Request Answer) :
    readings (l ++ [e]) = readings l ++ (reading e).toList := by
  cases h : reading e <;> simp [readings, h]

@[simp] lemma received_concat (e : Exchange Request Answer) :
    received (l ++ [e]) = received l ++ delivery e := by
  simp [received]

@[simp] lemma accepted_concat (memory : List UInt8) (e : Exchange Request Answer) :
    accepted memory (l ++ [e]) = accepted memory l ++ acceptance memory e := by
  simp [accepted]

/-- The time since a first reading, after another one. -/
lemma elapsed_concat_now {startTime time : ℤ} (h : (readings l).head? = some startTime) :
    elapsed (l ++ [⟨.now, time⟩]) = durationMs startTime time := by
  have hlast : (readings (l ++ [⟨.now, time⟩])).getLastD 0 = time := by simp [reading]
  have hhead : (readings (l ++ [⟨.now, time⟩])).headD 0 = startTime := by
    simp [List.headD_eq_head?_getD, h]
  rw [elapsed, hlast, hhead]

/-- Less than a millisecond is lost when the time is taken in whole milliseconds. -/
lemma elapsedNs_lt (l : Log) : elapsedNs l < 1000000 * (elapsed l + 1) := by
  unfold elapsedNs elapsed durationMs
  have hsplit := Int.tdiv_mul_add_tmod ((readings l).getLastD 0 - (readings l).headD 0) 1000000
  have hrem := Int.tmod_lt_of_pos ((readings l).getLastD 0 - (readings l).headD 0)
    (by decide : (0 : ℤ) < 1000000)
  omega

/-- The time that has passed depends on the readings only. -/
lemma elapsed_congr {l' : Log} (h : readings l' = readings l) : elapsed l' = elapsed l := by
  rw [elapsed, elapsed, h]

/-- The timeout of the next poll is no more than what is left of the whole. -/
lemma remainingTimeout_ensures {timeout startTime : ℤ}
    (hstart : (readings l).head? = some startTime) :
    (remainingTimeout timeout startTime).Ensures (fun l' r =>
      (l' = l ∨ ∃ time, l' = l ++ [⟨.now, time⟩]) ∧
      (readings l').head? = some startTime ∧
      ∀ t ∈ r, 0 < timeout → 1 ≤ t ∧ t ≤ timeout - elapsed l') l := by
  rw [remainingTimeout, Dialogue.ensures_ite]
  constructor
  · intro _
    simp only [Dialogue.ensures_bind, ensures_now, Dialogue.ensures_ite, Dialogue.ensures_pure]
    intro time
    have hhead : (readings (l ++ [⟨.now, time⟩])).head? = some startTime := by
      simp [hstart]
    refine ⟨fun _ => ⟨Or.inr ⟨time, rfl⟩, hhead, by simp⟩, fun hlt => ?_⟩
    refine ⟨Or.inr ⟨time, rfl⟩, hhead, ?_⟩
    rintro t ⟨⟩ _
    rw [elapsed_concat_now hstart]
    exact ⟨by omega, le_rfl⟩
  · intro hle
    refine ⟨Or.inl rfl, hstart, ?_⟩
    rintro t ⟨⟩ hpos
    exact (hle hpos).elim

end Libcoro.Net.Tcp
