import Libcoro.Net.TcpClient

/-!
# `coro::net::tls::client`

`recv` and `send` of a connected client.  Both are the same loop: it polls for the direction that is
wanted, makes its call of OpenSSL when the poll has reported the direction of the call, and repeats
when OpenSSL wants to read or to write first.  What differs is a `Call`.

The two clock readings of a round are kept in `start` and `stop`, which begin at the epoch; `stop`
is set after a call only.  The numbers of the errors are those of OpenSSL.
-/

namespace Libcoro.Net.Tls

open Foundations
open Scheduler.Poll (PollStatus)
open Tcp (Span writeAt durationMs)

/-- `SSL_ERROR_SSL`. -/
def sslErrorSsl : ℤ := 1

/-- `SSL_ERROR_WANT_READ`. -/
def sslErrorWantRead : ℤ := 2

/-- `SSL_ERROR_WANT_WRITE`. -/
def sslErrorWantWrite : ℤ := 3

/-- `SSL_ERROR_ZERO_RETURN`. -/
def sslErrorZeroReturn : ℤ := 6

/-- `recv_status` and `send_status`, which have the same members.  Every code of an error is cast
to them. -/
structure Status where
  code : ℤ
  deriving DecidableEq, Repr

namespace Status

def ok : Status := ⟨0⟩

def bufferIsEmpty : Status := ⟨-3⟩

def timeout : Status := ⟨-4⟩

def cancelled : Status := ⟨-5⟩

def closed : Status := ⟨sslErrorZeroReturn⟩

def error : Status := ⟨sslErrorSsl⟩

end Status

/-- What `SSL_read_ex` does with `size` bytes of room; an error is that of `SSL_get_error`. -/
inductive ReadResult (size : ℕ) where
  | done (bytes : List UInt8) (h : bytes.length ≤ size)
  | failed (err : ℤ)

/-- What `SSL_write_ex` does with `size` bytes. -/
inductive WriteResult (size : ℕ) where
  | done (count : ℕ) (h : count ≤ size)
  | failed (err : ℤ)

/-- What a client asks for: the time, a poll of its socket, and the two calls of OpenSSL on its
whole buffer. -/
inductive Request where
  | now
  | poll (op : PollOp) (timeout : ℤ)
  | sslReadEx (size : ℕ)
  | sslWriteEx (size : ℕ)
  deriving DecidableEq, Repr

/-- What it gets. -/
@[reducible] def Answer : Request → Type
  | .now => ℤ
  | .poll _ _ => PollStatus
  | .sslReadEx size => ReadResult size
  | .sslWriteEx size => WriteResult size

/-- The programs of a client. -/
abbrev Io := Dialogue Request Answer

/-- A log of what a client has asked for and got. -/
abbrev Log := List (Exchange Request Answer)

/-- `std::chrono::steady_clock::now()`. -/
def now : Io ℤ := Dialogue.request Request.now

/-- `poll`. -/
def poll (op : PollOp) (timeout : ℤ) : Io PollStatus :=
  Dialogue.request (Request.poll op timeout)

/-- The bytes of the caller's buffer at the end, the status and the span that is returned. -/
abbrev Returned := List UInt8 × Status × Span

/-- What the loops of `recv` and `send` on the same buffer differ in: the operation they poll for at
first, the result of a poll after which they call OpenSSL, the call, and what they make of it. -/
structure Call where
  op : PollOp
  ready : PollStatus
  request : Request
  outcome : Answer request → Except ℤ Returned

/-- What `recv` makes of `SSL_read_ex`. -/
def readOutcome (memory : List UInt8) {size : ℕ} : ReadResult size → Except ℤ Returned
  | .done bytes _ => .ok (writeAt memory 0 bytes, .ok, ⟨0, bytes.length⟩)
  | .failed err => .error err

/-- What `send` makes of `SSL_write_ex`. -/
def writeOutcome (memory : List UInt8) {size : ℕ} : WriteResult size → Except ℤ Returned
  | .done count _ => .ok (memory, .ok, ⟨count, size - count⟩)
  | .failed err => .error err

/-- The call of `recv`. -/
def sslReadEx (memory : List UInt8) : Call where
  op := .read
  ready := .read
  request := .sslReadEx memory.length
  outcome := readOutcome memory

/-- The call of `send`. -/
def sslWriteEx (memory : List UInt8) : Call where
  op := .write
  ready := .write
  request := .sslWriteEx memory.length
  outcome := writeOutcome memory

/-- The variables of the loop. -/
structure Vars where
  op : PollOp
  first : Bool := true
  start : ℤ := 0
  stop : ℤ := 0
  timeout : Option ℤ
  deriving DecidableEq, Repr

/-- What is left of the timeout `t` when a round begins. -/
def Vars.left (v : Vars) (t : ℤ) : ℤ :=
  if v.first then t else t - durationMs v.start v.stop

/-- The first part of a round, `none` when the time is over. -/
def beginRound (v : Vars) : Io (Option Vars) :=
  match v.timeout with
  | none => pure (some v)
  | some t =>
    if v.first = false ∧ v.left t ≤ 0 then pure none
    else do
      let start ← now
      pure (some { v with timeout := some (v.left t), first := false, start := start })

/-- Sets `stop` after the call. -/
def stopClock (v : Vars) : Io Vars :=
  match v.timeout with
  | none => pure v
  | some _ => do
    let stop ← now
    pure { v with stop := stop }

/-- The results of a poll that end the loop. -/
def pollFailure : PollStatus → Option Status
  | .read => none
  | .write => none
  | .timeout => some .timeout
  | .error => some .error
  | .closed => some .closed
  | .cancelled => some .cancelled

/-- The operation to poll for next, if the error asks for one. -/
def want (err : ℤ) : Option PollOp :=
  if err = sslErrorWantRead then some .read
  else if err = sslErrorWantWrite then some .write
  else none

/-- One round of the loop.  A poll that reports the other direction leads to the next round. -/
def round (memory : List UInt8) (c : Call) (v : Vars) : Io (Vars ⊕ Returned) := do
  match ← beginRound v with
  | none => pure (.inr (memory, .timeout, .empty))
  | some v => do
    let pstatus ← poll v.op (v.timeout.getD 0)
    match pollFailure pstatus with
    | some status => pure (.inr (memory, status, .empty))
    | none =>
      if pstatus = c.ready then do
        let result ← Dialogue.request c.request
        let v ← stopClock v
        match c.outcome result with
        | .ok returned => pure (.inr returned)
        | .error err =>
          match want err with
          | some op => pure (.inl { v with op := op })
          | none => pure (.inr (memory, ⟨err⟩, .empty))
      else pure (.inl v)

/-- `recv`, up to `fuel` rounds of its loop. -/
def recv (fuel : ℕ) (memory : List UInt8) (timeout : Option ℤ) : Io (Option Returned) :=
  if memory = [] then pure (some (memory, .bufferIsEmpty, .empty))
  else Dialogue.loop (round memory (sslReadEx memory)) fuel { op := .read, timeout := timeout }

/-- `send`, up to `fuel` rounds of its loop. -/
def send (fuel : ℕ) (memory : List UInt8) (timeout : Option ℤ) : Io (Option Returned) :=
  if memory = [] then pure (some (memory, .bufferIsEmpty, ⟨0, memory.length⟩))
  else Dialogue.loop (round memory (sslWriteEx memory)) fuel { op := .write, timeout := timeout }

/-- The environment that answers by the position in the log. -/
def scripted (time : ℕ → ℤ) (status : ℕ → PollStatus) (arriving : ℕ → Except ℤ (List UInt8))
    (accepting : ℕ → Except ℤ ℕ) (l : Log) : (r : Request) → Answer r
  | .now => time l.length
  | .poll _ _ => status l.length
  | .sslReadEx size =>
    match arriving l.length with
    | .ok bytes => if h : bytes.length ≤ size then .done bytes h else .failed sslErrorSsl
    | .error err => .failed err
  | .sslWriteEx size =>
    match accepting l.length with
    | .ok count => if h : count ≤ size then .done count h else .failed sslErrorSsl
    | .error err => .failed err

/-! ## What a round can do -/

/-- The first part of a round that goes on. -/
inductive Begins (v : Vars) (l : Log) : Vars → Log → Prop where
  | untimed (h : v.timeout = none) : Begins v l v l
  | timed (t start : ℤ) (h : v.timeout = some t) (hleft : v.first = true ∨ 0 < v.left t) :
    Begins v l { v with timeout := some (v.left t), first := false, start := start }
      (l ++ [⟨.now, start⟩])

/-- The reading of the clock after a call. -/
inductive Stops (v : Vars) (l : Log) : Vars → Log → Prop where
  | untimed (h : v.timeout = none) : Stops v l v l
  | timed (t stop : ℤ) (h : v.timeout = some t) :
    Stops v l { v with stop := stop } (l ++ [⟨.now, stop⟩])

/-- OpenSSL wants to read or to write first. -/
def wants : Except ℤ Returned → Bool
  | .ok _ => false
  | .error err => (want err).isSome

/-- What is returned for an outcome that ends the loop. -/
def returned (memory : List UInt8) : Except ℤ Returned → Returned
  | .ok value => value
  | .error err => (memory, ⟨err⟩, .empty)

/-- The ways through one round. -/
inductive RoundEnds (memory : List UInt8) (c : Call) (v : Vars) (l : Log) :
    Log → Vars ⊕ Returned → Prop where
  | expired (t : ℤ) (h : v.timeout = some t) (hfirst : v.first = false) (hleft : v.left t ≤ 0) :
    RoundEnds memory c v l l (.inr (memory, .timeout, .empty))
  | gaveUp {v₁ : Vars} {l₁ : Log} {pstatus : PollStatus} {status : Status}
    (hbegins : Begins v l v₁ l₁) (hfailure : pollFailure pstatus = some status) :
    RoundEnds memory c v l (l₁ ++ [⟨.poll v₁.op (v₁.timeout.getD 0), pstatus⟩])
      (.inr (memory, status, .empty))
  | otherDirection {v₁ : Vars} {l₁ : Log} {pstatus : PollStatus}
    (hbegins : Begins v l v₁ l₁) (hfailure : pollFailure pstatus = none)
    (hother : pstatus ≠ c.ready) :
    RoundEnds memory c v l (l₁ ++ [⟨.poll v₁.op (v₁.timeout.getD 0), pstatus⟩]) (.inl v₁)
  | again {v₁ v₂ : Vars} {l₁ l₂ : Log} {x : Answer c.request} {err : ℤ} {op : PollOp}
    (hbegins : Begins v l v₁ l₁)
    (hstops : Stops v₁ (l₁ ++ [⟨.poll v₁.op (v₁.timeout.getD 0), c.ready⟩] ++ [⟨c.request, x⟩])
      v₂ l₂)
    (hx : c.outcome x = .error err) (hwant : want err = some op) :
    RoundEnds memory c v l l₂ (.inl { v₂ with op := op })
  | returns {v₁ v₂ : Vars} {l₁ l₂ : Log} {x : Answer c.request}
    (hbegins : Begins v l v₁ l₁)
    (hstops : Stops v₁ (l₁ ++ [⟨.poll v₁.op (v₁.timeout.getD 0), c.ready⟩] ++ [⟨c.request, x⟩])
      v₂ l₂)
    (hx : wants (c.outcome x) = false) :
    RoundEnds memory c v l l₂ (.inr (returned memory (c.outcome x)))

variable {memory : List UInt8} {c : Call} {v v' : Vars} {l l' : Log}

/-- The first part of a round adds to the log. -/
lemma Begins.isPrefix (h : Begins v l v' l') : l <+: l' := by
  cases h with
  | untimed _ => exact List.prefix_rfl
  | timed t start _ _ => exact List.prefix_append _ _

/-- The reading after a call adds to the log. -/
lemma Stops.isPrefix (h : Stops v l v' l') : l <+: l' := by
  cases h with
  | untimed _ => exact List.prefix_rfl
  | timed t stop _ => exact List.prefix_append _ _

/-- A round adds to the log. -/
lemma RoundEnds.isPrefix {r : Vars ⊕ Returned} (h : RoundEnds memory c v l l' r) : l <+: l' := by
  cases h with
  | expired t _ _ _ => exact List.prefix_rfl
  | gaveUp hbegins _
  | otherDirection hbegins _ _ => exact hbegins.isPrefix.trans (List.prefix_append _ _)
  | again hbegins hstops _ _ | returns hbegins hstops _ =>
    exact (hbegins.isPrefix.trans (List.prefix_append _ _)).trans
      ((List.prefix_append _ _).trans hstops.isPrefix)

/-- A round begins, or ends at once because the time is over. -/
lemma beginRound_ensures :
    (beginRound v).Ensures (fun l' r => r.elim
      (∃ t, v.timeout = some t ∧ v.first = false ∧ v.left t ≤ 0 ∧ l' = l)
      (fun v' => Begins v l v' l')) l := by
  rw [beginRound]
  cases htimeout : v.timeout with
  | none => exact .untimed htimeout
  | some t =>
    rw [Dialogue.ensures_ite]
    constructor
    · rintro ⟨hfirst, hleft⟩
      exact ⟨t, rfl, hfirst, hleft, rfl⟩
    · intro hgo start
      refine .timed t start htimeout ?_
      by_contra hstop
      simp only [not_or, Bool.not_eq_true, not_lt] at hstop
      exact hgo hstop

/-- The clock is read after a call if there is a timeout. -/
lemma stopClock_ensures : (stopClock v).Ensures (fun l' v' => Stops v l v' l') l := by
  obtain ⟨op, first, start, stop, timeout⟩ := v
  cases timeout with
  | none => exact .untimed rfl
  | some t => exact fun stop => .timed t stop rfl

/-- The five ways are all there are. -/
lemma round_ensures : (round memory c v).Ensures (RoundEnds memory c v l) l := by
  rw [round, Dialogue.ensures_bind]
  refine beginRound_ensures.mono fun l₁ r hr => ?_
  cases r with
  | none =>
    obtain ⟨t, htimeout, hfirst, hleft, rfl⟩ := hr
    exact .expired t htimeout hfirst hleft
  | some v₁ =>
    intro pstatus
    change Dialogue.Ensures _ (match pollFailure pstatus with
      | some status => _
      | none => _) _
    cases hfailure : pollFailure pstatus with
    | some status => exact .gaveUp hr hfailure
    | none =>
      refine Dialogue.ensures_ite.mpr ⟨?_, fun hother => .otherDirection hr hfailure hother⟩
      rintro rfl x
      refine (Dialogue.ensures_bind.mpr ?_ : Dialogue.Ensures _ (stopClock v₁ >>= _) _)
      refine stopClock_ensures.mono fun l₂ v₂ hstops => ?_
      cases houtcome : c.outcome x with
      | ok value =>
        have hends : RoundEnds memory c v l l₂ (.inr (returned memory (c.outcome x))) :=
          .returns hr hstops (by rw [houtcome]; rfl)
        rwa [houtcome] at hends
      | error err =>
        change Dialogue.Ensures _ (match want err with
          | some op => _
          | none => _) _
        cases hwant : want err with
        | some op => exact .again hr hstops houtcome hwant
        | none =>
          have hends : RoundEnds memory c v l l₂ (.inr (returned memory (c.outcome x))) :=
            .returns hr hstops (by rw [houtcome, wants, hwant]; rfl)
          rwa [houtcome] at hends

/-! ## Reading a log -/

/-- The reading of the clock in an exchange. -/
def reading : Exchange Request Answer → Option ℤ
  | ⟨.now, time⟩ => some time
  | _ => none

/-- The readings of the clock, in order. -/
def readings (l : Log) : List ℤ := l.filterMap reading

/-- The timeout of a poll. -/
def pollTimeout : Exchange Request Answer → Option ℤ
  | ⟨.poll _ timeout, _⟩ => some timeout
  | _ => none

/-- The timeouts of the polls, in order. -/
def pollTimeouts (l : Log) : List ℤ := l.filterMap pollTimeout

/-- The outcome of a call of OpenSSL. -/
def answered (memory : List UInt8) : Exchange Request Answer → Option (Except ℤ Returned)
  | ⟨.sslReadEx _, result⟩ => some (readOutcome memory result)
  | ⟨.sslWriteEx _, result⟩ => some (writeOutcome memory result)
  | _ => none

/-- The outcomes of the calls of OpenSSL, in order. -/
def outcomes (memory : List UInt8) (l : Log) : List (Except ℤ Returned) :=
  l.filterMap (answered memory)

/-- The number of bytes that OpenSSL has accepted in an exchange. -/
def acceptance : Exchange Request Answer → ℕ
  | ⟨.sslWriteEx _, .done count _⟩ => count
  | _ => 0

/-- The number of bytes that OpenSSL has accepted. -/
def sent (l : Log) : ℕ := (l.map acceptance).sum

@[simp] lemma reading_now (time : ℤ) : reading ⟨.now, time⟩ = some time := rfl

@[simp] lemma reading_poll (op : PollOp) (t : ℤ) (status : PollStatus) :
    reading ⟨.poll op t, status⟩ = none := rfl

@[simp] lemma pollTimeout_now (time : ℤ) : pollTimeout ⟨.now, time⟩ = none := rfl

@[simp] lemma pollTimeout_poll (op : PollOp) (t : ℤ) (status : PollStatus) :
    pollTimeout ⟨.poll op t, status⟩ = some t := rfl

@[simp] lemma answered_now (time : ℤ) : answered memory ⟨.now, time⟩ = none := rfl

@[simp] lemma answered_poll (op : PollOp) (t : ℤ) (status : PollStatus) :
    answered memory ⟨.poll op t, status⟩ = none := rfl

/-- What one more exchange adds to the readings of the clock. -/
@[simp] lemma readings_concat (e : Exchange Request Answer) :
    readings (l ++ [e]) = readings l ++ (reading e).toList := by
  cases h : reading e <;> simp [readings, h]

/-- What one more exchange adds to the timeouts of the polls. -/
@[simp] lemma pollTimeouts_concat (e : Exchange Request Answer) :
    pollTimeouts (l ++ [e]) = pollTimeouts l ++ (pollTimeout e).toList := by
  cases h : pollTimeout e <;> simp [pollTimeouts, h]

/-- What one more exchange adds to the outcomes of the calls. -/
@[simp] lemma outcomes_concat (e : Exchange Request Answer) :
    outcomes memory (l ++ [e]) = outcomes memory l ++ (answered memory e).toList := by
  cases h : answered memory e <;> simp [outcomes, h]

/-- What one more exchange adds to the bytes accepted. -/
@[simp] lemma sent_concat (e : Exchange Request Answer) :
    sent (l ++ [e]) = sent l + acceptance e := by
  simp [sent]

end Libcoro.Net.Tls
