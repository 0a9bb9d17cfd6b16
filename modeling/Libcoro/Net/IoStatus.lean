import Libcoro.Scheduler.Poll

/-!
# What the sockets share

`coro::poll_op` and `coro::net::io_status`, with the conversions from an `errno` and from the
result of a poll.  The numbers of the errors are those of Linux.
-/

namespace Libcoro.Net

open Scheduler.Poll (PollStatus)

/-- `coro::poll_op`. -/
inductive PollOp where
  | read
  | write
  | readWrite
  deriving DecidableEq, Repr

/-- `io_status::kind`. -/
inductive Kind where
  | ok
  | closed
  | connectionReset
  | connectionRefused
  | timeout
  | wouldBlockOrTryAgain
  | pollingError
  | cancelled
  | udpNotBound
  | messageTooBig
  | native
  | unknown
  deriving DecidableEq, Repr

/-- `coro::net::io_status`. -/
structure IoStatus where
  type : Kind
  nativeCode : ℤ := 0
  deriving DecidableEq, Repr

/-- `io_status::is_ok`. -/
def IoStatus.isOk (s : IoStatus) : Bool :=
  s.type = .ok

/-- `io_status::try_again`. -/
def IoStatus.tryAgain (s : IoStatus) : Bool :=
  s.type = .wouldBlockOrTryAgain

/-- `EOF`. -/
def eof : ℤ := -1

/-- `EAGAIN`, which is also `EWOULDBLOCK`. -/
def eagain : ℤ := 11

/-- `EMSGSIZE`. -/
def emsgsize : ℤ := 90

/-- `ECONNRESET`. -/
def econnreset : ℤ := 104

/-- `ECONNREFUSED`. -/
def econnrefused : ℤ := 111

/-- The `switch` of `make_io_status_from_native`. -/
def kindFromNative (nativeCode : ℤ) : Kind :=
  if nativeCode = 0 then .ok
  else if nativeCode = eof then .closed
  else if nativeCode = econnrefused then .connectionRefused
  else if nativeCode = econnreset then .connectionReset
  else if nativeCode = eagain then .wouldBlockOrTryAgain
  else if nativeCode = emsgsize then .messageTooBig
  else .native

/-- `make_io_status_from_native`. -/
def makeIoStatusFromNative (nativeCode : ℤ) : IoStatus :=
  { type := kindFromNative nativeCode, nativeCode := nativeCode }

/-- `make_io_status_from_poll_status`. -/
def makeIoStatusFromPollStatus : PollStatus → IoStatus
  | .read => { type := .ok }
  | .write => { type := .ok }
  | .timeout => { type := .timeout }
  | .error => { type := .pollingError }
  | .closed => { type := .closed }
  | .cancelled => { type := .cancelled }

/-- `EAGAIN` is the only error that asks for another try. -/
@[simp] lemma tryAgain_fromNative (nativeCode : ℤ) :
    (makeIoStatusFromNative nativeCode).tryAgain = true ↔ nativeCode = eagain := by
  simp only [IoStatus.tryAgain, makeIoStatusFromNative, kindFromNative]
  split_ifs <;> simp_all [eof, eagain, econnrefused, econnreset]

/-- Only the absence of an error is a success. -/
@[simp] lemma isOk_fromNative (nativeCode : ℤ) :
    (makeIoStatusFromNative nativeCode).isOk = true ↔ nativeCode = 0 := by
  simp only [IoStatus.isOk, makeIoStatusFromNative, kindFromNative]
  split_ifs <;> simp_all

/-- A status that asks for another try is not a success. -/
lemma IoStatus.not_isOk_of_tryAgain {s : IoStatus} (h : s.tryAgain = true) : s.isOk = false := by
  simp_all [IoStatus.tryAgain, IoStatus.isOk]

/-- A poll never asks for another try. -/
@[simp] lemma tryAgain_fromPollStatus (status : PollStatus) :
    (makeIoStatusFromPollStatus status).tryAgain = false := by
  cases status <;> rfl

/-- A poll that reports either direction is a success. -/
lemma isOk_fromPollStatus {status : PollStatus}
    (h : (makeIoStatusFromPollStatus status).isOk = true) : status = .read ∨ status = .write := by
  cases status with
  | read => exact Or.inl rfl
  | write => exact Or.inr rfl
  | _ => cases h

end Libcoro.Net
