import Libcoro.Foundations.Duration

/-!
# The time points of timers

`schedule_after`, `yield_for`, `poll` and `condition_variable::wait_for` take a delay, convert it to
nanoseconds and add it to the current time, all in 64 bits and without a look at the range.  The
delay of a poll is a number of milliseconds; the other calls take a duration of any representation
and period.
-/

namespace Libcoro.Scheduler

open Foundations

/-- The calls that set a timer. -/
inductive TimedCall where
  | scheduleAfter (amount : Duration)
  | yieldFor (amount : Duration)
  | poll (timeout : ℤ) (fits : Fits64 timeout)
  | waitFor (amount : Duration)

/-- The delay of a call. -/
def TimedCall.delay : TimedCall → Duration
  | .scheduleAfter amount => amount
  | .yieldFor amount => amount
  | .poll timeout fits => .signed .milli timeout fits
  | .waitFor amount => amount

/-- The time point that `yield_for_internal` hands to `add_timer_token`; without one the coroutine
is scheduled at once. -/
def yieldForInternal (now amount : ℤ) : Option ℤ :=
  if amount ≤ 0 then none else some (wrap64 (now + amount))

/-- The time point that a call hands to `add_timer_token`, if it does so. -/
def TimedCall.timePoint (now : ℤ) : TimedCall → Option ℤ
  | .scheduleAfter amount => yieldForInternal now (amount.castTo .nano)
  | .yieldFor amount => yieldForInternal now (amount.castTo .nano)
  | .poll timeout _ =>
    if 0 < timeout then some (wrap64 (now + Period.cast .milli .nano timeout)) else none
  | .waitFor amount =>
    -- the awaiter keeps nanoseconds and passes them on to `schedule_after`
    yieldForInternal now (Period.cast .nano .nano (amount.castTo .nano))

/-- The delay is converted to nanoseconds without a loss, and its sum with `now` has 64 bits. -/
def InRange (now : ℤ) (d : Duration) : Prop :=
  d.Exact .nano ∧ now + d.lengthIn .nano < 9223372036854775808

instance (now : ℤ) (d : Duration) : Decidable (InRange now d) :=
  inferInstanceAs (Decidable (_ ∧ _))

variable {now : ℤ}

/-- A sum with the current time is right if and only if its second summand is. -/
lemma wrap64_add_eq_iff {amount x : ℤ} (hnow : 0 ≤ now) (hamount : Fits64 amount) (hpos : 0 < x)
    (hlt : now + x < 9223372036854775808) : wrap64 (now + amount) = now + x ↔ amount = x := by
  unfold Fits64 at hamount
  unfold wrap64
  omega

/-- The same for `yield_for_internal`. -/
lemma yieldForInternal_eq_iff {amount x : ℤ} (hnow : 0 ≤ now) (hamount : Fits64 amount)
    (hpos : 0 < x) (hlt : now + x < 9223372036854775808) :
    yieldForInternal now amount = some (now + x) ↔ amount = x := by
  unfold yieldForInternal
  split_ifs with hle
  · exact iff_of_false nofun (by omega)
  · rw [Option.some.injEq, wrap64_add_eq_iff hnow hamount hpos hlt]

/-- Nanoseconds stay what they are. -/
lemma cast_nano_nano {x : ℤ} (h : Fits64 x) : Period.cast .nano .nano x = x := by
  have hnum : Period.ratioNum .nano .nano = 1 := by decide
  rw [Period.cast, Period.castIn, if_pos (by decide), hnum, Nat.cast_one, mul_one,
    wrap64_of_fits h]

namespace TimedCall

/-- Of a positive delay, the time point is the right one if and only if the number of nanoseconds
is. -/
lemma timePoint_eq_iff (c : TimedCall) {x : ℤ} (hnow : 0 ≤ now)
    (hdelay : 0 < c.delay.lengthIn .nano) (hpos : 0 < x) (hlt : now + x < 9223372036854775808) :
    c.timePoint now = some (now + x) ↔ c.delay.castTo .nano = x := by
  have hfits := c.delay.castTo_fits (q := .nano)
  cases c with
  | scheduleAfter amount | yieldFor amount => exact yieldForInternal_eq_iff hnow hfits hpos hlt
  | poll timeout fits =>
    have htimeout : 0 < timeout := by exact_mod_cast Duration.count_pos hdelay
    rw [timePoint, if_pos htimeout, Option.some.injEq]
    exact wrap64_add_eq_iff hnow hfits hpos hlt
  | waitFor amount =>
    change Fits64 (amount.castTo .nano) at hfits
    rw [timePoint, cast_nano_nano hfits]
    exact yieldForInternal_eq_iff hnow hfits hpos hlt

/-- A time point has 64 bits. -/
lemma fits_timePoint {c : TimedCall} {tp : ℤ} (h : c.timePoint now = some tp) : Fits64 tp := by
  cases c <;> simp only [timePoint, yieldForInternal] at h <;> split_ifs at h <;>
    exact Option.some.inj h ▸ fits_wrap64 _

/-- The time point is the current time plus the delay. -/
def Punctual (c : TimedCall) (now tp : ℤ) : Prop :=
  c.timePoint now = some tp ∧ (tp : ℚ) = now + c.delay.lengthIn .nano

end TimedCall

/-- One and a half is a number of `double`. -/
lemma round_three_halves : FloatFormat.double.round (3 / 2) = 3 / 2 := by
  decide +kernel

end Libcoro.Scheduler
