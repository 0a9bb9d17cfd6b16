import Libcoro.Net.TlsClient
import Libcoro.Net.WriteAll

/-!
# What `tls::client::send` returns

Only the exit with the status `ok` returns the bytes that were not sent; the six others return an
empty span, where `tcp::client::write_some` returns the buffer.  The span is right as long as only
that exit is taken: the polls do not fail, `SSL_write_ex` fails only to be called again, and the
clock does not pass the limit before another round (`InTime`).
-/

namespace Libcoro.Net.Tls

open Foundations
open Scheduler.Poll (PollStatus)
open Tcp (Span durationMs)

/-- No poll fails, and `SSL_write_ex` fails only to be called again. -/
def healthy : Exchange Request Answer → Bool
  | ⟨.poll _ _, status⟩ => (pollFailure status).isNone
  | ⟨.sslWriteEx _, .failed err⟩ => (want err).isSome
  | _ => true

/-- A clock that does not go backwards, and does not pass the limit after its first reading. -/
structure Timely (limit : ℤ) (times : List ℤ) : Prop where
  sorted : times.Pairwise (· ≤ ·)
  early : ∀ first ∈ times.head?, 0 ≤ first ∧ ∀ time ∈ times, time - first < 1000000 * limit

/-- The log ends with a round that is followed by another one: the poll has reported the other
direction, or `SSL_write_ex` has to be called again. -/
def goesOn (l : Log) : Bool :=
  match l.reverse with
  | ⟨.poll _ _, status⟩ :: _ => status ≠ .write
  | ⟨.now, _⟩ :: ⟨.sslWriteEx _, .failed _⟩ :: _ => true
  | _ => false

/-- If there is a timeout the clock has not passed it whenever another round begins. -/
def InTime (timeout : Option ℤ) (l : Log) : Prop :=
  ∀ limit ∈ timeout, ∀ l', l' <+: l → goesOn l' = true → Timely limit (readings l')

variable {memory : List UInt8} {timeout : Option ℤ} {limit : ℤ} {times times' : List ℤ}
  {v v₁ v₂ : Vars} {l l₁ l₂ : Log}

/-- What holds of all readings holds of the first ones. -/
lemma Timely.of_isPrefix (h : Timely limit times') (hfront : times <+: times') :
    Timely limit times := by
  refine ⟨h.sorted.sublist hfront.sublist, fun first hfirst => ?_⟩
  obtain ⟨more, rfl⟩ := hfront
  have hhead : first ∈ (times ++ more).head? := by
    rw [List.head?_append, Option.mem_def.mp hfirst]
    rfl
  obtain ⟨hnonneg, hearly⟩ := h.early first hhead
  exact ⟨hnonneg, fun time htime => hearly time (List.mem_append_left _ htime)⟩

lemma InTime.of_isPrefix (h : InTime timeout l₂) (hfront : l <+: l₂) : InTime timeout l :=
  fun limit hlimit l' hl' => h limit hlimit l' (hl'.trans hfront)

/-- The duration of a round in milliseconds is not longer than the time between the readings. -/
lemma durationMs_le (start stop : ℤ) :
    1000000 * durationMs start stop ≤ max 0 (stop - start) := by
  rcases le_total 0 (stop - start) with h | h
  · exact (Int.mul_tdiv_self_le h).trans (le_max_right _ _)
  · have hneg : 0 ≤ (-(stop - start)).tdiv 1000000 := Int.tdiv_nonneg (by omega) (by decide)
    rw [Int.neg_tdiv] at hneg
    refine le_trans ?_ (le_max_left _ _)
    change 1000000 * (stop - start).tdiv 1000000 ≤ 0
    omega

/-- The account of the time after the readings `times`: what is gone from the limit, with the round
that is not accounted for yet, is no more than the time since the first reading. -/
inductive Clocked (limit : ℤ) (times : List ℤ) (v : Vars) : Prop where
  | fresh (hfirst : v.first = true) (htimeout : v.timeout = some limit) (hstop : v.stop = 0)
    (htimes : times = [])
  | running (t first last : ℤ) (hfirst : v.first = false) (htimeout : v.timeout = some t)
    (hhead : times.head? = some first) (hlast : times.getLast? = some last)
    (hstop : v.stop ≤ last)
    (hspent : 1000000 * (limit - t) + max 0 (v.stop - v.start) ≤ last - first)

/-- The loop does not end for want of time. -/
lemma Clocked.left_pos (h : Clocked limit times v) (htimely : Timely limit times) {t : ℤ}
    (htimeout : v.timeout = some t) (hfirst : v.first = false) : 0 < v.left t := by
  cases h with
  | fresh hfirst' _ _ _ =>
    rw [hfirst'] at hfirst
    cases hfirst
  | running t' first last _ htimeout' hhead hlast _ hspent =>
    obtain rfl : t = t' := Option.some.inj (htimeout.symm.trans htimeout')
    have hearly := (htimely.early first hhead).2 last (List.mem_of_getLast? hlast)
    have hle := durationMs_le v.start v.stop
    rw [Vars.left, hfirst]
    change 0 < t - durationMs v.start v.stop
    omega

/-- A reading is not before the last one. -/
private lemma le_of_sorted {last time : ℤ} (h : (times ++ [time]).Pairwise (· ≤ ·))
    (hlast : times.getLast? = some last) : last ≤ time :=
  (List.pairwise_append.mp h).2.2 last (List.mem_of_getLast? hlast) time (List.mem_singleton_self _)

/-- The reading at the beginning of a round. -/
lemma Clocked.begins (h : Clocked limit times v) {t start : ℤ} (htimeout : v.timeout = some t)
    (htimely : Timely limit (times ++ [start])) :
    Clocked limit (times ++ [start])
      { v with timeout := some (v.left t), first := false, start := start } := by
  cases h with
  | fresh hfirst htimeout' hstop htimes =>
    obtain rfl : t = limit := Option.some.inj (htimeout.symm.trans htimeout')
    subst htimes
    have hnonneg : 0 ≤ start := (htimely.early start rfl).1
    refine .running t start start rfl ?_ rfl rfl ?_ ?_
    · simp [Vars.left, hfirst]
    · exact hstop.le.trans hnonneg
    · change 1000000 * (t - t) + max 0 (v.stop - start) ≤ start - start
      omega
  | running t' first last hfirst htimeout' hhead hlast hstop hspent =>
    obtain rfl : t = t' := Option.some.inj (htimeout.symm.trans htimeout')
    have hlater : last ≤ start := le_of_sorted htimely.sorted hlast
    have hle := durationMs_le v.start v.stop
    refine .running (v.left t) first start rfl rfl ?_ List.getLast?_concat (hstop.trans hlater) ?_
    · rw [List.head?_append, hhead]
      rfl
    · have hleft : v.left t = t - durationMs v.start v.stop := by simp [Vars.left, hfirst]
      change 1000000 * (limit - v.left t) + max 0 (v.stop - start) ≤ start - first
      rw [hleft]
      omega

/-- The reading after a call. -/
lemma Clocked.stops (h : Clocked limit times v) (hfirst : v.first = false) {stop : ℤ}
    (hstart : times.getLast? = some v.start) (htimely : Timely limit (times ++ [stop])) :
    Clocked limit (times ++ [stop]) { v with stop := stop } := by
  cases h with
  | fresh hfirst' _ _ _ =>
    rw [hfirst'] at hfirst
    cases hfirst
  | running t first last _ htimeout hhead hlast _ hspent =>
    obtain rfl : last = v.start := Option.some.inj (hlast.symm.trans hstart)
    have hlater : v.start ≤ stop := le_of_sorted htimely.sorted hstart
    refine .running t first stop hfirst htimeout ?_ List.getLast?_concat le_rfl ?_
    · rw [List.head?_append, hhead]
      rfl
    · change 1000000 * (limit - t) + max 0 (stop - v.start) ≤ stop - first
      omega

/-! ## The rounds of `send` -/

/-- The account of the time, if there is a limit. -/
def OnTime (timeout : Option ℤ) (l : Log) (v : Vars) : Prop :=
  timeout.elim (v.timeout = none) fun limit => Clocked limit (readings l) v

/-- There is a limit if and only if the loop counts the time. -/
lemma OnTime.isSome_timeout (h : OnTime timeout l v) : v.timeout.isSome = timeout.isSome := by
  cases timeout with
  | none => rw [show v.timeout = none from h]
  | some limit =>
    cases (h : Clocked limit (readings l) v) with
    | fresh _ htimeout | running _ _ _ _ htimeout => simp [htimeout]

lemma Begins.isSome_timeout (h : Begins v l v₁ l₁) : v₁.timeout.isSome = v.timeout.isSome := by
  cases h with
  | untimed _ => rfl
  | timed t start htimeout _ => simp [htimeout]

/-- The first part of a round and its reading of the clock. -/
lemma OnTime.begins (h : OnTime timeout l v) (hbegins : Begins v l v₁ l₁)
    (htime : ∀ limit ∈ timeout, Timely limit (readings l₁)) : OnTime timeout l₁ v₁ := by
  cases hbegins with
  | untimed _ => exact h
  | timed t start htimeout _ =>
    cases timeout with
    | none =>
      rw [show v.timeout = none from h] at htimeout
      cases htimeout
    | some limit =>
      have htimely := htime limit rfl
      rw [readings_concat] at htimely
      rw [OnTime, Option.elim_some, readings_concat]
      exact Clocked.begins h htimeout htimely

/-- The middle of a round and its last reading of the clock. -/
lemma OnTime.stops (h : OnTime timeout l v) (hbegins : Begins v l v₁ l₁) {op : PollOp} {t : ℤ}
    {pstatus : PollStatus} {x : WriteResult memory.length}
    (hstops : Stops v₁ (l₁ ++ [⟨.poll op t, pstatus⟩] ++ [⟨.sslWriteEx memory.length, x⟩]) v₂ l₂)
    (htime : ∀ limit ∈ timeout, Timely limit (readings l₂)) : OnTime timeout l₂ v₂ := by
  have hreadings : readings (l₁ ++ [⟨.poll op t, pstatus⟩] ++ [⟨.sslWriteEx memory.length, x⟩]) =
      readings l₁ := by
    rw [readings_concat, readings_concat]
    exact (List.append_nil _).trans (List.append_nil _)
  have hmiddle : l₁ <+: l₂ :=
    ((List.prefix_append _ _).trans (List.prefix_append _ _)).trans hstops.isPrefix
  have hbegun : OnTime timeout l₁ v₁ := h.begins hbegins fun limit hlimit =>
    (htime limit hlimit).of_isPrefix (hmiddle.filterMap reading)
  cases hstops with
  | untimed hnone =>
    cases timeout with
    | none => exact hbegun
    | some limit =>
      rw [OnTime, Option.elim_some, hreadings]
      exact hbegun
  | timed t' stop hsome =>
    cases timeout with
    | none => exact hbegun
    | some limit =>
      have htimely := htime limit rfl
      rw [readings_concat, hreadings] at htimely
      rw [OnTime, Option.elim_some, readings_concat, hreadings]
      cases hbegins with
      | untimed hnone =>
        rw [hnone] at hsome
        cases hsome
      | timed t start _ _ =>
        refine Clocked.stops hbegun rfl ?_ htimely
        rw [readings_concat]
        exact List.getLast?_concat

/-- The next operation does not matter. -/
lemma OnTime.poll (h : OnTime timeout l v) (op : PollOp) :
    OnTime timeout l { v with op := op } := by
  cases timeout with
  | none => exact h
  | some limit =>
    change Clocked limit (readings l) { v with op := op }
    cases (h : Clocked limit (readings l) v) with
    | fresh hfirst htimeout hstop htimes => exact .fresh hfirst htimeout hstop htimes
    | running t first last hfirst htimeout hhead hlast hstop hspent =>
      exact .running t first last hfirst htimeout hhead hlast hstop hspent

/-- What is returned when OpenSSL has accepted a part of the buffer. -/
def Reports (memory : List UInt8) (timeout : Option ℤ) (l : Log) (r : Returned) : Prop :=
  (∀ e ∈ l, healthy e = true) → InTime timeout l → r.2.2 = ⟨sent l, memory.length - sent l⟩

/-- Nothing is accepted before the last round. -/
def Pending (timeout : Option ℤ) (l : Log) (v : Vars) : Prop :=
  (∀ e ∈ l, healthy e = true) → InTime timeout l →
    sent l = 0 ∧ OnTime timeout l v ∧ (timeout.isSome → v.first = false → goesOn l = true)

lemma Begins.sent_eq (h : Begins v l v₁ l₁) : sent l₁ = sent l := by
  cases h with
  | untimed _ => rfl
  | timed t start _ _ => exact sent_concat _

lemma Stops.sent_eq (h : Stops v l v₁ l₁) : sent l₁ = sent l := by
  cases h with
  | untimed _ => rfl
  | timed t stop _ => exact sent_concat _

/-- The step lemma: one round. -/
lemma round_unsent (h : Pending timeout l v) :
    (round memory (sslWriteEx memory) v).Ensures (fun l' r =>
      r.elim (Pending timeout l') (Reports memory timeout l')) l := by
  refine round_ensures.mono fun l' r hr => ?_
  have hbefore : (∀ e ∈ l', healthy e = true) → InTime timeout l' →
      sent l = 0 ∧ OnTime timeout l v ∧ (timeout.isSome → v.first = false → goesOn l = true) :=
    fun hhealthy htime =>
    h (fun e he => hhealthy e (hr.isPrefix.subset he)) (htime.of_isPrefix hr.isPrefix)
  cases hr with
  | expired t htimeout hfirst hleft =>
    intro hhealthy htime
    obtain ⟨-, hontime, hgoes⟩ := hbefore hhealthy htime
    cases timeout with
    | none =>
      rw [show v.timeout = none from hontime] at htimeout
      cases htimeout
    | some limit =>
      have htimely := htime limit rfl l List.prefix_rfl (hgoes rfl hfirst)
      have hpos := Clocked.left_pos hontime htimely htimeout hfirst
      exact (hleft.not_gt hpos).elim
  | @gaveUp v₁ l₁ pstatus status hbegins hfailure =>
    intro hhealthy _
    have hpoll := hhealthy ⟨.poll v₁.op (v₁.timeout.getD 0), pstatus⟩ (by simp)
    rw [healthy, hfailure] at hpoll
    cases hpoll
  | @otherDirection v₁ l₁ pstatus hbegins hfailure hother =>
    intro hhealthy htime
    obtain ⟨hsent, hontime, -⟩ := hbefore hhealthy htime
    have hgoes : goesOn (l₁ ++ [⟨.poll v₁.op (v₁.timeout.getD 0), pstatus⟩]) = true := by
      simpa [goesOn, sslWriteEx] using hother
    refine ⟨?_, ?_, fun _ _ => hgoes⟩
    · rw [sent_concat, hbegins.sent_eq, hsent]
      rfl
    · have hbegun := hontime.begins hbegins fun limit hlimit =>
        (htime limit hlimit _ List.prefix_rfl hgoes).of_isPrefix
          ((List.prefix_append _ _).filterMap reading)
      rw [OnTime, readings_concat, reading_poll]
      simpa [OnTime] using hbegun
  | @again v₁ v₂ l₁ l₂ x err op hbegins hstops hx hwant =>
    intro hhealthy htime
    obtain ⟨hsent, hontime, -⟩ := hbefore hhealthy htime
    cases x with
    | done count hcount => cases hx
    | failed err' =>
      have hgoes : timeout.isSome → goesOn l' = true := by
        intro hsome
        rw [← hontime.isSome_timeout, ← hbegins.isSome_timeout] at hsome
        cases hstops with
        | untimed hnone => simp [hnone] at hsome
        | timed t stop _ => simp [goesOn, sslWriteEx]
      have hmiddle := hontime.stops hbegins hstops fun limit hlimit =>
        htime limit hlimit _ List.prefix_rfl (hgoes (Option.isSome_of_mem hlimit))
      refine ⟨?_, hmiddle.poll op, fun hsome _ => hgoes hsome⟩
      rw [hstops.sent_eq, sent_concat, sent_concat, hbegins.sent_eq, hsent]
      rfl
  | @returns v₁ v₂ l₁ l₂ x hbegins hstops hx =>
    intro hhealthy htime
    obtain ⟨hsent, -⟩ := hbefore hhealthy htime
    cases x with
    | done count hcount =>
      have hcount' : sent l' = count := by
        rw [hstops.sent_eq, sent_concat, sent_concat, hbegins.sent_eq, hsent]
        exact Nat.zero_add count
      rw [hcount']
      rfl
    | failed err =>
      have hcall := hhealthy ⟨.sslWriteEx memory.length, .failed err⟩
        (hstops.isPrefix.subset (by simp [sslWriteEx]))
      have hno : (want err).isSome = false := hx
      rw [healthy, hno] at hcall
      cases hcall

/-- The run lemma. -/
lemma send_unsent (fuel : ℕ) (memory : List UInt8) (timeout : Option ℤ) :
    (send fuel memory timeout).Ensures
      (fun l r => ∀ y ∈ r, Reports memory timeout l y) [] := by
  rw [send, Dialogue.ensures_ite]
  constructor
  · intro hnil
    rintro y ⟨⟩ _ _
    rfl
  · intro _
    have hinit : Pending timeout [] { op := .write, timeout := timeout } := by
      refine fun _ _ => ⟨rfl, ?_, nofun⟩
      cases timeout with
      | none => rfl
      | some limit => exact .fresh rfl rfl rfl rfl
    have hrule := Dialogue.loop_rule (I := fun _ => Pending timeout)
      (R := Reports memory timeout) (fun k l v h => round_unsent h) fuel (k := 0) hinit
    refine hrule.mono fun l r hr => ?_
    cases r with
    | none => exact nofun
    | some y =>
      rintro z ⟨⟩
      exact hr

/-- In every run of `tls::client::send` in which the polls do not fail, `SSL_write_ex` fails only to
be called again and the clock has not passed the limit when another round begins, the span returned
is the part of the buffer that `SSL_write_ex` has not accepted.  `tcp::client::write_some` returns
the part of its buffer that `::send` has not accepted in every run. -/
theorem send_returns_unsent (env : Log → (r : Request) → Answer r) (fuel : ℕ) (memory : List UInt8)
    (timeout : Option ℤ) {log : Log} {r : Option Returned}
    (hplay : (send fuel memory timeout).play env [] = (log, r))
    (hhealthy : ∀ e ∈ log, healthy e = true) (htime : InTime timeout log) :
    (∀ memory' status span, r = some (memory', status, span) →
      span = ⟨sent log, memory.length - sent log⟩) ∧
    ∀ (env : Tcp.Log → (r : Tcp.Request) → Tcp.Answer r) (s : Tcp.Local) (timeout : ℤ) log s' status
      span, (Tcp.writeSome s timeout).play env [] = (log, s', status, span) →
      span = Tcp.unsent s.memory log := by
  constructor
  · rintro memory' status span rfl
    exact (send_unsent fuel memory timeout).of_play hplay _ rfl hhealthy htime
  · intro env s timeout log s' status span hplay
    exact (Tcp.writeSome_ensures s timeout).of_play hplay

/-- `SSL_write_ex` wants to write once, then accepts two bytes. -/
def writeAgainScript : Log → (r : Request) → Answer r :=
  scripted (fun k => 1000000 * k) (fun _ => .write) (fun _ => .error sslErrorSsl)
    (fun k => if k = 2 then .error sslErrorWantWrite else .ok 2)

/-- The third byte is returned, although the limit of six milliseconds is over in the end. -/
theorem send_returns_unsent_rest : ∃ log span,
    (send 3 [1, 2, 3] (some 6)).play writeAgainScript [] = (log, some ([1, 2, 3], .ok, span)) ∧
    sent log = 2 ∧ span = ⟨2, 1⟩ := by
  have hrun : ∃ log span,
      (send 3 [1, 2, 3] (some 6)).play writeAgainScript [] = (log, some ([1, 2, 3], .ok, span)) ∧
      sent log = 2 ∧ (∀ e ∈ log, healthy e = true) ∧
      goesOn log = false ∧ readings log.dropLast = [0, 3000000, 4000000] :=
    ⟨_, _, rfl, rfl, by decide, rfl, rfl⟩
  obtain ⟨log, span, hplay, hsent, hhealthy, hlast, hreadings⟩ := hrun
  have htime : InTime (some 6) log := by
    rintro limit ⟨⟩ l' hl' hgoes
    -- the last reading comes after the last round
    have hne : l' ≠ log := by
      rintro rfl
      simp [hlast] at hgoes
    have hfront : l' <+: log.dropLast := by
      refine List.prefix_of_prefix_length_le hl' (List.dropLast_prefix log) ?_
      rw [List.length_dropLast]
      exact Nat.le_sub_one_of_lt (hl'.length_le.lt_of_ne (hne ∘ hl'.eq_of_length))
    refine Timely.of_isPrefix ?_ (hfront.filterMap reading)
    change Timely 6 (readings log.dropLast)
    rw [hreadings]
    exact ⟨by decide, by simp⟩
  have hspan := (send_returns_unsent _ _ _ _ hplay hhealthy htime).1 _ _ _ rfl
  rw [hsent] at hspan
  exact ⟨log, span, hplay, hsent, hspan⟩

/-- The polls end as given, and `SSL_write_ex` fails. -/
def failingScript (status : PollStatus) : Log → (r : Request) → Answer r :=
  scripted (fun _ => 0) (fun _ => status) (fun _ => .error sslErrorSsl)
    (fun _ => .error sslErrorSsl)

/-- OpenSSL has accepted nothing, and yet the span is empty: after a poll that ends with a timeout,
an error, closed or cancelled, after an error of OpenSSL, and when the time is over after a round
that took longer than it was given.  `tcp::client::write_some` returns the buffer. -/
theorem unsent_bytes_dropped :
    (∃ log, (send 2 [1, 2, 3] none).play (failingScript .timeout) [] =
      (log, some ([1, 2, 3], .timeout, ⟨0, 0⟩)) ∧ sent log = 0) ∧
    (∃ log, (send 2 [1, 2, 3] none).play (failingScript .error) [] =
      (log, some ([1, 2, 3], .error, ⟨0, 0⟩)) ∧ sent log = 0) ∧
    (∃ log, (send 2 [1, 2, 3] none).play (failingScript .closed) [] =
      (log, some ([1, 2, 3], .closed, ⟨0, 0⟩)) ∧ sent log = 0) ∧
    (∃ log, (send 2 [1, 2, 3] none).play (failingScript .cancelled) [] =
      (log, some ([1, 2, 3], .cancelled, ⟨0, 0⟩)) ∧ sent log = 0) ∧
    (∃ log, (send 2 [1, 2, 3] none).play (failingScript .write) [] =
      (log, some ([1, 2, 3], .error, ⟨0, 0⟩)) ∧ sent log = 0) ∧
    (∃ log, (send 2 [1, 2, 3] (some 2)).play writeAgainScript [] =
      (log, some ([1, 2, 3], .timeout, ⟨0, 0⟩)) ∧ sent log = 0) ∧
    ∃ log s', (Tcp.writeSome ⟨false, false, [1, 2, 3]⟩ 0).play
        (Tcp.scripted (fun _ => 0) (fun _ => .timeout) (fun _ => .error 0) (fun _ => .error 0)) [] =
      (log, s', { type := .timeout }, ⟨0, 3⟩) :=
  ⟨⟨_, rfl, rfl⟩, ⟨_, rfl, rfl⟩, ⟨_, rfl, rfl⟩, ⟨_, rfl, rfl⟩, ⟨_, rfl, rfl⟩, ⟨_, rfl, rfl⟩,
    ⟨_, _, rfl⟩⟩

end Libcoro.Net.Tls
