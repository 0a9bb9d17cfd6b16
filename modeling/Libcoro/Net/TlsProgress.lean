import Libcoro.Net.TlsClient

/-!
# Rounds of `tls::client::recv` and `send`

As long as OpenSSL wants the direction of the call only, every poll that reports what it was asked
for is followed by a call, and the time that is left never grows.  When `SSL_read_ex` wants to
write, or `SSL_write_ex` to read, neither holds: the poll for that direction reports it, the loop
takes this for the other direction and polls again, and `stop` is older than `start` when the next
round subtracts the one from the other.
-/

namespace Libcoro.Net.Tls

open Foundations
open Scheduler.Poll (PollStatus)
open Tcp (Span durationMs)

/-- A poll reports the operation it was asked for. -/
def reportsWanted : Exchange Request Answer → Bool
  | ⟨.poll .read _, status⟩ => status = PollStatus.read
  | ⟨.poll .write _, status⟩ => status = PollStatus.write
  | _ => true

/-- OpenSSL does not want the direction that is not the one of the call. -/
def direct : Exchange Request Answer → Bool
  | ⟨.sslReadEx _, .failed err⟩ => err ≠ sslErrorWantWrite
  | ⟨.sslWriteEx _, .failed err⟩ => err ≠ sslErrorWantRead
  | _ => true

/-- A poll. -/
def isPoll : Exchange Request Answer → Bool
  | ⟨.poll _ _, _⟩ => true
  | _ => false

/-- A call of OpenSSL. -/
def isCall : Exchange Request Answer → Bool
  | ⟨.sslReadEx _, _⟩ => true
  | ⟨.sslWriteEx _, _⟩ => true
  | _ => false

/-- The durations of the rounds, where every two readings of the clock belong to one. -/
def spent : List ℤ → ℤ
  | start :: stop :: rest => durationMs start stop + spent rest
  | _ => 0

/-- Another round. -/
lemma spent_append {times : List ℤ} (heven : Even times.length) (start stop : ℤ) :
    spent (times ++ [start, stop]) = spent times + durationMs start stop := by
  fun_induction spent times with
  | case1 first second rest ih =>
    have hrest : Even rest.length := by
      simpa [Nat.even_add_one] using heven
    rw [List.cons_append, List.cons_append, spent, ih hrest, add_assoc]
  | case2 times hshort =>
    rcases times with _ | ⟨first, _ | ⟨second, rest⟩⟩
    · simp [spent]
    · simp at heven
    · exact (hshort first second rest rfl).elim

/-- The time between two readings of a clock that does not go backwards. -/
lemma durationMs_nonneg {start stop : ℤ} (h : start ≤ stop) : 0 ≤ durationMs start stop :=
  Int.tdiv_nonneg (by omega) (by decide)

/-- What is known of a call of OpenSSL. -/
structure Lawful (memory : List UInt8) (c : Call) : Prop where
  answered : ∀ x, answered memory ⟨c.request, x⟩ = some (c.outcome x)
  isCall : ∀ x, isCall ⟨c.request, x⟩ = true
  isPoll : ∀ x, isPoll ⟨c.request, x⟩ = false
  reading : ∀ x, reading ⟨c.request, x⟩ = none
  pollTimeout : ∀ x, pollTimeout ⟨c.request, x⟩ = none
  ready : ∀ t pstatus, reportsWanted ⟨.poll c.op t, pstatus⟩ = true → pstatus = c.ready
  proceeds : pollFailure c.ready = none
  same : ∀ x err op, direct ⟨c.request, x⟩ = true → c.outcome x = .error err →
    want err = some op → op = c.op

lemma lawful_sslReadEx (memory : List UInt8) : Lawful memory (sslReadEx memory) where
  answered _ := rfl
  isCall _ := rfl
  isPoll _ := rfl
  reading _ := rfl
  pollTimeout _ := rfl
  ready t pstatus h := of_decide_eq_true h
  proceeds := rfl
  same x err op hdirect hx hwant := by
    cases x with
    | done bytes h => cases hx
    | failed err' =>
      obtain rfl : err' = err := Except.error.inj hx
      have hne : err' ≠ sslErrorWantWrite := of_decide_eq_true hdirect
      rw [want, if_neg hne] at hwant
      split_ifs at hwant
      exact (Option.some.inj hwant).symm

lemma lawful_sslWriteEx (memory : List UInt8) : Lawful memory (sslWriteEx memory) where
  answered _ := rfl
  isCall _ := rfl
  isPoll _ := rfl
  reading _ := rfl
  pollTimeout _ := rfl
  ready t pstatus h := of_decide_eq_true h
  proceeds := rfl
  same x err op hdirect hx hwant := by
    cases x with
    | done count h => cases hx
    | failed err' =>
      obtain rfl : err' = err := Except.error.inj hx
      have hne : err' ≠ sslErrorWantRead := of_decide_eq_true hdirect
      rw [want, if_neg hne] at hwant
      split_ifs at hwant
      exact (Option.some.inj hwant).symm

variable {memory : List UInt8} {c : Call} {timeout : Option ℤ} {k : ℕ} {v v₁ v₂ : Vars}
  {l l₁ l₂ : Log}

/-- The time that is left for the next round, if there is a limit. -/
def Vars.budget (v : Vars) : Option ℤ := v.timeout.map v.left

/-! ## A round with a call -/

/-- What a round with a call leaves behind, whether or not the loop goes on after it. -/
structure Completes (memory : List UInt8) (v : Vars) (l : Log) (outcome : Except ℤ Returned)
    (v₂ : Vars) (l₂ : Log) : Prop where
  op : v₂.op = v.op
  outcomes : outcomes memory l₂ = outcomes memory l ++ [outcome]
  pollTimeouts : pollTimeouts l₂ = pollTimeouts l ++ [v.budget.getD 0]
  followed : Followed isPoll isCall l → Followed isPoll isCall l₂
  times : (v.budget = none ∧ v₂.budget = none ∧ readings l₂ = readings l) ∨
    ∃ t start stop, v.budget = some t ∧ v₂.budget = some (t - durationMs start stop) ∧
      readings l₂ = readings l ++ [start, stop]

lemma completes (hc : Lawful memory c) (hbegins : Begins v l v₁ l₁) {x : Answer c.request}
    (hstops : Stops v₁ (l₁ ++ [⟨.poll v₁.op (v₁.timeout.getD 0), c.ready⟩] ++ [⟨c.request, x⟩])
      v₂ l₂) :
    Completes memory v l (c.outcome x) v₂ l₂ := by
  cases hbegins with
  | untimed hnone =>
    have hbudget : v.budget = none := by rw [Vars.budget, hnone, Option.map_none]
    cases hstops with
    | untimed _ =>
      refine ⟨rfl, ?_, ?_, ?_, Or.inl ⟨hbudget, hbudget, ?_⟩⟩
      · simp only [outcomes_concat, hc.answered, answered_poll, Option.toList, List.append_nil]
      · simp only [pollTimeouts_concat, hc.pollTimeout, pollTimeout_poll, Option.toList,
          List.append_nil, hnone, hbudget]
      · intro hfollowed
        exact hfollowed.pair (hc.isCall x) (hc.isPoll x)
      · simp only [readings_concat, hc.reading, reading_poll, Option.toList, List.append_nil]
    | timed t stop hsome =>
      rw [hnone] at hsome
      cases hsome
  | timed t start hsome hleft =>
    have hbudget : v.budget = some (v.left t) := by rw [Vars.budget, hsome, Option.map_some]
    cases hstops with
    | untimed hnone => cases hnone
    | timed t' stop _ =>
      refine ⟨rfl, ?_, ?_, ?_, Or.inr ⟨v.left t, start, stop, hbudget, rfl, ?_⟩⟩
      · simp only [outcomes_concat, hc.answered, answered_poll, answered_now, Option.toList,
          List.append_nil]
      · simp only [pollTimeouts_concat, hc.pollTimeout, pollTimeout_poll, pollTimeout_now,
          Option.toList, List.append_nil, Option.getD_some, hbudget]
      · intro hfollowed
        exact ((hfollowed.concat rfl).pair (hc.isCall x) (hc.isPoll x)).concat rfl
      · simp only [readings_concat, hc.reading, reading_poll, reading_now, Option.toList,
          List.append_nil]
        exact List.append_assoc _ _ _

/-- How the rounds so far have used the time: they have spent what they have measured, and with a
clock that does not go backwards the timeouts of the polls have not grown. -/
structure Paced (timeout : Option ℤ) (l : Log) (v : Vars) : Prop where
  followed : Followed isPoll isCall l
  even : Even (readings l).length
  budget : v.budget = timeout.map (· - spent (readings l))
  shrinking : (readings l).Pairwise (· ≤ ·) → (pollTimeouts l).Pairwise (· ≥ ·) ∧
    ∀ t ∈ pollTimeouts l, v.budget.getD 0 ≤ t

/-- The timeouts of the polls shrink on. -/
private lemma pairwise_concat {ts : List ℤ} {t : ℤ} (h : ts.Pairwise (· ≥ ·))
    (hle : ∀ t' ∈ ts, t ≤ t') : (ts ++ [t]).Pairwise (· ≥ ·) := by
  refine List.pairwise_append.mpr ⟨h, List.pairwise_singleton _ _, fun t' ht' t₀ ht₀ => ?_⟩
  rw [List.mem_singleton.mp ht₀]
  exact hle t' ht'

lemma Paced.completes {outcome : Except ℤ Returned} (h : Paced timeout l v)
    (hround : Completes memory v l outcome v₂ l₂) : Paced timeout l₂ v₂ := by
  rcases hround.times with ⟨hnone, hnone₂, htimes⟩ | ⟨t, start, stop, hsome, hsome₂, htimes⟩
  · refine ⟨hround.followed h.followed, ?_, ?_, ?_⟩
    · rw [htimes]
      exact h.even
    · rw [hnone₂, htimes, ← h.budget, hnone]
    · intro hclock
      rw [htimes] at hclock
      obtain ⟨hpairs, hle⟩ := h.shrinking hclock
      rw [hnone] at hle
      rw [hround.pollTimeouts, hnone, hnone₂]
      refine ⟨pairwise_concat hpairs hle, fun t ht => ?_⟩
      rcases List.mem_append.mp ht with ht | ht
      · exact hle t ht
      · exact (List.mem_singleton.mp ht).ge
  · refine ⟨hround.followed h.followed, ?_, ?_, ?_⟩
    · rw [htimes, List.length_append]
      exact h.even.add even_two
    · have hbudget := h.budget
      rw [hsome] at hbudget
      cases timeout with
      | none => cases hbudget
      | some t₀ =>
        obtain rfl : t = t₀ - spent (readings l) := Option.some.inj hbudget
        rw [hsome₂, htimes, spent_append h.even, Option.map_some, sub_sub]
    · intro hclock
      rw [htimes] at hclock
      obtain ⟨hclock, hround', -⟩ := List.pairwise_append.mp hclock
      have hnonneg : 0 ≤ durationMs start stop :=
        durationMs_nonneg (List.pairwise_pair.mp hround')
      obtain ⟨hpairs, hle⟩ := h.shrinking hclock
      rw [hsome] at hle
      rw [hround.pollTimeouts, hsome, hsome₂]
      refine ⟨pairwise_concat hpairs hle, fun t' ht' => ?_⟩
      simp only [Option.getD_some] at hle ht' ⊢
      rcases List.mem_append.mp ht' with ht' | ht'
      · have hle' := hle t' ht'
        omega
      · rw [List.mem_singleton.mp ht']
        omega

/-! ## The loop -/

/-- Every poll reports what it was asked for, and OpenSSL wants the direction of the call only. -/
def Cooperative (l : Log) : Prop := ∀ e ∈ l, reportsWanted e = true ∧ direct e = true

/-- After `k` rounds. -/
structure InRound (memory : List UInt8) (c : Call) (timeout : Option ℤ) (k : ℕ) (l : Log)
    (v : Vars) : Prop where
  op : v.op = c.op
  paced : Paced timeout l v
  polls : (pollTimeouts l).length = k
  calls : (outcomes memory l).length = k
  wanted : ∀ x ∈ outcomes memory l, wants x = true

/-- At the end: the outcome of the last call was the first that does not ask for another one, or the
time was over after as many calls as polls. -/
structure Ended (memory : List UInt8) (timeout : Option ℤ) (l : Log) (r : Returned) : Prop where
  followed : Followed isPoll isCall l
  shrinking : (readings l).Pairwise (· ≤ ·) → (pollTimeouts l).Pairwise (· ≥ ·)
  polls : (pollTimeouts l).length = (outcomes memory l).length
  result : (∃ before x, outcomes memory l = before ++ [x] ∧ (∀ y ∈ before, wants y = true) ∧
      wants x = false ∧ r = returned memory x) ∨
    (∃ t, timeout = some t ∧ t ≤ spent (readings l) ∧ (∀ y ∈ outcomes memory l, wants y = true) ∧
      r = (memory, .timeout, .empty))

lemma Cooperative.of_isPrefix (h : Cooperative l₂) (hl : l <+: l₂) : Cooperative l :=
  fun e he => h e (hl.subset he)

/-- A poll for the operation of the call reports it. -/
lemma ready_of_cooperative (hc : Lawful memory c) (hop : v.op = c.op) (hbegins : Begins v l v₁ l₁)
    {pstatus : PollStatus}
    (h : Cooperative (l₁ ++ [⟨.poll v₁.op (v₁.timeout.getD 0), pstatus⟩])) : pstatus = c.ready := by
  have hop₁ : v₁.op = c.op := by
    cases hbegins with
    | untimed _ | timed t start _ _ => exact hop
  have hreports := (h ⟨.poll v₁.op (v₁.timeout.getD 0), pstatus⟩ (by simp)).1
  rw [hop₁] at hreports
  exact hc.ready _ _ hreports

/-- The step lemma: one round. -/
lemma round_progress (hc : Lawful memory c) (h : Cooperative l → InRound memory c timeout k l v) :
    (round memory c v).Ensures (fun l' r => r.elim
      (fun v' => Cooperative l' → InRound memory c timeout (k + 1) l' v')
      (fun r => Cooperative l' → Ended memory timeout l' r)) l := by
  refine round_ensures.mono fun l' r hr => ?_
  have hbefore : Cooperative l' → InRound memory c timeout k l v :=
    fun hcoop => h (hcoop.of_isPrefix hr.isPrefix)
  cases hr with
  | expired t htimeout hfirst hleft =>
    intro hcoop
    have hin := hbefore hcoop
    refine ⟨hin.paced.followed, fun hclock => (hin.paced.shrinking hclock).1,
      hin.polls.trans hin.calls.symm, Or.inr ?_⟩
    have hbudget := hin.paced.budget
    rw [Vars.budget, htimeout, Option.map_some] at hbudget
    cases timeout with
    | none => cases hbudget
    | some t₀ =>
      have hspent : v.left t = t₀ - spent (readings l) := Option.some.inj hbudget
      exact ⟨t₀, rfl, by omega, hin.wanted, rfl⟩
  | gaveUp hbegins hfailure =>
    intro hcoop
    rw [ready_of_cooperative hc (hbefore hcoop).op hbegins hcoop, hc.proceeds] at hfailure
    cases hfailure
  | otherDirection hbegins hfailure hother =>
    intro hcoop
    exact (hother (ready_of_cooperative hc (hbefore hcoop).op hbegins hcoop)).elim
  | @again v₁ v₂ l₁ l₂ x err op hbegins hstops hx hwant =>
    intro hcoop
    have hin := hbefore hcoop
    have hround := completes hc hbegins hstops
    have hpaced := hin.paced.completes hround
    have hdirect : direct ⟨c.request, x⟩ = true :=
      (hcoop _ (hstops.isPrefix.subset (by simp))).2
    refine ⟨hc.same x err op hdirect hx hwant,
      { hpaced with }, ?_, ?_, ?_⟩
    · rw [hround.pollTimeouts, List.length_append, hin.polls]
      rfl
    · rw [hround.outcomes, List.length_append, hin.calls]
      rfl
    · intro y hy
      rw [hround.outcomes] at hy
      rcases List.mem_append.mp hy with hy | hy
      · exact hin.wanted y hy
      · rw [List.mem_singleton.mp hy, hx, wants, hwant]
        rfl
  | @returns v₁ v₂ l₁ l₂ x hbegins hstops hx =>
    intro hcoop
    have hin := hbefore hcoop
    have hround := completes hc hbegins hstops
    have hpaced := hin.paced.completes hround
    refine ⟨hpaced.followed, fun hclock => (hpaced.shrinking hclock).1, ?_,
      Or.inl ⟨_, _, hround.outcomes, hin.wanted, hx, rfl⟩⟩
    rw [hround.pollTimeouts, hround.outcomes, List.length_append, List.length_append, hin.polls,
      hin.calls]
    rfl

/-- The run lemma. -/
lemma loop_progress (hc : Lawful memory c) (fuel : ℕ) (timeout : Option ℤ) :
    (Dialogue.loop (round memory c) fuel { op := c.op, timeout := timeout }).Ensures
      (fun l r => Cooperative l → r.elim (∃ v, InRound memory c timeout fuel l v)
        (Ended memory timeout l)) [] := by
  have hinit : InRound memory c timeout 0 [] { op := c.op, timeout := timeout } := by
    refine ⟨rfl, ⟨followed_nil, Even.zero, ?_, fun _ => ⟨List.Pairwise.nil, nofun⟩⟩, rfl, rfl,
      nofun⟩
    cases timeout <;> simp [Vars.budget, Vars.left, readings, spent]
  have hrule := Dialogue.loop_rule
    (I := fun k l v => Cooperative l → InRound memory c timeout k l v)
    (R := fun l r => Cooperative l → Ended memory timeout l r)
    (fun k l v h => round_progress hc h) fuel (k := 0) (l := []) (fun _ => hinit)
  refine hrule.mono fun l r hr hcoop => ?_
  cases r with
  | none =>
    obtain ⟨v, hv⟩ := hr
    have hin := hv hcoop
    rw [Nat.zero_add] at hin
    exact ⟨v, hin⟩
  | some r => exact hr hcoop

/-- The outcome that ends the loop is the first of a sequence that does not ask for another
call. -/
lemma Ended.of_sequence {r : Returned} (h : Ended memory timeout l r) {seq : ℕ → Except ℤ Returned}
    {m : ℕ} (hseq : ∀ i x, (outcomes memory l)[i]? = some x → x = seq i)
    (hbefore : ∀ i < m, wants (seq i) = true) (hm : wants (seq m) = false) :
    (r = returned memory (seq m) ∧ (pollTimeouts l).length = m + 1) ∨
    ∃ t, timeout = some t ∧ t ≤ spent (readings l) ∧ r = (memory, .timeout, .empty) ∧
      (pollTimeouts l).length ≤ m := by
  -- an outcome of the run that asks for another call does not stand at place `m`
  have hlt : ∀ i x, (outcomes memory l)[i]? = some x → wants x = true → i ≠ m := by
    rintro i x hi hx rfl
    rw [hseq i x hi, hm] at hx
    cases hx
  rcases h.result with ⟨before, x, hout, hwanted, hx, rfl⟩ | ⟨t, ht, hspent, hwanted, rfl⟩
  · have hlast : (outcomes memory l)[before.length]? = some x := by
      rw [hout, List.getElem?_concat_length]
    have hfront : before.length = m := by
      rcases Nat.lt_trichotomy before.length m with hless | heq | hmore
      · rw [hseq _ _ hlast, hbefore _ hless] at hx
        cases hx
      · exact heq
      · have hget : (outcomes memory l)[m]? = some before[m] := by
          rw [hout, List.getElem?_append_left hmore, List.getElem?_eq_getElem hmore]
        exact (hlt m _ hget (hwanted _ (List.getElem_mem hmore)) rfl).elim
    refine Or.inl ⟨?_, ?_⟩
    · rw [← hfront, ← hseq _ _ hlast]
    · rw [h.polls, hout, List.length_append, hfront]
      rfl
  · refine Or.inr ⟨t, ht, hspent, rfl, ?_⟩
    rw [h.polls]
    by_contra hmore
    rw [not_le] at hmore
    have hget := List.getElem?_eq_getElem hmore
    exact hlt m _ hget (hwanted _ (List.getElem_mem hmore)) rfl

/-- In every run of `recv` or `send` on a buffer that is not empty, in which every poll reports what
it was asked for and OpenSSL wants the direction of the call only:
* every poll is directly followed by a call of OpenSSL;
* if the calls answer with a sequence of outcomes of which that at place `m` is the first that does
  not ask for another call, the loop needs no more than `m + 1` rounds: it returns that outcome
  after `m + 1` polls, or it ends before because the rounds have measured as much time as was given;
* with a clock that does not go backwards, no poll has a longer timeout than one before. -/
theorem tls_progress (env : Log → (r : Request) → Answer r) (fuel : ℕ) (memory : List UInt8)
    (hmemory : memory ≠ []) (timeout : Option ℤ) {call : Io (Option Returned)}
    (hcall : call = recv fuel memory timeout ∨ call = send fuel memory timeout)
    {log : Log} {r : Option Returned} (hplay : call.play env [] = (log, r))
    (hreports : ∀ e ∈ log, reportsWanted e = true) (hdirect : ∀ e ∈ log, direct e = true) :
    Followed isPoll isCall log ∧
    (∀ (seq : ℕ → Except ℤ Returned) (m : ℕ),
      (∀ i x, (outcomes memory log)[i]? = some x → x = seq i) →
      (∀ i < m, wants (seq i) = true) → wants (seq m) = false → m < fuel →
      (r = some (returned memory (seq m)) ∧ (pollTimeouts log).length = m + 1) ∨
      ∃ t, timeout = some t ∧ t ≤ spent (readings log) ∧
        r = some (memory, .timeout, .empty) ∧ (pollTimeouts log).length ≤ m) ∧
    ((readings log).Pairwise (· ≤ ·) → (pollTimeouts log).Pairwise (· ≥ ·)) := by
  have hcoop : Cooperative log := fun e he => ⟨hreports e he, hdirect e he⟩
  obtain ⟨c, hc, hloop⟩ : ∃ c, Lawful memory c ∧
      call = Dialogue.loop (round memory c) fuel { op := c.op, timeout := timeout } := by
    rcases hcall with rfl | rfl
    · exact ⟨_, lawful_sslReadEx memory, if_neg hmemory⟩
    · exact ⟨_, lawful_sslWriteEx memory, if_neg hmemory⟩
  rw [hloop] at hplay
  have hend := (loop_progress hc fuel timeout).of_play hplay hcoop
  cases r with
  | none =>
    obtain ⟨v, hin⟩ := hend
    refine ⟨hin.paced.followed, fun seq m hseq _ hm hfuel => ?_,
      fun hclock => (hin.paced.shrinking hclock).1⟩
    -- all of the outcomes ask for another call, and there are more than `m` of them
    rw [← hin.calls] at hfuel
    have hget := List.getElem?_eq_getElem hfuel
    have hwanted := hin.wanted _ (List.getElem_mem hfuel)
    rw [hseq m _ hget, hm] at hwanted
    cases hwanted
  | some r =>
    refine ⟨hend.followed, fun seq m hseq hbefore hm _ => ?_, hend.shrinking⟩
    simpa using hend.of_sequence hseq hbefore hm

/-- `SSL_read_ex` wants to read once, then delivers a byte. -/
def readAgainScript : Log → (r : Request) → Answer r :=
  scripted (fun k => 1000000 * k) (fun _ => .read)
    (fun k => if k = 2 then .error sslErrorWantRead else .ok [7]) (fun _ => .error sslErrorSsl)

/-- The byte is returned after two polls, the second with what is left of the time. -/
theorem tls_progress_read_again : ∃ log,
    (recv 3 [0] (some 10)).play readAgainScript [] = (log, some ([7], .ok, ⟨0, 1⟩)) ∧
    pollTimeouts log = [10, 7] ∧ Followed isPoll isCall log :=
  ⟨_, rfl, rfl, (tls_progress readAgainScript 3 [0] (by decide) (some 10) (Or.inl rfl) rfl
    (by decide) (by decide)).1⟩

/-- `SSL_read_ex` wants to write first; every later call would succeed. -/
def readCrossedScript : Log → (r : Request) → Answer r :=
  scripted (fun k => if k < 3 then 0 else if k = 3 then 1000000 else 5000000)
    (fun k => if k = 1 then .read else .write)
    (fun k => if k = 2 then .error sslErrorWantWrite else .ok [7]) (fun _ => .error sslErrorSsl)

/-- `SSL_write_ex` wants to read first; every later call would succeed. -/
def writeCrossedScript : Log → (r : Request) → Answer r :=
  scripted (fun _ => 0) (fun k => if k = 0 then .write else .read)
    (fun _ => .error sslErrorSsl) (fun k => if k = 1 then .error sslErrorWantRead else .ok 1)

/-- Every poll reports what it was asked for.  `recv` makes one call only and polls on, with more
time than it has left; `send` makes one call only as well. -/
theorem crossed_directions :
    (∃ log, (recv 3 [0] (some 10)).play readCrossedScript [] = (log, none) ∧
      (∀ e ∈ log, reportsWanted e = true) ∧ log.countP isCall = 1 ∧
      readings log = [0, 1000000, 5000000, 5000000] ∧ pollTimeouts log = [10, 9, 13]) ∧
    ∃ log, (send 3 [7] none).play writeCrossedScript [] = (log, none) ∧
      (∀ e ∈ log, reportsWanted e = true) ∧ log.countP isCall = 1 ∧
      pollTimeouts log = [0, 0, 0] :=
  ⟨⟨_, rfl, by decide, rfl, rfl, rfl⟩, ⟨_, rfl, by decide, rfl, rfl⟩⟩

end Libcoro.Net.Tls
