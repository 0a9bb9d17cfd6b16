import Libcoro.Foundations.HandoverLock
import Libcoro.Foundations.LinkedStack
import Libcoro.Mutex.Model

/-!
# `coro::mutex` implements a lock that is handed over

The mutex of `Libcoro.Mutex.Model` is related to the abstract `HandoverLock`: the word
`m_state` and the `m_next` fields spell out the owner and the stack of waiters, and each
successful compare-exchange is one move of the abstract lock while every other access
leaves it alone.

Correctness rests on one non-local fact: only the owner pops.  The waiters that an
unlocker has seen therefore stay on the list, with their `m_next` fields untouched, until
its own compare-exchange succeeds; `Sound` keeps this for each control point of `unlock`.
-/

namespace Libcoro.Mutex

open Foundations Function

variable {ι : Type*}

/-! ## The abstraction relation -/

/-- What the control point of `c` says about the mutex `s` that implements the lock `L`. -/
def Sound (s : State ι) (L : HandoverLock ι) (c : ι) : Pc ι → Prop
  | .casAcquire | .writeNext _ | .suspended | .granted => s.mAwaitingCoroutine c = some c
  | .casEnqueue p => s.mAwaitingCoroutine c = some c ∧ s.mNext c = p
  -- only the owner pops, so what it has seen on the list is still there
  | .popLoad => L.waiting ≠ []
  | .popReadNext w => w ∈ L.waiting
  | .popCas w n => w ∈ L.waiting ∧ s.mNext w = n
  | .resumeWaiter w => s.pc w = .granted
  | .alreadyUnlocked | .strayWaiter => False
  | .idle | .holding | .suspendLoad | .unlockLoad | .casRelease => True

/-- The word `m_state` and the list it heads spell out the lock `L`. -/
def WordSpells (s : State ι) : HandoverLock ι → Prop
  | .free => s.mState = .unlocked
  | .held _ ws => ∃ p, s.mState = .ptr p ∧ Linked s.mNext p ws

/-- Control points that are neither queued nor part of a hand-over. -/
def Pc.Private (p : Pc ι) : Prop :=
  p ≠ .suspended ∧ p ≠ .granted ∧ ∀ w, p ≠ .resumeWaiter w

/-- What a control point knows survives every change that keeps the waiters queued and their
links in place while the coroutine owns the mutex, and keeps granted the waiter it is about to
resume. -/
lemma Sound.mono {s s' : State ι} {L L' : HandoverLock ι} {c : ι} {p : Pc ι} (h : Sound s L c p)
    (hhandle : s'.mAwaitingCoroutine c = s.mAwaitingCoroutine c) (hnext : s'.mNext c = s.mNext c)
    (hwaiting : p.Owns → ∀ w ∈ L.waiting, w ∈ L'.waiting ∧ s'.mNext w = s.mNext w)
    (hgranted : ∀ w, p = .resumeWaiter w → s'.pc w = .granted) : Sound s' L' c p := by
  cases p with
  | casAcquire | writeNext _ | suspended | granted => exact hhandle.trans h
  | casEnqueue q => exact ⟨hhandle.trans h.1, hnext.trans h.2⟩
  | popLoad =>
    obtain ⟨w, hw⟩ := List.exists_mem_of_ne_nil _ h
    exact List.ne_nil_of_mem (hwaiting trivial w hw).1
  | popReadNext w => exact (hwaiting trivial w h).1
  | popCas w n =>
    obtain ⟨hmem, hlink⟩ := hwaiting trivial w h.1
    exact ⟨hmem, hlink.trans h.2⟩
  | resumeWaiter w => exact hgranted w rfl
  | alreadyUnlocked | strayWaiter => exact h.elim
  | idle | holding | suspendLoad | unlockLoad | casRelease => trivial

/-- The waiters that the history leaves on the list, the latest one first. -/
def waitingOf [DecidableEq ι] : List (Event ι) → List ι
  | [] => []
  | .queued w :: log => w :: waitingOf log
  | .transferred _ w :: log => (waitingOf log).erase w
  | .resumed _ _ :: log => waitingOf log

/-- In the history every hand-over went to the waiter that had been queued last. -/
def Lifo [DecidableEq ι] : List (Event ι) → Prop
  | [] => True
  | .transferred _ w :: log => (waitingOf log).head? = some w ∧ Lifo log
  | .queued _ :: log | .resumed _ _ :: log => Lifo log

variable [DecidableEq ι]

/-- The event hands the mutex over to `w`. -/
@[simp] def Event.transfersTo (w : ι) : Event ι → Bool
  | .transferred _ v => v = w
  | .queued _ | .resumed _ _ => false

/-- The accounts of the history: a queued operation is handed the mutex once, and whoever hands it
over resumes the new owner once. -/
structure Ledger (s : State ι) : Prop where
  queued : ∀ w, s.log.count (.queued w) =
    s.log.countP (Event.transfersTo w) + if s.pc w = .suspended then 1 else 0
  transferred : ∀ c w, s.log.count (.transferred c w) =
    s.log.count (.resumed c w) + if s.pc c = .resumeWaiter w then 1 else 0

/-- The mutex `s` implements the abstract lock `L`. -/
structure Represents (s : State ι) (L : HandoverLock ι) : Prop where
  owns_iff : ∀ c, (s.pc c).Owns ↔ L.owner = some c
  word : WordSpells s L
  suspended_iff : ∀ c, s.pc c = .suspended ↔ c ∈ L.waiting
  sound : ∀ c, Sound s L c (s.pc c)
  resumer : ∀ w, s.pc w = .granted → ∃ c, s.pc c = .resumeWaiter w
  resumer_unique : ∀ w c d, s.pc c = .resumeWaiter w → s.pc d = .resumeWaiter w → c = d
  waiting_log : L.waiting = waitingOf s.log
  lifo : Lifo s.log
  ledger : Ledger s

/-- At most one coroutine owns the mutex. -/
lemma Represents.owner_eq {s : State ι} {L : HandoverLock ι} (h : Represents s L) {c d : ι}
    (hc : (s.pc c).Owns) (hd : (s.pc d).Owns) : c = d := by
  have hcL := (h.owns_iff c).mp hc
  have hdL := (h.owns_iff d).mp hd
  exact Option.some.inj (hcL.symm.trans hdL)

/-- A held mutex has a pointer in `m_state`, heading the list of the waiters. -/
lemma Represents.exists_linked {s : State ι} {L : HandoverLock ι} (h : Represents s L) {c : ι}
    (hc : (s.pc c).Owns) :
    ∃ p ws, L = .held c ws ∧ s.mState = .ptr p ∧ Linked s.mNext p ws := by
  have howner := (h.owns_iff c).mp hc
  have hword := h.word
  cases L with
  | free => simp at howner
  | held o ws =>
    obtain rfl : o = c := by simpa using howner
    obtain ⟨p, hp, hl⟩ := hword
    exact ⟨p, ws, rfl, hp, hl⟩

/-- The waiter about to be resumed is granted. -/
lemma Represents.granted_of_resumeWaiter {s : State ι} {L : HandoverLock ι} (h : Represents s L)
    {c w : ι} (hc : s.pc c = .resumeWaiter w) : s.pc w = .granted := by
  have hsound := h.sound c
  rwa [hc] at hsound

/-- While a coroutine other than a granted waiter owns the mutex, no waiter is being resumed. -/
lemma Represents.ne_resumeWaiter {s : State ι} {L : HandoverLock ι} (h : Represents s L) {c : ι}
    (hc : (s.pc c).Owns) (hne : s.pc c ≠ .granted) (d w : ι) : s.pc d ≠ .resumeWaiter w := by
  intro hd
  have hw := h.granted_of_resumeWaiter hd
  have hwc : w = c := h.owner_eq (by rw [hw]; trivial) hc
  exact hne (hwc ▸ hw)

/-- A coroutine that owns the mutex never sees it unlocked. -/
lemma Represents.word_ne_unlocked {s : State ι} {L : HandoverLock ι} (h : Represents s L) {c : ι}
    (hc : (s.pc c).Owns) : s.mState ≠ .unlocked := by
  obtain ⟨p, ws, -, hp, -⟩ := h.exists_linked hc
  simp [hp]

/-- The value an owner reads from `m_state` in `unlock` leads to a sound branch. -/
lemma Represents.sound_unlockBranch {s : State ι} {L : HandoverLock ι} (h : Represents s L) {c : ι}
    (hc : (s.pc c).Owns) : Sound s L c (unlockBranch s.mState) := by
  obtain ⟨p, ws, rfl, hp, hl⟩ := h.exists_linked hc
  rw [hp]
  cases p with
  | none => trivial
  | some w =>
    obtain ⟨t, rfl, -⟩ := Linked.some_iff.mp hl
    exact List.cons_ne_nil w t

/-- The head an owner reads in `awaiter_list_pop` is a waiter, given that it saw one before. -/
lemma Represents.exists_head {s : State ι} {L : HandoverLock ι} (h : Represents s L) {c : ι}
    (hc : (s.pc c).Owns) (hne : L.waiting ≠ []) : ∃ w ∈ L.waiting, s.mState = .ptr (some w) := by
  obtain ⟨p, ws, rfl, hp, hl⟩ := h.exists_linked hc
  cases p with
  | none => exact (hne (Linked.none_iff.mp hl)).elim
  | some w =>
    obtain ⟨t, rfl, -⟩ := Linked.some_iff.mp hl
    exact ⟨w, List.mem_cons_self, hp⟩

/-! ## Moving one control point -/

@[simp] lemma goto_pc (s : State ι) (c d : ι) (p : Pc ι) :
    (s.goto c p).pc d = if d = c then p else s.pc d := by
  simp [State.goto, update_apply]

@[simp] lemma goto_log (s : State ι) (c : ι) (p : Pc ι) : (s.goto c p).log = s.log := rfl

@[simp] lemma goto_mNext (s : State ι) (c : ι) (p : Pc ι) : (s.goto c p).mNext = s.mNext := rfl

@[simp] lemma goto_mAwaitingCoroutine (s : State ι) (c : ι) (p : Pc ι) :
    (s.goto c p).mAwaitingCoroutine = s.mAwaitingCoroutine := rfl

/-- Moves between private control points record nothing. -/
lemma Ledger.goto {s : State ι} {c : ι} {p : Pc ι} (h : Ledger s) (hold : (s.pc c).Private)
    (hnew : p.Private) : Ledger (s.goto c p) := by
  refine ⟨fun w => ?_, fun d w => ?_⟩
  · by_cases hw : w = c
    · subst hw
      simpa [hold.1, hnew.1] using h.queued w
    · simpa [hw] using h.queued w
  · by_cases hd : d = c
    · subst hd
      simpa [hold.2.2 w, hnew.2.2 w] using h.transferred d w
    · simpa [hd] using h.transferred d w

/-- A lock operation is queued. -/
lemma Ledger.enqueue {s : State ι} {c : ι} {m : Word ι} (h : Ledger s) (hold : (s.pc c).Private) :
    Ledger { s.goto c .suspended with mState := m, log := .queued c :: s.log } := by
  refine ⟨fun w => ?_, fun d w => ?_⟩
  · by_cases hw : w = c
    · subst hw
      have hcount := h.queued w
      simp only [hold.1, if_false] at hcount
      simpa using hcount
    · have hne : c ≠ w := fun hcw => hw hcw.symm
      simpa [hw, hne] using h.queued w
  · by_cases hd : d = c
    · subst hd
      simpa [hold.2.2 w] using h.transferred d w
    · simpa [hd] using h.transferred d w

/-- The head of the list is handed the mutex. -/
lemma Ledger.transfer {s : State ι} {c w : ι} {m : Word ι} (h : Ledger s)
    (hc : (s.pc c).Private) (hw : s.pc w = .suspended) (hwc : w ≠ c) :
    Ledger { (s.goto w .granted).goto c (.resumeWaiter w) with
      mState := m, log := .transferred c w :: s.log } := by
  refine ⟨fun v => ?_, fun d v => ?_⟩
  · have hcount := h.queued v
    by_cases hvc : v = c
    · subst hvc
      simpa [hc.1, hwc] using hcount
    · by_cases hvw : v = w
      · subst hvw
        simpa [hvc, hw] using hcount
      · have hne : w ≠ v := fun hwv => hvw hwv.symm
        simpa [hvc, hvw, hne] using hcount
  · have hcount := h.transferred d v
    by_cases hdc : d = c
    · subst hdc
      by_cases hvw : v = w
      · subst hvw
        simpa [hc.2.2 v] using hcount
      · have hne : w ≠ v := fun hwv => hvw hwv.symm
        simpa [hc.2.2 v, hne] using hcount
    · have hne : c ≠ d := fun hcd => hdc hcd.symm
      by_cases hdw : d = w
      · subst hdw
        simpa [hdc, hne, hw] using hcount
      · simpa [hdc, hdw, hne] using hcount

/-- The new owner is resumed. -/
lemma Ledger.resume {s : State ι} {c w : ι} (h : Ledger s) (hc : s.pc c = .resumeWaiter w)
    (hw : s.pc w = .granted) (hwc : w ≠ c) :
    Ledger { (s.goto w .holding).goto c .idle with log := .resumed c w :: s.log } := by
  refine ⟨fun v => ?_, fun d v => ?_⟩
  · have hcount := h.queued v
    by_cases hvc : v = c
    · subst hvc
      simpa [hc] using hcount
    · by_cases hvw : v = w
      · subst hvw
        simpa [hvc, hw] using hcount
      · simpa [hvc, hvw] using hcount
  · have hcount := h.transferred d v
    by_cases hdc : d = c
    · subst hdc
      by_cases hvw : v = w
      · subst hvw
        simpa [hc] using hcount
      · have hne : w ≠ v := fun hwv => hvw hwv.symm
        simpa [hc, hne] using hcount
    · have hne : c ≠ d := fun hcd => hdc hcd.symm
      by_cases hdw : d = w
      · subst hdw
        simpa [hdc, hne, hw] using hcount
      · simpa [hdc, hdw, hne] using hcount

/-- A move between private control points that takes no part in the ownership of the mutex leaves
the abstract lock as it is. -/
lemma Represents.goto {s : State ι} {L : HandoverLock ι} {c : ι} {p : Pc ι} (h : Represents s L)
    (hold : (s.pc c).Private) (hnew : p.Private) (hown : p.Owns ↔ (s.pc c).Owns)
    (hsound : Sound s L c p) : Represents (s.goto c p) L := by
  have hkeep : ∀ d q, (∀ w, q = .resumeWaiter w → s.pc w = .granted) → Sound s L d q →
      Sound (s.goto c p) L d q := by
    intro d q hres hq
    refine hq.mono rfl rfl (fun _ w hw => ⟨hw, rfl⟩) fun w hw => ?_
    have hwc : w ≠ c := fun hwc => hold.2.1 (hwc ▸ hres w hw)
    simpa [hwc] using hres w hw
  have hnotMem : c ∉ L.waiting := fun hc => hold.1 ((h.suspended_iff c).mpr hc)
  refine ⟨fun d => ?_, h.word, fun d => ?_, fun d => ?_, fun w hw => ?_, fun w d e hd he => ?_,
    h.waiting_log, h.lifo, h.ledger.goto hold hnew⟩
  · by_cases hd : d = c
    · subst hd
      simpa using hown.trans (h.owns_iff d)
    · simpa [hd] using h.owns_iff d
  · by_cases hd : d = c
    · subst hd
      simp [hnew.1, hnotMem]
    · simpa [hd] using h.suspended_iff d
  · by_cases hd : d = c
    · subst hd
      simpa using hkeep d p (fun w hw => (hnew.2.2 w hw).elim) hsound
    · simpa [hd] using hkeep d _ (fun w hw => h.granted_of_resumeWaiter hw) (h.sound d)
  · have hwc : w ≠ c := by
      rintro rfl
      exact hnew.2.1 (by simpa using hw)
    obtain ⟨d, hd⟩ := h.resumer w (by simpa [hwc] using hw)
    have hdc : d ≠ c := by
      rintro rfl
      exact hold.2.2 w hd
    exact ⟨d, by simpa [hdc] using hd⟩
  · have hne : ∀ e, (s.goto c p).pc e = .resumeWaiter w → s.pc e = .resumeWaiter w := by
      intro e he
      have hec : e ≠ c := by
        rintro rfl
        exact hnew.2.2 w (by simpa using he)
      simpa [hec] using he
    exact h.resumer_unique w d e (hne d hd) (hne e he)

/-- Publishing the own coroutine handle is invisible to everybody else. -/
lemma Represents.setHandle {s : State ι} {L : HandoverLock ι} {c : ι} {v : Option ι}
    (h : Represents s L) (hc : Sound { s with
      mAwaitingCoroutine := update s.mAwaitingCoroutine c v } L c (s.pc c)) :
    Represents { s with mAwaitingCoroutine := update s.mAwaitingCoroutine c v } L := by
  refine ⟨h.owns_iff, h.word, h.suspended_iff, fun d => ?_, h.resumer, h.resumer_unique,
    h.waiting_log, h.lifo, h.ledger.1, h.ledger.2⟩
  by_cases hd : d = c
  · subst hd
    exact hc
  · exact (h.sound d).mono (update_of_ne hd _ _) rfl (fun _ w hw => ⟨hw, rfl⟩)
      fun w hw => h.granted_of_resumeWaiter hw

/-- Writing the own `m_next` field before the operation is published disturbs nobody. -/
lemma Represents.setNext {s : State ι} {L : HandoverLock ι} {c : ι} {p q : Option ι}
    (h : Represents s L) (hc : s.pc c = .writeNext q) :
    Represents { s with mNext := update s.mNext c p } L := by
  have hnotMem : c ∉ L.waiting := by
    intro hmem
    have := (h.suspended_iff c).mpr hmem
    simp [hc] at this
  have hkeep : ∀ w ∈ L.waiting, update s.mNext c p w = s.mNext w := by
    intro w hw
    have hwc : w ≠ c := fun hwc => hnotMem (hwc ▸ hw)
    exact update_of_ne hwc _ _
  have hword : WordSpells { s with mNext := update s.mNext c p } L := by
    have hold := h.word
    cases L with
    | free => exact hold
    | held o ws =>
      obtain ⟨r, hr, hl⟩ := hold
      exact ⟨r, hr, hl.update hnotMem p⟩
  refine ⟨h.owns_iff, hword, h.suspended_iff, fun d => ?_, h.resumer, h.resumer_unique,
    h.waiting_log, h.lifo, h.ledger.1, h.ledger.2⟩
  by_cases hd : d = c
  · subst hd
    have hsound := h.sound d
    rw [hc] at hsound ⊢
    exact hsound
  · exact (h.sound d).mono rfl (update_of_ne hd _ _) (fun _ w hw => ⟨hw, hkeep w hw⟩)
      fun w hw => h.granted_of_resumeWaiter hw

/-! ## The compare-exchanges that move the abstract lock -/

section Commit

variable {s : State ι} {L : HandoverLock ι} {c : ι}

/-- Taking a mutex seen unlocked, in `try_lock` or in `await_suspend`. -/
lemma Represents.acquire {g : ι → Option ι} (h : Represents s L) (hword : s.mState = .unlocked)
    (hc : (s.pc c).Private) (hhandle : ∀ d, d ≠ c → g d = s.mAwaitingCoroutine d) :
    L = .free ∧ Represents { s.goto c .holding with
      mState := .ptr none, mAwaitingCoroutine := g } (.held c []) := by
  obtain rfl : L = .free := by
    have hspells := h.word
    cases L with
    | free => rfl
    | held o ws =>
      obtain ⟨p, hp, -⟩ := hspells
      simp [hword] at hp
  have hnone : ∀ d, ¬ (s.pc d).Owns := fun d hd => by simpa using (h.owns_iff d).mp hd
  have hnotGranted : ∀ d, s.pc d ≠ .granted := fun d hd => hnone d (by rw [hd]; trivial)
  have hnotResumer : ∀ d w, s.pc d ≠ .resumeWaiter w := fun d w hd =>
    hnotGranted w (h.granted_of_resumeWaiter hd)
  refine ⟨rfl, fun d => ?_, ⟨none, rfl, rfl⟩, fun d => ?_, fun d => ?_, fun w hw => ?_,
    fun w d e hd he => ?_, h.waiting_log, h.lifo, ?_⟩
  · by_cases hd : d = c
    · subst hd
      simp [Pc.Owns]
    · have hne : c ≠ d := fun hcd => hd hcd.symm
      simp [hd, hne, hnone d]
  · by_cases hd : d = c
    · simp [hd]
    · simpa [hd] using h.suspended_iff d
  · by_cases hd : d = c
    · subst hd
      simp [Sound]
    · have hsound : Sound { s.goto c .holding with
          mState := .ptr none, mAwaitingCoroutine := g } (.held c []) d (s.pc d) :=
        (h.sound d).mono (hhandle d hd) rfl (fun hown => (hnone d hown).elim)
          fun w hw => (hnotResumer d w hw).elim
      simpa [hd] using hsound
  · by_cases hwc : w = c
    · simp [hwc] at hw
    · exact (hnotGranted w (by simpa [hwc] using hw)).elim
  · by_cases hdc : d = c
    · simp [hdc] at hd
    · exact (hnotResumer d w (by simpa [hdc] using hd)).elim
  · have hledger := h.ledger.goto (p := .holding) hc (by simp [Pc.Private])
    exact { hledger with }

/-- Joining the waiter list of a held mutex. -/
lemma Represents.enqueue {p : Option ι} (h : Represents s L) (hc : s.pc c = .casEnqueue p)
    (hword : s.mState = .ptr p) :
    ∃ o ws, L = .held o ws ∧ Represents { s.goto c .suspended with
      mState := .ptr (some c), log := .queued c :: s.log } (.held o (c :: ws)) := by
  obtain ⟨o, ws, rfl, hl⟩ : ∃ o ws, L = .held o ws ∧ Linked s.mNext p ws := by
    have hspells := h.word
    cases L with
    | free => simp [WordSpells, hword] at hspells
    | held o ws =>
      obtain ⟨q, hq, hl⟩ := hspells
      obtain rfl : p = q := by simpa [hword] using hq
      exact ⟨o, ws, rfl, hl⟩
  have hsoundc := h.sound c
  rw [hc] at hsoundc
  obtain ⟨hhandle, hnext⟩ := hsoundc
  refine ⟨o, ws, rfl, fun d => ?_, ⟨some c, rfl, rfl, ?_⟩, fun d => ?_, fun d => ?_, fun w hw => ?_,
    fun w d e hd he => ?_, ?_, h.lifo, h.ledger.enqueue (by simp [hc, Pc.Private])⟩
  · by_cases hd : d = c
    · subst hd
      have hown := h.owns_iff d
      rw [hc] at hown
      simpa [Pc.Owns] using hown
    · simpa [hd] using h.owns_iff d
  · simpa [hnext] using hl
  · by_cases hd : d = c
    · simp [hd]
    · simpa [hd] using h.suspended_iff d
  · by_cases hd : d = c
    · subst hd
      simpa [Sound] using hhandle
    · have hsound : Sound { s.goto c .suspended with
          mState := .ptr (some c), log := .queued c :: s.log } (.held o (c :: ws)) d (s.pc d) := by
        refine (h.sound d).mono rfl rfl (fun _ w hw => ⟨List.mem_cons_of_mem c hw, rfl⟩)
          fun w hw => ?_
        have hgranted := h.granted_of_resumeWaiter hw
        have hwc : w ≠ c := by
          rintro rfl
          simp [hc] at hgranted
        simpa [hwc] using hgranted
      simpa [hd] using hsound
  · have hwc : w ≠ c := by
      rintro rfl
      simp at hw
    obtain ⟨d, hd⟩ := h.resumer w (by simpa [hwc] using hw)
    have hdc : d ≠ c := by
      rintro rfl
      simp [hc] at hd
    exact ⟨d, by simpa [hdc] using hd⟩
  · have hback : ∀ e, (s.goto c .suspended).pc e = .resumeWaiter w → s.pc e = .resumeWaiter w := by
      intro e he
      have hec : e ≠ c := by
        rintro rfl
        simp at he
      simpa [hec] using he
    exact h.resumer_unique w d e (hback d hd) (hback e he)
  · exact congrArg (c :: ·) h.waiting_log

/-- Freeing a mutex on which nobody waits. -/
lemma Represents.release (h : Represents s L) (hc : s.pc c = .casRelease)
    (hword : s.mState = .ptr none) :
    L = .held c [] ∧ Represents { s.goto c .idle with mState := .unlocked } .free := by
  have hown : (s.pc c).Owns := by rw [hc]; trivial
  obtain ⟨p, ws, rfl, hp, hl⟩ := h.exists_linked hown
  obtain rfl : p = none := by simpa [hword] using hp.symm
  obtain rfl : ws = [] := Linked.none_iff.mp hl
  have hothers : ∀ d, d ≠ c → ¬ (s.pc d).Owns := fun d hd hdown => hd (h.owner_eq hdown hown)
  have hnotResumer : ∀ d w, s.pc d ≠ .resumeWaiter w :=
    h.ne_resumeWaiter hown (by simp [hc])
  have hledger := h.ledger.goto (c := c) (p := .idle) (by simp [hc, Pc.Private])
    (by simp [Pc.Private])
  refine ⟨rfl, fun d => ?_, rfl, fun d => ?_, fun d => ?_, fun w hw => ?_, fun w d e hd he => ?_,
    h.waiting_log, h.lifo, hledger.1, hledger.2⟩
  · by_cases hd : d = c
    · simp [hd, Pc.Owns]
    · simpa [hd] using hothers d hd
  · by_cases hd : d = c
    · simp [hd]
    · simpa [hd] using h.suspended_iff d
  · by_cases hd : d = c
    · simp [hd, Sound]
    · have hsound : Sound { s.goto c .idle with mState := .unlocked } .free d (s.pc d) :=
        (h.sound d).mono rfl rfl (fun hdown => (hothers d hd hdown).elim)
          fun w hw => (hnotResumer d w hw).elim
      simpa [hd] using hsound
  · by_cases hwc : w = c
    · simp [hwc] at hw
    · have hgranted : s.pc w = .granted := by simpa [hwc] using hw
      exact (hothers w hwc (by rw [hgranted]; trivial)).elim
  · by_cases hdc : d = c
    · simp [hdc] at hd
    · exact (hnotResumer d w (by simpa [hdc] using hd)).elim

/-- Passing the mutex to the waiter at the head of the list. -/
lemma Represents.transfer {w : ι} {n : Option ι} (h : Represents s L) (hc : s.pc c = .popCas w n)
    (hword : s.mState = .ptr (some w)) :
    ∃ ws, L = .held c (w :: ws) ∧ Represents { (s.goto w .granted).goto c (.resumeWaiter w) with
      mState := .ptr n, log := .transferred c w :: s.log } (.held w ws) := by
  have hown : (s.pc c).Owns := by rw [hc]; trivial
  obtain ⟨p, ws', rfl, hp, hl⟩ := h.exists_linked hown
  obtain rfl : p = some w := by simpa [hword] using hp.symm
  obtain ⟨ws, rfl, ht⟩ := Linked.some_iff.mp hl
  have hsoundc := h.sound c
  rw [hc] at hsoundc
  obtain rfl : s.mNext w = n := hsoundc.2
  have hnodup := hl.nodup
  have hsuspended : s.pc w = .suspended := (h.suspended_iff w).mpr List.mem_cons_self
  have hwc : w ≠ c := by
    rintro rfl
    simp [hc] at hsuspended
  have hhandle : s.mAwaitingCoroutine w = some w := by
    have hsoundw := h.sound w
    rwa [hsuspended] at hsoundw
  have hothers : ∀ d, d ≠ c → ¬ (s.pc d).Owns := fun d hd hdown => hd (h.owner_eq hdown hown)
  have hnotResumer : ∀ d v, s.pc d ≠ .resumeWaiter v :=
    h.ne_resumeWaiter hown (by simp [hc])
  have hlog : waitingOf s.log = w :: ws := h.waiting_log.symm
  refine ⟨ws, rfl, fun d => ?_, ⟨s.mNext w, rfl, ht⟩, fun d => ?_, fun d => ?_, fun v hv => ?_,
    fun v d e hd he => ?_, ?_, ⟨?_, h.lifo⟩,
    h.ledger.transfer (by simp [hc, Pc.Private]) hsuspended hwc⟩
  · by_cases hd : d = c
    · simp [hd, Pc.Owns, hwc]
    · by_cases hdw : d = w
      · subst hdw
        simp [hd, Pc.Owns]
      · have hwd : w ≠ d := fun hwd => hdw hwd.symm
        simp [hd, hdw, hwd, hothers d hd]
  · by_cases hd : d = c
    · have hnotMem : c ∉ ws := by
        intro hmem
        have := (h.suspended_iff c).mpr (List.mem_cons_of_mem w hmem)
        simp [hc] at this
      simp [hd, hnotMem]
    · by_cases hdw : d = w
      · subst hdw
        simp [hd, (List.nodup_cons.mp hnodup).1]
      · simpa [hd, hdw] using h.suspended_iff d
  · by_cases hd : d = c
    · simp [hd, Sound, hwc]
    · by_cases hdw : d = w
      · subst hdw
        simpa [hd, Sound] using hhandle
      · have hsound : Sound { (s.goto w .granted).goto c (.resumeWaiter w) with
            mState := .ptr (s.mNext w), log := .transferred c w :: s.log }
            (.held w ws) d (s.pc d) :=
          (h.sound d).mono rfl rfl (fun hdown => (hothers d hd hdown).elim)
            fun v hv => (hnotResumer d v hv).elim
        simpa [hd, hdw] using hsound
  · have hvc : v ≠ c := by
      rintro rfl
      simp at hv
    by_cases hvw : v = w
    · exact ⟨c, by simp [hvw]⟩
    · have hgranted : s.pc v = .granted := by simpa [hvc, hvw] using hv
      exact (hothers v hvc (by rw [hgranted]; trivial)).elim
  · have honly : ∀ e, ((s.goto w .granted).goto c (.resumeWaiter w)).pc e = .resumeWaiter v →
        e = c := by
      intro e he
      by_contra hec
      by_cases hew : e = w
      · simp [hew, hwc] at he
      · exact hnotResumer e v (by simpa [hec, hew] using he)
    exact (honly d hd).trans (honly e he).symm
  · simp [waitingOf, hlog]
  · simp [hlog]

/-- Resuming the granted waiter, which runs on as the owner. -/
lemma Represents.resume {w : ι} (h : Represents s L) (hc : s.pc c = .resumeWaiter w) :
    s.mAwaitingCoroutine w = some w ∧ Represents { (s.goto w .holding).goto c .idle with
      log := .resumed c w :: s.log } L := by
  have hgranted := h.granted_of_resumeWaiter hc
  have hownw : (s.pc w).Owns := by rw [hgranted]; trivial
  have hwc : w ≠ c := by
    rintro rfl
    simp [hc] at hgranted
  have hhandle : s.mAwaitingCoroutine w = some w := by
    have hsoundw := h.sound w
    rwa [hgranted] at hsoundw
  have honly : ∀ d v, d ≠ c → s.pc d ≠ .resumeWaiter v := by
    intro d v hd hdv
    obtain rfl : v = w :=
      h.owner_eq (by rw [h.granted_of_resumeWaiter hdv]; trivial) hownw
    exact hd (h.resumer_unique v d c hdv hc)
  have hownerw : L.owner = some w := (h.owns_iff w).mp hownw
  have hnotMemw : w ∉ L.waiting := by
    intro hmem
    have := (h.suspended_iff w).mpr hmem
    simp [hgranted] at this
  have hnotMemc : c ∉ L.waiting := by
    intro hmem
    have := (h.suspended_iff c).mpr hmem
    simp [hc] at this
  refine ⟨hhandle, fun d => ?_, h.word, fun d => ?_, fun d => ?_, fun v hv => ?_,
    fun v d e hd he => ?_, h.waiting_log, h.lifo, h.ledger.resume hc hgranted hwc⟩
  · by_cases hd : d = c
    · subst hd
      simp [Pc.Owns, hownerw, hwc]
    · by_cases hdw : d = w
      · subst hdw
        simp [hd, Pc.Owns, hownerw]
      · simpa [hd, hdw] using h.owns_iff d
  · by_cases hd : d = c
    · simp [hd, hnotMemc]
    · by_cases hdw : d = w
      · simp [hdw, hwc, hnotMemw]
      · simpa [hd, hdw] using h.suspended_iff d
  · by_cases hd : d = c
    · simp [hd, Sound]
    · by_cases hdw : d = w
      · simp [hdw, hwc, Sound]
      · have hsound : Sound { (s.goto w .holding).goto c .idle with
            log := .resumed c w :: s.log } L d (s.pc d) :=
          (h.sound d).mono rfl rfl (fun _ v hv => ⟨hv, rfl⟩) fun v hv => (honly d v hd hv).elim
        simpa [hd, hdw] using hsound
  · have hvc : v ≠ c := by
      rintro rfl
      simp at hv
    have hvw : v ≠ w := by
      rintro rfl
      simp [hvc] at hv
    have hgrantedv : s.pc v = .granted := by simpa [hvc, hvw] using hv
    exact (hvw (h.owner_eq (by rw [hgrantedv]; trivial) hownw)).elim
  · have hdc : d ≠ c := by
      rintro rfl
      simp at hd
    have hdw : d ≠ w := by
      rintro rfl
      simp [hdc] at hd
    exact (honly d v hdc (by simpa [hdc, hdw] using hd)).elim

end Commit

/-! ## The simulation -/

/-- How a step of the mutex moves the lock `L` that it implements: one move for each successful
compare-exchange, none for every other access. -/
def Moves (L : HandoverLock ι) (s' : State ι) : Prop :=
  Represents s' L ∨ ∃ a L', HandoverLock.machine.step L a = some L' ∧ Represents s' L'

/-- The owner reads `m_state` in the loop of `unlock`. -/
lemma Represents.gotoUnlockBranch {s : State ι} {L : HandoverLock ι} {c : ι} (h : Represents s L)
    (hprivate : (s.pc c).Private) (hc : (s.pc c).Owns) :
    Represents (s.goto c (unlockBranch s.mState)) L := by
  have hne := h.word_ne_unlocked hc
  refine h.goto hprivate ?_ ?_ (h.sound_unlockBranch hc)
  · cases s.mState with
    | unlocked => simp [unlockBranch, Pc.Private]
    | ptr p => cases p <;> simp [unlockBranch, Pc.Private]
  · cases hword : s.mState with
    | unlocked => exact (hne hword).elim
    | ptr p => cases p <;> exact iff_of_true trivial hc

/-- The owner reads the head in the loop of `awaiter_list_pop`. -/
lemma Represents.gotoPopBranch {s : State ι} {L : HandoverLock ι} {c : ι} (h : Represents s L)
    (hprivate : (s.pc c).Private) (hc : (s.pc c).Owns) (hne : L.waiting ≠ []) :
    Represents (s.goto c (popBranch s.mState)) L := by
  obtain ⟨w, hw, hword⟩ := h.exists_head hc hne
  rw [hword]
  refine h.goto hprivate ?_ ?_ hw
  · simp [popBranch, Pc.Private]
  · exact iff_of_true trivial hc

/-- `try_lock`, called directly or as the `await_ready` of a lock operation. -/
lemma Represents.tryLock {s : State ι} {L : HandoverLock ι} {c : ι} {p : Pc ι} (h : Represents s L)
    (hc : s.pc c = .idle) (hp : p = .idle ∨ p = .suspendLoad) : Moves L (tryLock s c p) := by
  unfold Mutex.tryLock
  split_ifs with hword
  · obtain ⟨rfl, hacq⟩ := h.acquire (c := c) (g := s.mAwaitingCoroutine) hword
      (by simp [hc, Pc.Private]) fun _ _ => rfl
    exact .inr ⟨.acquire c, _, rfl, hacq⟩
  · refine .inl (h.goto ?_ ?_ ?_ ?_)
    · simp [hc, Pc.Private]
    · rcases hp with rfl | rfl <;> simp [Pc.Private]
    · rcases hp with rfl | rfl <;> simp [hc, Pc.Owns]
    · rcases hp with rfl | rfl <;> trivial

/-- The next atomic access of a coroutine. -/
lemma Represents.advance {s s' : State ι} {L : HandoverLock ι} {c : ι} {b : Bool}
    (h : Represents s L) (hstep : advance s c b = some s') : Moves L s' := by
  have hsound := h.sound c
  -- the branches of `await_suspend` know nothing but the published handle
  have hbranch : ∀ m : Word ι, s.mAwaitingCoroutine c = some c → Sound s L c (suspendBranch m) := by
    intro m hm
    cases m <;> exact hm
  have hbranchPrivate : ∀ m : Word ι, (suspendBranch m).Private ∧ ¬ (suspendBranch m).Owns := by
    intro m
    cases m <;> simp [suspendBranch, Pc.Private, Pc.Owns]
  unfold Mutex.advance at hstep
  cases hc : s.pc c with
  | suspendLoad =>
    simp only [hc, Option.some.injEq] at hstep
    subst hstep
    have hset : Represents { s with
        mAwaitingCoroutine := update s.mAwaitingCoroutine c (some c) } L := by
      apply h.setHandle
      rw [hc]
      trivial
    refine .inl (hset.goto (c := c) (p := suspendBranch s.mState) ?_ (hbranchPrivate _).1 ?_ ?_)
    · simp [hc, Pc.Private]
    · exact iff_of_false (hbranchPrivate s.mState).2 (by simp [hc, Pc.Owns])
    · cases s.mState <;> simp [suspendBranch, Sound]
  | casAcquire =>
    rw [hc] at hsound
    simp only [hc] at hstep
    split_ifs at hstep with hcas
    · cases hstep
      obtain ⟨rfl, hacq⟩ := h.acquire (c := c)
        (g := update s.mAwaitingCoroutine c none) hcas.1 (by simp [hc, Pc.Private])
        fun d hd => update_of_ne hd _ _
      exact .inr ⟨.acquire c, _, rfl, hacq⟩
    · cases hstep
      refine .inl (h.goto ?_ (hbranchPrivate _).1 ?_ (hbranch _ hsound))
      · simp [hc, Pc.Private]
      · exact iff_of_false (hbranchPrivate s.mState).2 (by simp [hc, Pc.Owns])
  | writeNext p =>
    rw [hc] at hsound
    simp only [hc, Option.some.injEq] at hstep
    subst hstep
    have hset := h.setNext (p := p) hc
    refine .inl (hset.goto (c := c) (p := .casEnqueue p) ?_ ?_ ?_ ?_)
    · simp [hc, Pc.Private]
    · simp [Pc.Private]
    · simp [hc, Pc.Owns]
    · exact ⟨hsound, update_self ..⟩
  | casEnqueue p =>
    rw [hc] at hsound
    simp only [hc] at hstep
    split_ifs at hstep with hcas
    · cases hstep
      obtain ⟨o, ws, rfl, henq⟩ := h.enqueue hc hcas.1
      exact .inr ⟨.enqueue c, _, rfl, henq⟩
    · cases hstep
      refine .inl (h.goto ?_ (hbranchPrivate _).1 ?_ (hbranch _ hsound.1))
      · simp [hc, Pc.Private]
      · exact iff_of_false (hbranchPrivate s.mState).2 (by simp [hc, Pc.Owns])
  | unlockLoad =>
    simp only [hc, Option.some.injEq] at hstep
    subst hstep
    have hown : (s.pc c).Owns := by rw [hc]; trivial
    exact .inl (h.gotoUnlockBranch (by simp [hc, Pc.Private]) hown)
  | casRelease =>
    simp only [hc] at hstep
    have hown : (s.pc c).Owns := by rw [hc]; trivial
    split_ifs at hstep with hcas
    · cases hstep
      obtain ⟨rfl, hrel⟩ := h.release hc hcas.1
      exact .inr ⟨.release c, _, by simp [HandoverLock.machine], hrel⟩
    · cases hstep
      exact .inl (h.gotoUnlockBranch (by simp [hc, Pc.Private]) hown)
  | popLoad =>
    rw [hc] at hsound
    simp only [hc, Option.some.injEq] at hstep
    subst hstep
    exact .inl (h.gotoPopBranch (by simp [hc, Pc.Private]) (by rw [hc]; trivial) hsound)
  | popReadNext w =>
    rw [hc] at hsound
    simp only [hc, Option.some.injEq] at hstep
    subst hstep
    refine .inl (h.goto ?_ ?_ ?_ ⟨hsound, rfl⟩)
    · simp [hc, Pc.Private]
    · simp [Pc.Private]
    · simp [hc, Pc.Owns]
  | popCas w n =>
    rw [hc] at hsound
    simp only [hc] at hstep
    split_ifs at hstep with hcas
    · cases hstep
      obtain ⟨ws, rfl, htr⟩ := h.transfer hc hcas.1
      exact .inr ⟨.handover c, _, by simp [HandoverLock.machine], htr⟩
    · cases hstep
      exact .inl (h.gotoPopBranch (by simp [hc, Pc.Private]) (by rw [hc]; trivial)
        (List.ne_nil_of_mem hsound.1))
  | resumeWaiter w =>
    obtain ⟨hhandle, hres⟩ := h.resume hc
    simp only [hc, hhandle, Option.some.injEq] at hstep
    subst hstep
    exact .inl (hres)
  | idle | holding | suspended | granted | alreadyUnlocked | strayWaiter => simp [hc] at hstep

/-- Each step of the mutex is matched by at most one move of the lock it implements. -/
lemma Represents.step {s s' : State ι} {L : HandoverLock ι} {a : Action ι} (h : Represents s L)
    (hstep : step s a = some s') : Moves L s' := by
  cases a with
  | tryLock c | lock c =>
    simp only [Mutex.step] at hstep
    split_ifs at hstep with hc
    cases hstep
    exact h.tryLock hc (by simp)
  | unlock c =>
    simp only [Mutex.step] at hstep
    split_ifs at hstep with hc
    cases hstep
    refine .inl (h.goto ?_ ?_ ?_ trivial)
    · simp [hc, Pc.Private]
    · simp [Pc.Private]
    · simp [hc, Pc.Owns]
  | advance c b => exact h.advance hstep

/-- A fresh mutex implements the free lock. -/
lemma represents_start : Represents (start : State ι) .free := by
  refine ⟨fun c => ?_, rfl, fun c => ?_, fun c => ?_, fun w hw => ?_, fun w c d hc _ => ?_, rfl,
    trivial, fun w => ?_, fun c w => ?_⟩
  · simp [start, Pc.Owns]
  · simp [start]
  · trivial
  · simp [start] at hw
  · simp [start] at hc
  · simp [start]
  · simp [start]

/-- `coro::mutex` refines the lock that is handed over. -/
theorem machine_simulates :
    Machine.Simulation (machine ι) HandoverLock.machine Represents where
  start := represents_start
  step := fun h hstep => h.step hstep

end Libcoro.Mutex
