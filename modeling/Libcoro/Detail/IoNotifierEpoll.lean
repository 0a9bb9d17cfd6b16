import Libcoro.Scheduler.Poll

/-!
# The user data of `detail::io_notifier_epoll`

An epoll entry carries 64 bits that the kernel hands back with each of its events.  `encode_udata`
packs two flags and the address of a `poll_info` into them, and `next_events` takes them apart with
`decode_udata`.  The two functions do not use the same mask: the encoder keeps the low 62 bits of
the address, the decoder the low 48.

The notifier is written once, for any way to put a registration into the user data.  Its instance
`words` uses the two functions of the source; its instance `plain` keeps the registration as it was
given, and says what `next_events` is supposed to report.
-/

namespace Libcoro.IoNotifierEpoll

open Foundations
open Scheduler.Poll (EpollEvents PollInfo PollStatus eventToPollStatus)

/-! ## Words -/

/-- `encode_udata`. -/
def encodeUdata (keepRegistered isCancelEvent : Bool) (udata : BitVec 64) : BitVec 64 :=
  ((BitVec.ofBool keepRegistered).setWidth 64 <<< 63) |||
    ((BitVec.ofBool isCancelEvent).setWidth 64 <<< 62) |||
    (udata &&& 0x3FFFFFFFFFFFFFFF#64)

/-- `decode_udata`: `keep_registered`, `is_cancel_event` and the address. -/
def decodeUdata (encoded : BitVec 64) : Bool × Bool × BitVec 64 :=
  (encoded >>> 63 ≠ 0, (encoded >>> 62) &&& 0x1#64 ≠ 0, encoded &&& 0xFFFFFFFFFFFF#64)

/-- A shift that leaves only bits above the mask of the encoder removes the address. -/
lemma shiftRight_address (p : BitVec 64) {k : ℕ} (hk : 0x3FFFFFFFFFFFFFFF#64 >>> k = 0#64) :
    (p &&& 0x3FFFFFFFFFFFFFFF#64) >>> k = 0#64 := by
  rw [BitVec.ushiftRight_and_distrib, hk, BitVec.and_zero]

/-- What comes back: the flags, and the low 48 bits of the address. -/
lemma decodeUdata_encodeUdata (keep cancel : Bool) (p : BitVec 64) :
    decodeUdata (encodeUdata keep cancel p) = (keep, cancel, p &&& 0xFFFFFFFFFFFF#64) := by
  have hkeep : encodeUdata keep cancel p >>> 63 = (BitVec.ofBool keep).setWidth 64 := by
    rw [encodeUdata, BitVec.ushiftRight_or_distrib, BitVec.ushiftRight_or_distrib,
      shiftRight_address p (by decide)]
    cases keep <;> cases cancel <;> rfl
  have hcancel : encodeUdata keep cancel p >>> 62 &&& 0x1#64 =
      (BitVec.ofBool cancel).setWidth 64 := by
    rw [encodeUdata, BitVec.ushiftRight_or_distrib, BitVec.ushiftRight_or_distrib,
      shiftRight_address p (by decide)]
    cases keep <;> cases cancel <;> rfl
  have haddress : encodeUdata keep cancel p &&& 0xFFFFFFFFFFFF#64 = p &&& 0xFFFFFFFFFFFF#64 := by
    rw [encodeUdata, BitVec.and_or_distrib_right, BitVec.and_assoc p]
    cases keep <;> cases cancel <;> simp
  unfold decodeUdata
  rw [hkeep, hcancel, haddress]
  cases keep <;> cases cancel <;> rfl

/-- The mask of the decoder is a reduction modulo `2 ^ 48`. -/
lemma toNat_and_mask (p : BitVec 64) : (p &&& 0xFFFFFFFFFFFF#64).toNat = p.toNat % 2 ^ 48 := by
  rw [BitVec.toNat_and]
  exact Nat.and_two_pow_sub_one_eq_mod p.toNat 48

/-- The round trip returns the address exactly when it fits into 48 bits. -/
lemma round_trip_iff (keep cancel : Bool) (p : BitVec 64) :
    decodeUdata (encodeUdata keep cancel p) = (keep, cancel, p) ↔ p.toNat < 2 ^ 48 := by
  rw [decodeUdata_encodeUdata, Prod.mk.injEq, Prod.mk.injEq, BitVec.toNat_eq, toNat_and_mask]
  constructor
  · rintro ⟨-, -, hmod⟩
    exact hmod ▸ Nat.mod_lt _ (by norm_num)
  · exact fun hlt => ⟨rfl, rfl, Nat.mod_eq_of_lt hlt⟩

/-! ## The notifier -/

/-- A way to put `keep_registered`, `is_cancel_event` and an address into the user data and to take
them out again. -/
structure Codec (ε : Type*) where
  encode : Bool × Bool × BitVec 64 → ε
  decode : ε → Bool × Bool × BitVec 64

/-- `encode_udata` and `decode_udata`. -/
def words : Codec (BitVec 64) where
  encode u := encodeUdata u.1 u.2.1 u.2.2
  decode := decodeUdata

/-- The registration is kept as it was given. -/
def plain : Codec (Bool × Bool × BitVec 64) where
  encode := id
  decode := id

/-- `epoll_event` as `watch` fills it in: the user data, and whether `EPOLLONESHOT` is set. -/
structure EventData (ε : Type*) where
  u64 : ε
  oneshot : Bool
  deriving DecidableEq, Repr

/-- An element of `ready_events`, and the descriptor that is unwatched with it. -/
structure Report (φ : Type*) where
  pi : BitVec 64
  status : PollStatus
  unwatched : Option φ
  deriving DecidableEq, Repr

/-- The epoll instance; `reported` records all that `next_events` has ever appended, and `threw`
that it has ended with the exception of `event_to_poll_status`. -/
structure State (φ ε : Type*) where
  interest : InterestList φ (EventData ε)
  reported : List (Report φ)
  threw : Bool

/-- The calls of the notifier.  `info` is what the memory holds at the addresses that `next_events`
reads, and `ready` what `epoll_wait` reports. -/
inductive Action (φ : Type*)
  | watch (fd : φ) (data : BitVec 64) (keep isCancelEvent : Bool)
  | unwatch (fd : φ)
  | nextEvents (info : BitVec 64 → PollInfo φ) (ready : List (φ × EpollEvents))

/-- `m_max_events`. -/
def mMaxEvents : ℕ := 16

variable {φ ε : Type*}

/-- The body of the loop of `next_events` after `decode_udata`; `none` is the exception. -/
def reportEvent (info : BitVec 64 → PollInfo φ) (u : Bool × Bool × BitVec 64)
    (events : EpollEvents) : Option (Report φ) :=
  let (keepRegistered, isCancelEvent, pi) := u
  if isCancelEvent then
    some ⟨pi, .cancelled, if keepRegistered then none else (info pi).mFd⟩
  else
    (eventToPollStatus events).map fun status =>
      ⟨pi, status, if keepRegistered then none else (info pi).mCancelTrigger⟩

/-- The loop of `next_events` over the ready set, and whether it ended with the exception. -/
def nextEvents (C : Codec ε) (info : BitVec 64 → PollInfo φ) :
    List (ε × EpollEvents) → List (Report φ) × Bool
  | [] => ([], false)
  | (u64, events) :: rest =>
    match reportEvent info (C.decode u64) events with
    | none => ([], true)
    | some r => (r :: (nextEvents C info rest).1, (nextEvents C info rest).2)

/-- The user data that `epoll_wait` hands back for `f`, if its entry is enabled. -/
def State.dataOf (s : State φ ε) (f : φ) : Option ε :=
  (s.interest f).bind fun r => if r.enabled then some r.data.u64 else none

/-- Nothing is watched. -/
def start : State φ ε where
  interest := InterestList.empty
  reported := []
  threw := false

variable [DecidableEq φ]

/-- An entry with `EPOLLONESHOT` is disabled when it is reported. -/
def fire (m : InterestList φ (EventData ε)) (f : φ) : InterestList φ (EventData ε) :=
  match m f with
  | some r => if r.data.oneshot then m.disable f else m
  | none => m

/-- One call of the notifier. -/
def step (C : Codec ε) (s : State φ ε) : Action φ → Option (State φ ε)
  | .watch fd data keep isCancelEvent =>
    some { s with interest := s.interest.add fd ⟨C.encode (keep, isCancelEvent, data), !keep⟩ }
  | .unwatch fd => some { s with interest := s.interest.del (some fd) }
  | .nextEvents info ready =>
    if s.threw = false ∧ ready.length ≤ mMaxEvents ∧ (ready.map Prod.fst).Nodup ∧
        ∀ e ∈ ready, (s.dataOf e.1).isSome then
      let out := nextEvents C info (ready.filterMap fun e => (s.dataOf e.1).map (·, e.2))
      some
        { interest := (out.1.map Report.unwatched).foldl InterestList.del
            ((ready.map Prod.fst).foldl fire s.interest)
          reported := s.reported ++ out.1
          threw := out.2 }
    else none

/-- The notifier as a machine. -/
def machine (φ : Type*) [DecidableEq φ] (C : Codec ε) : Machine (State φ ε) (Action φ) where
  start := start
  step := step C

/-! ## Refinement -/

/-- The codec returns the registration `u` as it was given. -/
def Codec.Faithful (C : Codec ε) (u : Bool × Bool × BitVec 64) : Prop :=
  C.decode (C.encode u) = u

/-- The registration that a call makes, if it makes one, comes back as it was given. -/
def Action.Faithful (C : Codec ε) : Action φ → Prop
  | .watch _ data keep isCancelEvent => C.Faithful (keep, isCancelEvent, data)
  | _ => True

/-- The event with its registration encoded. -/
def EventData.encode (C : Codec ε) (d : EventData (Bool × Bool × BitVec 64)) : EventData ε where
  u64 := C.encode d.u64
  oneshot := d.oneshot

/-- The state of the notifier that encodes what the plain one keeps. -/
def State.encode (C : Codec ε) (t : State φ (Bool × Bool × BitVec 64)) : State φ ε where
  interest := t.interest.map (EventData.encode C)
  reported := t.reported
  threw := t.threw

/-- Every entry can be decoded. -/
def Decodable (C : Codec ε) (m : InterestList φ (EventData (Bool × Bool × BitVec 64))) : Prop :=
  ∀ f r, m f = some r → C.Faithful r.data.u64

section Refinement

variable {C : Codec ε} {t t' : State φ (Bool × Bool × BitVec 64)}

omit [DecidableEq φ] in
/-- The kernel hands back the encoding of what was registered. -/
lemma dataOf_encode (f : φ) : (t.encode C).dataOf f = (t.dataOf f).map C.encode := by
  have hf : (t.encode C).interest f =
      (t.interest f).map fun r => { data := r.data.encode C, enabled := r.enabled } := rfl
  unfold State.dataOf
  rw [hf]
  cases t.interest f with
  | none => rfl
  | some r => cases hr : r.enabled <;> simp [hr, EventData.encode]

omit [DecidableEq φ] in
/-- What the kernel hands back can be decoded. -/
lemma Decodable.dataOf (h : Decodable C t.interest) {f : φ} {u : Bool × Bool × BitVec 64}
    (hu : t.dataOf f = some u) : C.Faithful u := by
  obtain ⟨r, hr, hru⟩ := Option.bind_eq_some_iff.mp hu
  split_ifs at hru with hen
  exact Option.some.inj hru ▸ h f r hr

omit [DecidableEq φ] in
/-- The loop reports the same for encoded registrations as for the registrations themselves. -/
lemma nextEvents_encode (info : BitVec 64 → PollInfo φ)
    (l : List ((Bool × Bool × BitVec 64) × EpollEvents)) (hl : ∀ x ∈ l, C.Faithful x.1) :
    nextEvents C info (l.map fun x => (C.encode x.1, x.2)) = nextEvents plain info l := by
  induction l with
  | nil => rfl
  | cons x l ih =>
    obtain ⟨hx, hl⟩ := List.forall_mem_cons.mp hl
    have hdecode : C.decode (C.encode x.1) = plain.decode x.1 := hx
    simp only [List.map_cons, nextEvents, hdecode, ih hl]

/-- Disabling a reported entry does not look at its user data. -/
lemma map_fire (m : InterestList φ (EventData (Bool × Bool × BitVec 64))) (f : φ) :
    fire (m.map (EventData.encode C)) f = (fire m f).map (EventData.encode C) := by
  unfold fire
  cases hf : m f with
  | none => simp [InterestList.map, hf]
  | some r =>
    have hmap : m.map (EventData.encode C) f = some ⟨r.data.encode C, r.enabled⟩ := by
      simp [InterestList.map, hf]
    by_cases hr : r.data.oneshot = true
    · simp [hmap, hr, EventData.encode, InterestList.map_disable]
    · simp [hmap, hr, EventData.encode]

omit [DecidableEq φ] in
/-- The notifier with encoded user data reports what the plain one reports. -/
lemma nextEvents_ready (h : Decodable C t.interest) (info : BitVec 64 → PollInfo φ)
    (ready : List (φ × EpollEvents)) :
    nextEvents C info (ready.filterMap fun e => ((t.encode C).dataOf e.1).map (·, e.2)) =
      nextEvents plain info (ready.filterMap fun e => (t.dataOf e.1).map (·, e.2)) := by
  have hset : (ready.filterMap fun e => ((t.encode C).dataOf e.1).map (·, e.2)) =
      (ready.filterMap fun e => (t.dataOf e.1).map (·, e.2)).map
        fun x => (C.encode x.1, x.2) := by
    rw [List.map_filterMap]
    congr 1
    funext e
    rw [dataOf_encode, Option.map_map, Option.map_map]
    rfl
  rw [hset]
  refine nextEvents_encode info _ fun x hx => ?_
  obtain ⟨e, -, he⟩ := List.mem_filterMap.mp hx
  obtain ⟨u, hu, rfl⟩ := Option.map_eq_some_iff.mp he
  exact h.dataOf hu

/-- A step of the notifier with encoded user data is the encoding of a step of the plain one. -/
lemma step_encode (h : Decodable C t.interest) (a : Action φ) :
    step C (t.encode C) a = (step plain t a).map (State.encode C) := by
  cases a with
  | watch fd data keep isCancelEvent =>
    simp only [step, Option.map_some, State.encode, InterestList.map_add]
    rfl
  | unwatch fd => simp only [step, Option.map_some, State.encode, InterestList.map_del]
  | nextEvents info ready =>
    have hfire : ∀ fs : List φ, fs.foldl fire (t.interest.map (EventData.encode C)) =
        (fs.foldl fire t.interest).map (EventData.encode C) := fun fs =>
      List.foldl_hom _ fun m f => map_fire m f
    have hdel : ∀ (m : InterestList φ (EventData (Bool × Bool × BitVec 64))) (os : List (Option φ)),
        os.foldl InterestList.del (m.map (EventData.encode C)) =
          (os.foldl InterestList.del m).map (EventData.encode C) := fun m os =>
      List.foldl_hom _ fun m o => (InterestList.map_del _ m o).symm
    have hsome : ∀ f, ((t.encode C).dataOf f).isSome = (t.dataOf f).isSome := fun f => by
      rw [dataOf_encode, Option.isSome_map]
    simp only [step, nextEvents_ready h, hsome]
    split_ifs with hcond hcond' hcond'
    · simp only [State.encode, hfire, hdel, Option.map_some]
    · exact absurd hcond hcond'
    · exact absurd hcond' hcond
    · rfl

/-- Reporting an entry does not change its user data. -/
lemma Decodable.fire {m : InterestList φ (EventData (Bool × Bool × BitVec 64))}
    (h : Decodable C m) (f : φ) : Decodable C (fire m f) := by
  unfold IoNotifierEpoll.fire
  cases m f with
  | none => exact h
  | some d =>
    dsimp only
    split_ifs
    · intro g r hr
      obtain ⟨r', hr', hdata⟩ := InterestList.of_disable hr
      exact hdata ▸ h g r' hr'
    · exact h

/-- Unwatching a descriptor does not change the user data of the others. -/
lemma Decodable.del {m : InterestList φ (EventData (Bool × Bool × BitVec 64))}
    (h : Decodable C m) (o : Option φ) : Decodable C (m.del o) :=
  fun g r hr => h g r (InterestList.of_del hr).1

/-- A call whose registration can be decoded leaves only entries that can. -/
lemma Decodable.step (h : Decodable C t.interest) {a : Action φ} (ha : a.Faithful C)
    (hstep : IoNotifierEpoll.step plain t a = some t') : Decodable C t'.interest := by
  cases a with
  | watch fd data keep isCancelEvent =>
    cases hstep
    intro f r hr
    rcases InterestList.of_add hr with hold | ⟨-, hnew⟩
    · exact h f r hold
    · rw [hnew]
      exact ha
  | unwatch fd =>
    cases hstep
    exact h.del (some fd)
  | nextEvents info ready =>
    simp only [IoNotifierEpoll.step] at hstep
    split_ifs at hstep
    cases hstep
    have hfired : Decodable C ((ready.map Prod.fst).foldl IoNotifierEpoll.fire t.interest) :=
      List.foldlRecOn (motive := Decodable C) _ _ h fun m hm f _ => hm.fire f
    exact List.foldlRecOn (motive := Decodable C) _ _ hfired fun m hm o _ => hm.del o

/-- In every run whose registrations can be decoded, the notifier with encoded user data is in the
encoding of the state of the plain one. -/
lemma run_encode {l : List (Action φ)} (hl : ∀ a ∈ l, a.Faithful C) (h : Decodable C t.interest) :
    (machine φ C).run (t.encode C) l = ((machine φ plain).run t l).map (State.encode C) := by
  induction l generalizing t with
  | nil => rfl
  | cons a l ih =>
    obtain ⟨ha, hl⟩ := List.forall_mem_cons.mp hl
    have hstep : (machine φ C).step (t.encode C) a =
        ((machine φ plain).step t a).map (State.encode C) := step_encode h a
    cases ht : (machine φ plain).step t a with
    | none =>
      rw [ht] at hstep
      simp [Machine.run, Machine.runUnder, hstep, ht]
    | some t' =>
      have hrest := ih hl (h.step ha ht)
      rw [ht] at hstep
      simpa [Machine.run, Machine.runUnder, hstep, ht] using hrest

end Refinement

section Polls

open Scheduler

variable {π : Type*} (addr : π → BitVec 64) (info : BitVec 64 → PollInfo φ)

/-- The report of an event of a poll whose `poll_info` is at `addr`. -/
def pollReport (s : Poll.State π φ) : Poll.Event π → Option (Report φ)
  | .timer => none
  | .poll p status => some ⟨addr p, status, s.unwatchedBy (.poll p status)⟩

omit [DecidableEq φ] in
/-- For an enabled entry of a poll at an address of 48 bits, the loop of `next_events` over words
reports the event that the model of the polls has for it, and unwatches the same descriptor. -/
theorem reportEvent_eq_event {s : Poll.State π φ} (hinfo : ∀ p, info (addr p) = s.info p) {f : φ}
    {r : Registration (Poll.UserData π)} (hr : s.interest f = some r) (hen : r.enabled = true)
    (hfits : (addr r.data.poll).toNat < 2 ^ 48) (events : EpollEvents) :
    reportEvent info
        (decodeUdata (encodeUdata false r.data.isCancelEvent (addr r.data.poll))) events =
      (s.event (.fd f events)).bind (pollReport addr s) := by
  rw [(round_trip_iff _ _ _).mpr hfits]
  simp only [reportEvent, Poll.State.event, hr, hen, Option.bind_some, if_true]
  cases hcancel : r.data.isCancelEvent with
  | true => simp [pollReport, Poll.State.unwatchedBy, hinfo]
  | false =>
    cases hstatus : eventToPollStatus events with
    | none => simp
    | some status =>
      cases status with
      | cancelled => exact absurd rfl (Poll.ne_timeout_ne_cancelled_of_event hstatus).2
      | _ => simp [pollReport, Poll.State.unwatchedBy, hinfo]

end Polls

/-- The address of a registration fits into 48 bits. -/
def Action.Fits : Action φ → Prop
  | .watch _ data _ _ => data.toNat < 2 ^ 48
  | _ => True

omit [DecidableEq φ] in
/-- Such a registration comes back as it was given. -/
lemma Action.Fits.faithful {a : Action φ} (h : a.Fits) : a.Faithful words := by
  cases a with
  | watch fd data keep isCancelEvent => exact (round_trip_iff keep isCancelEvent data).mpr h
  | _ => trivial

/-- For all flags and every address whose two top bits are zero, `decode_udata` returns what
`encode_udata` was given exactly when the address fits into 48 bits.  Two registrations are
confused exactly when they have the same flags and their addresses agree in the low 48 bits.  In
every run of the notifier whose addresses fit into 48 bits, `next_events` reports what it would
report if the registrations were kept as they were given. -/
theorem udata_round_trip_iff :
    (∀ (keep cancel : Bool) (p : BitVec 64), p >>> 62 = 0#64 →
      (decodeUdata (encodeUdata keep cancel p) = (keep, cancel, p) ↔ p.toNat < 2 ^ 48)) ∧
    (∀ (keep cancel keep' cancel' : Bool) (p p' : BitVec 64),
      decodeUdata (encodeUdata keep cancel p) = decodeUdata (encodeUdata keep' cancel' p') ↔
        keep = keep' ∧ cancel = cancel' ∧ p.toNat % 2 ^ 48 = p'.toNat % 2 ^ 48) ∧
    ∀ l : List (Action φ), (∀ a ∈ l, a.Fits) →
      ((machine φ words).run start l).map (fun s => (s.reported, s.threw)) =
        ((machine φ plain).run start l).map fun t => (t.reported, t.threw) := by
  refine ⟨fun keep cancel p _ => round_trip_iff keep cancel p,
    fun keep cancel keep' cancel' p p' => ?_, fun l hl => ?_⟩
  · rw [decodeUdata_encodeUdata, decodeUdata_encodeUdata, Prod.mk.injEq, Prod.mk.injEq,
      BitVec.toNat_eq, toNat_and_mask, toNat_and_mask]
  · have hstart : Decodable words (start : State φ (Bool × Bool × BitVec 64)).interest :=
      fun f r hr => by simp [start, InterestList.empty] at hr
    have hrun := run_encode (fun a ha => (hl a ha).faithful) hstart
    have hencode : (start : State φ (Bool × Bool × BitVec 64)).encode words = start := rfl
    rw [hencode] at hrun
    rw [hrun, Option.map_map]
    rfl

/-- A poll with a stop token and a pipe that stays registered; the token and the pipe are ready. -/
def cancelTrace (p q : BitVec 64) : List (Action ℕ) :=
  [.watch 5 p false false, .watch 6 p false true, .watch 7 q true false,
    .nextEvents (fun _ => { mFd := some 5, mCancelTrigger := some 6 })
      [(6, { epollin := true }), (7, { epollin := true })]]

/-- Two addresses of 47 bits: the poll is reported as cancelled and the pipe as readable. -/
theorem udata_round_trip_iff_cancel :
    decodeUdata (encodeUdata false true 0x7FFF5A5A1000#64) = (false, true, 0x7FFF5A5A1000#64) ∧
    ((machine ℕ words).run start (cancelTrace 0x7FFF5A5A1000#64 0x55550000A0C8#64)).map
        (fun s => (s.reported, s.threw)) =
      some ([⟨0x7FFF5A5A1000#64, .cancelled, some 5⟩,
        ⟨0x55550000A0C8#64, .read, none⟩], false) := by
  obtain ⟨hround, -, hrun⟩ := udata_round_trip_iff (φ := ℕ)
  refine ⟨(hround false true 0x7FFF5A5A1000#64 (by decide)).mpr (by decide), ?_⟩
  rw [hrun _ (by simp [cancelTrace, Action.Fits])]
  rfl

/-- An address of 49 bits loses its top bit, and two polls are reported as one. -/
theorem udata_confused :
    0x1000000001000#64 >>> 62 = 0#64 ∧
    decodeUdata (encodeUdata false false 0x1000000001000#64) = (false, false, 0x1000#64) ∧
    decodeUdata (encodeUdata false false 0x1000000001000#64) ≠
      (false, false, 0x1000000001000#64) ∧
    ((machine ℕ words).run start
        [.watch 5 0x1000000001000#64 false false, .watch 6 0x1000#64 false false,
          .nextEvents (fun _ => {}) [(5, { epollin := true }), (6, { epollout := true })]]).map
        (fun s => s.reported.map Report.pi) = some [0x1000#64, 0x1000#64] ∧
    ((machine ℕ plain).run start
        [.watch 5 0x1000000001000#64 false false, .watch 6 0x1000#64 false false,
          .nextEvents (fun _ => {}) [(5, { epollin := true }), (6, { epollout := true })]]).map
        (fun s => s.reported.map Report.pi) = some [0x1000000001000#64, 0x1000#64] :=
  ⟨by decide, by decide, by decide, rfl, rfl⟩

end Libcoro.IoNotifierEpoll
