import Libcoro.Net.ReadExact

/-!
# The spans of elements that a read returns

`read_some` and `read_exact` accept a buffer of any trivial element type.  They read into its bytes,
and they return a span of elements: the pointer is that of the span of bytes, and so is the size.
For elements of more than one byte the span is longer than what was read, and it may end behind the
buffer.
-/

namespace Libcoro.Net.Tcp

open Foundations

/-- The caller's buffer: `count` elements of `elementSize` bytes. -/
structure ElementBuffer where
  elementSize : ℕ
  count : ℕ
  bytes : List UInt8
  pos : 0 < elementSize
  size : bytes.length = count * elementSize

/-- A `std::span<element_type>`: the position of its first byte and its number of elements. -/
structure ElementSpan where
  offset : ℕ
  count : ℕ
  deriving DecidableEq, Repr

/-- `std::span<element_type>{reinterpret_cast<element_type*>(buf.data()), buf.size()}`. -/
def ElementSpan.ofBytes (buf : Span) : ElementSpan :=
  ⟨buf.offset, buf.size⟩

/-- The bytes of a span of elements of `elementSize` bytes. -/
def ElementSpan.bytes (span : ElementSpan) (elementSize : ℕ) (memory : List UInt8) : List UInt8 :=
  (memory.drop span.offset).take (span.count * elementSize)

/-- A client that reads into the buffer. -/
def ElementBuffer.into (b : ElementBuffer) (isReadReady isWriteReady : Bool) : Local :=
  ⟨isReadReady, isWriteReady, b.bytes⟩

/-- `read_some`. -/
def readSomeElements (isReadReady isWriteReady : Bool) (b : ElementBuffer) (timeout : ℤ) :
    Io (Local × IoStatus × ElementSpan) :=
  if b.count = 0 then pure (b.into isReadReady isWriteReady, { type := .ok }, ⟨0, 0⟩)
  else do
    let (s, status, buf) ←
      readSomeImpl (b.into isReadReady isWriteReady) ⟨0, b.bytes.length⟩ timeout
    pure (s, status, .ofBytes buf)

/-- `read_exact`, up to `fuel` rounds of its loop. -/
def readExactElements (fuel : ℕ) (isReadReady isWriteReady : Bool) (b : ElementBuffer)
    (timeout : ℤ) : Io (Option (Local × IoStatus × ElementSpan)) :=
  if b.count = 0 then pure (some (b.into isReadReady isWriteReady, { type := .ok }, ⟨0, 0⟩))
  else do
    let result ←
      readExactImpl fuel (b.into isReadReady isWriteReady) ⟨0, b.bytes.length⟩ timeout
    pure (result.map fun (s, status, buf) => (s, status, .ofBytes buf))

variable {s : Local} {l : Log} {timeout : ℤ}

/-- The span returned by a read counts the bytes that were received, which are at the front of the
buffer. -/
structure CountsBytes (b : ElementBuffer) (l : Log) (s : Local) (span : ElementSpan) : Prop where
  fits : (received l).length ≤ b.bytes.length
  front : s.memory.take (received l).length = received l
  span_eq : span = ⟨0, (received l).length⟩

/-- The span that `recv` returns begins where the buffer does. -/
lemma recv_offset (n : ℕ) : (recv s ⟨0, n⟩).Ensures (fun _ r => r.2.2.offset = 0) l := by
  simp only [recv, Dialogue.ensures_bind, Dialogue.ensures_request, Dialogue.ensures_pure]
  intro x
  cases x <;> rfl

/-- The same for the slow path of `read_some_impl`. -/
lemma pollAndRecv_offset (n : ℕ) :
    (pollAndRecv s ⟨0, n⟩ timeout).Ensures (fun _ r => r.2.2.offset = 0) l := by
  simp only [pollAndRecv, Dialogue.ensures_bind, ensures_poll, Dialogue.ensures_ite]
  intro status
  exact ⟨fun _ => recv_offset n, fun _ => rfl⟩

/-- The same for `read_some_impl`. -/
lemma readSomeImpl_offset (n : ℕ) :
    (readSomeImpl s ⟨0, n⟩ timeout).Ensures (fun _ r => r.2.2.offset = 0) l := by
  rw [readSomeImpl, Dialogue.ensures_ite]
  refine ⟨fun _ => ?_, fun _ => pollAndRecv_offset n⟩
  rw [Dialogue.ensures_bind]
  refine (recv_offset n).mono fun l₁ r hr => ?_
  obtain ⟨s₁, status, read⟩ := r
  simp only [Dialogue.ensures_ite, Dialogue.ensures_pure]
  exact ⟨fun _ => pollAndRecv_offset n, fun _ => hr⟩

/-- `read_some` counts bytes. -/
lemma readSomeElements_ensures (isReadReady isWriteReady : Bool) (b : ElementBuffer) :
    (readSomeElements isReadReady isWriteReady b timeout).Ensures
      (fun l r => CountsBytes b l r.1 r.2.2) [] := by
  rw [readSomeElements, Dialogue.ensures_ite]
  constructor
  · intro _
    exact ⟨Nat.zero_le _, List.take_zero, rfl⟩
  · intro hcount
    have hpos : (received []).length < b.bytes.length := by
      rw [b.size]
      exact Nat.mul_pos (Nat.pos_of_ne_zero hcount) b.pos
    have hfill : Filling b.bytes.length timeout (b.into isReadReady isWriteReady).memory [] :=
      ⟨always_nil, Nat.zero_le _, rfl, List.take_zero⟩
    have htimeout : 0 < timeout → 1 ≤ timeout ∧ timeout ≤ timeout - elapsed [] := by
      intro htimeout
      simp only [elapsed, readings, durationMs, List.filterMap_nil, List.headD_nil,
        List.getLastD_nil, sub_self, Int.zero_tdiv, sub_zero, le_refl, and_true]
      omega
    have hread := readSomeImpl_ensures hfill hpos htimeout
    rw [Dialogue.ensures_bind]
    refine (hread.and (readSomeImpl_offset b.bytes.length)).mono fun l₁ r hr => ?_
    obtain ⟨s₁, status, buf⟩ := r
    obtain ⟨hreads, hoffset⟩ := hr
    refine ⟨hreads.filling.fits, hreads.filling.filled, ?_⟩
    have hgrown := hreads.grown
    simp only [received, List.flatMap_nil, List.length_nil, Nat.zero_add] at hgrown
    simp only [ElementSpan.ofBytes, received, hgrown]
    congr 1

/-- `read_exact` counts bytes. -/
lemma readExactElements_ensures (fuel : ℕ) (isReadReady isWriteReady : Bool) (b : ElementBuffer) :
    (readExactElements fuel isReadReady isWriteReady b timeout).Ensures
      (fun l r => ∀ x ∈ r, CountsBytes b l x.1 x.2.2) [] := by
  rw [readExactElements, Dialogue.ensures_ite]
  constructor
  · rintro _ x ⟨⟩
    exact ⟨Nat.zero_le _, List.take_zero, rfl⟩
  · intro hcount
    have hne : (b.into isReadReady isWriteReady).memory ≠ [] := by
      have hpos := Nat.mul_pos (Nat.pos_of_ne_zero hcount) b.pos
      rw [← b.size] at hpos
      exact List.ne_nil_of_length_pos hpos
    have hexact := readExact_ensures fuel (b.into isReadReady isWriteReady) timeout
    rw [readExact, if_neg hne] at hexact
    rw [Dialogue.ensures_bind]
    refine hexact.mono fun l₁ r hr => ?_
    obtain ⟨-, hfits, -, hdone⟩ := hr
    rw [Dialogue.ensures_pure]
    intro x hx
    obtain ⟨⟨s₁, status, buf⟩, hr', rfl⟩ := Option.map_eq_some_iff.mp hx
    obtain ⟨hfill, rfl, -⟩ := hdone _ hr'
    exact ⟨hfits, hfill.filled, rfl⟩

/-- What a read owes to its caller: a span with at most as many elements as the buffer, which covers
the bytes received if they make up whole elements. -/
def RightSpan (b : ElementBuffer) (l : Log) (s : Local) (span : ElementSpan) : Prop :=
  span.count ≤ b.count ∧ (b.elementSize ∣ (received l).length →
    span.count * b.elementSize = (received l).length ∧
      span.bytes b.elementSize s.memory = received l)

/-- A span that counts bytes is right if the elements are bytes, or if there are none. -/
lemma CountsBytes.right {b : ElementBuffer} {span : ElementSpan} (h : CountsBytes b l s span)
    (hb : b.elementSize = 1 ∨ b.count = 0) : RightSpan b l s span := by
  obtain ⟨hfits, hfront, rfl⟩ := h
  have hsize := b.size
  rcases hb with hone | hnone
  · rw [hone, Nat.mul_one] at hsize
    refine ⟨hsize ▸ hfits, fun _ => ⟨by rw [hone, Nat.mul_one], ?_⟩⟩
    rw [ElementSpan.bytes, hone, Nat.mul_one, List.drop_zero, hfront]
  · rw [hsize, hnone, Nat.zero_mul, Nat.le_zero, List.length_eq_zero_iff] at hfits
    simp [RightSpan, ElementSpan.bytes, hfits]

/-- The bytes of one element arrive. -/
def elementScript (b : ElementBuffer) : Log → (r : Request) → Answer r :=
  scripted (fun _ => 0) (fun _ => .read) (fun _ => .ok (List.replicate b.elementSize 7))
    (fun _ => .error 0)

/-- When one element arrives, `read_some` returns as many elements as that one has bytes. -/
lemma readSomeElements_elementScript {b : ElementBuffer} (hcount : b.count ≠ 0) :
    ∃ log s status, (readSomeElements true true b 0).play (elementScript b) [] =
      (log, s, status, ⟨0, b.elementSize⟩) ∧ (received log).length = b.elementSize := by
  have hroom : 0 < (List.replicate b.elementSize (7 : UInt8)).length ∧
      (List.replicate b.elementSize (7 : UInt8)).length ≤ b.bytes.length := by
    rw [List.length_replicate, b.size]
    exact ⟨b.pos, Nat.le_mul_of_pos_left _ (Nat.pos_of_ne_zero hcount)⟩
  have hanswer : elementScript b [] (.recv ⟨0, b.bytes.length⟩) =
      .data (List.replicate b.elementSize 7) hroom := dif_pos hroom
  rw [readSomeElements, if_neg hcount]
  simp only [readSomeImpl, ElementBuffer.into, recv, Dialogue.request, bind, pure, Dialogue.bind,
    Dialogue.play, if_true, hanswer]
  simp [recvResult, IoStatus.tryAgain, Dialogue.bind, Dialogue.play, ElementSpan.ofBytes,
    Span.first, received, delivery]

/-- For every buffer: whatever the initial readiness and the timeout, and whatever the kernel, the
scheduler and the clock answer, the spans that `read_some` and `read_exact` return have at most as
many elements as the buffer and cover exactly the bytes received, if and only if the elements of the
buffer are bytes or it has none. -/
theorem read_spans_stay_inside (b : ElementBuffer) :
    (∀ (env : Log → (r : Request) → Answer r) (fuel : ℕ) (isReadReady isWriteReady : Bool)
        (timeout : ℤ),
      (∀ log s status span,
        (readSomeElements isReadReady isWriteReady b timeout).play env [] =
          (log, s, status, span) → RightSpan b log s span) ∧
      ∀ log s status span,
        (readExactElements fuel isReadReady isWriteReady b timeout).play env [] =
          (log, some (s, status, span)) → RightSpan b log s span) ↔
    b.elementSize = 1 ∨ b.count = 0 := by
  constructor
  · intro hright
    refine or_iff_not_imp_right.mpr fun hcount => ?_
    -- one element arrives, and the span would have to have one element
    obtain ⟨log, s, status, hplay, hlength⟩ := readSomeElements_elementScript hcount
    obtain ⟨-, hcovers⟩ := (hright _ 0 true true 0).1 _ _ _ _ hplay
    have hsquare := (hcovers (by rw [hlength])).1
    rw [hlength] at hsquare
    exact Nat.eq_of_mul_eq_mul_left b.pos (hsquare.trans (Nat.mul_one _).symm)
  · intro hb env fuel isReadReady isWriteReady timeout
    constructor
    · intro log s status span hplay
      exact ((readSomeElements_ensures isReadReady isWriteReady b).of_play hplay).right hb
    · intro log s status span hplay
      have hcounts := (readExactElements_ensures fuel isReadReady isWriteReady b).of_play hplay
      exact (hcounts _ rfl).right hb

/-- A buffer of two elements of the given size. -/
def twoElements (k : ℕ) : ElementBuffer where
  elementSize := k + 1
  count := 2
  bytes := List.replicate (2 * (k + 1)) 0
  pos := k.succ_pos
  size := List.length_replicate

/-- Two bytes arrive at once. -/
def pairScript : Log → (r : Request) → Answer r :=
  scripted (fun k => 1000000 * k) (fun _ => .read) (fun _ => .ok [7, 8]) (fun _ => .error 0)

/-- Two bytes are read into a buffer of two bytes. -/
theorem read_spans_stay_inside_bytes : ∃ log s status span,
    (readSomeElements true true (twoElements 0) 0).play pairScript [] = (log, s, status, span) ∧
    span = ⟨0, 2⟩ ∧ span.bytes 1 s.memory = received log := by
  have hrun : ∃ log s status span,
      (readSomeElements true true (twoElements 0) 0).play pairScript [] =
        (log, s, status, span) ∧ span = ⟨0, 2⟩ := ⟨_, _, _, _, rfl, rfl⟩
  obtain ⟨log, s, status, span, hplay, hspan⟩ := hrun
  have hright := ((read_spans_stay_inside (twoElements 0)).mpr (Or.inl rfl) pairScript 1 true true
    0).1 log s status span hplay
  exact ⟨log, s, status, span, hplay, hspan, (hright.2 (Nat.one_dvd _)).2⟩

/-- Two bytes, which are one element, are read into a buffer of two elements of two bytes: the span
has two elements.  When the buffer is full the span of `read_exact` has four elements, twice as many
as the buffer. -/
theorem read_spans_count_bytes :
    (∃ log s,
      (readSomeElements true true (twoElements 1) 0).play pairScript [] =
        (log, s, { type := .ok }, ⟨0, 2⟩) ∧ received log = [7, 8]) ∧
    ∃ log s,
      (readExactElements 3 true true (twoElements 1) 0).play pairScript [] =
        (log, some (s, { type := .ok }, ⟨0, 4⟩)) ∧ received log = [7, 8, 7, 8] :=
  ⟨⟨_, _, rfl, rfl⟩, ⟨_, _, rfl, rfl⟩⟩

end Libcoro.Net.Tcp
