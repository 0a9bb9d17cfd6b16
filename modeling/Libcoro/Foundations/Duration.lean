import Mathlib

/-!
# Durations

A duration counts units of a fixed length, its period.  It counts in an integer of up to 64 bits,
with or without a sign, or in a number of floating point.  `Duration.castTo` is the conversion to
another period, with a count in a signed integer of 64 bits: it multiplies by the numerator of the
ratio of the two periods and divides by its denominator, in the arithmetic of the representation.
An integer product may leave the range of 64 bits, an integer division drops a remainder, and an
operation of floating point rounds.  `Duration.Exact` says when nothing of this matters
(`Duration.castTo_eq_iff`).
-/

namespace Foundations

/-! ## Numbers -/

/-- What is left of a number in 64 bits. -/
def wrap64 (x : ℤ) : ℤ :=
  (x + 9223372036854775808) % 18446744073709551616 - 9223372036854775808

/-- The number fits into 64 bits. -/
def Fits64 (x : ℤ) : Prop :=
  -9223372036854775808 ≤ x ∧ x < 9223372036854775808

instance (x : ℤ) : Decidable (Fits64 x) :=
  inferInstanceAs (Decidable (_ ∧ _))

/-- A number that fits is kept. -/
lemma wrap64_of_fits {x : ℤ} (h : Fits64 x) : wrap64 x = x := by
  unfold Fits64 at h
  unfold wrap64
  omega

/-- Something that fits is left of every number. -/
lemma fits_wrap64 (x : ℤ) : Fits64 (wrap64 x) := by
  unfold Fits64 wrap64
  omega

/-- A quotient of a number that fits does so as well. -/
lemma Fits64.tdiv {x : ℤ} (h : Fits64 x) (n : ℕ) : Fits64 (x.tdiv n) := by
  have habs : (x.tdiv n).natAbs ≤ x.natAbs := by
    rw [Int.natAbs_tdiv]
    exact Nat.div_le_self _ _
  have hsign : 0 ≤ x → 0 ≤ x.tdiv n := fun hx => Int.tdiv_nonneg hx (Int.natCast_nonneg _)
  have hsign' : x ≤ 0 → x.tdiv n ≤ 0 := fun hx => by
    rw [← neg_nonneg, ← Int.neg_tdiv]
    exact Int.tdiv_nonneg (neg_nonneg.mpr hx) (Int.natCast_nonneg _)
  unfold Fits64 at *
  omega

/-- What is left of a number in 64 bits without a sign. -/
def wrapUnsigned (x : ℤ) : ℤ :=
  x % 18446744073709551616

/-- The number fits into 64 bits without a sign. -/
def FitsUnsigned (x : ℤ) : Prop :=
  0 ≤ x ∧ x < 18446744073709551616

instance (x : ℤ) : Decidable (FitsUnsigned x) :=
  inferInstanceAs (Decidable (_ ∧ _))

/-- A binary format: the number of bits of the significand, and the exponent of the last bit of the
smallest numbers. -/
structure FloatFormat where
  precision : ℕ
  minExponent : ℤ

/-- The nearest integer, which is the even one if there are two. -/
def roundEven (x : ℚ) : ℤ :=
  if x - ⌊x⌋ < 1 / 2 ∨ x - ⌊x⌋ = 1 / 2 ∧ ⌊x⌋ % 2 = 0 then ⌊x⌋ else ⌊x⌋ + 1

namespace FloatFormat

/-- The format of `double`. -/
def double : FloatFormat := ⟨53, -1074⟩

/-- The number of the format that is nearest to `x`, as if there were no largest one. -/
def round (F : FloatFormat) (x : ℚ) : ℚ :=
  let e := max (Int.log 2 |x| + 1 - F.precision) F.minExponent
  roundEven (x / 2 ^ e) * 2 ^ e

end FloatFormat

/-- The conversion of a number to an integer drops what comes after the point. -/
def truncate (x : ℚ) : ℤ :=
  x.num.tdiv x.den

/-- The conversion to an integer of 64 bits.  Outside of their range it is not defined, and the
processor gives the least of them. -/
def toInt64 (x : ℚ) : ℤ :=
  if Fits64 (truncate x) then truncate x else -9223372036854775808

/-! ## Periods -/

/-- The length of a unit, `num / den` seconds. -/
structure Period where
  num : ℕ
  den : ℕ
  num_pos : 0 < num
  den_pos : 0 < den

namespace Period

/-- Nanoseconds. -/
def nano : Period := ⟨1, 1000000000, by decide, by decide⟩

/-- Milliseconds. -/
def milli : Period := ⟨1, 1000, by decide, by decide⟩

/-- Seconds. -/
def second : Period := ⟨1, 1, by decide, by decide⟩

variable (p q : Period)

/-- The length of `p` in units of `q`. -/
def ratio : ℚ :=
  (p.num / p.den) * (q.den / q.num)

/-- The numerator of the length of `p` in units of `q`, before the fraction is reduced. -/
def rawNum : ℕ :=
  p.num * q.den

/-- The denominator of the length of `p` in units of `q`, before the fraction is reduced. -/
def rawDen : ℕ :=
  p.den * q.num

/-- The numerator of the length of `p` in units of `q`. -/
def ratioNum : ℕ :=
  rawNum p q / Nat.gcd (rawNum p q) (rawDen p q)

/-- The denominator of the length of `p` in units of `q`. -/
def ratioDen : ℕ :=
  rawDen p q / Nat.gcd (rawNum p q) (rawDen p q)

/-- A number of units of `p`, converted to units of `q` by integers that keep `wrap x` of a result
`x`. -/
def castIn (wrap : ℤ → ℤ) (count : ℤ) : ℤ :=
  if ratioDen p q = 1 then wrap (count * ratioNum p q)
  else if ratioNum p q = 1 then count.tdiv (ratioDen p q)
  else (wrap (count * ratioNum p q)).tdiv (ratioDen p q)

/-- A number of units of `p`, converted to units of `q` in 64 bits. -/
def cast (count : ℤ) : ℤ :=
  castIn p q wrap64 count

/-- A number of units of `p`, converted to units of `q` in a format of floating point. -/
def castFloat (F : FloatFormat) (count : ℚ) : ℚ :=
  if ratioDen p q = 1 then F.round (count * F.round (ratioNum p q))
  else if ratioNum p q = 1 then F.round (count / F.round (ratioDen p q))
  else F.round (F.round (count * F.round (ratioNum p q)) / F.round (ratioDen p q))

/-- The denominator is positive. -/
lemma rawDen_pos : 0 < rawDen p q :=
  Nat.mul_pos p.den_pos q.num_pos

/-- The numerator is positive. -/
lemma rawNum_pos : 0 < rawNum p q :=
  Nat.mul_pos p.num_pos q.den_pos

/-- The reduced denominator is positive. -/
lemma ratioDen_pos : 0 < ratioDen p q :=
  Nat.div_pos (Nat.gcd_le_right _ (rawDen_pos p q)) (Nat.gcd_pos_of_pos_right _ (rawDen_pos p q))

/-- The reduced numerator is positive. -/
lemma ratioNum_pos : 0 < ratioNum p q :=
  Nat.div_pos (Nat.gcd_le_left _ (rawNum_pos p q)) (Nat.gcd_pos_of_pos_right _ (rawDen_pos p q))

/-- The reduced fraction is the length of `p` in units of `q`. -/
lemma ratio_eq : ratio p q = ratioNum p q / ratioDen p q := by
  have hg : ((Nat.gcd (rawNum p q) (rawDen p q) : ℕ) : ℚ) ≠ 0 := by
    exact_mod_cast (Nat.gcd_pos_of_pos_right _ (rawDen_pos p q)).ne'
  have hnum : (ratioNum p q : ℚ) * (Nat.gcd (rawNum p q) (rawDen p q) : ℕ) = p.num * q.den := by
    exact_mod_cast Nat.div_mul_cancel (Nat.gcd_dvd_left (rawNum p q) (rawDen p q))
  have hden : (ratioDen p q : ℚ) * (Nat.gcd (rawNum p q) (rawDen p q) : ℕ) = p.den * q.num := by
    exact_mod_cast Nat.div_mul_cancel (Nat.gcd_dvd_right (rawNum p q) (rawDen p q))
  rw [ratio, ← mul_div_mul_comm, ← hnum, ← hden, mul_div_mul_right _ _ hg]

/-- A length is positive. -/
lemma ratio_pos : 0 < ratio p q := by
  have hnum : (0 : ℚ) < ratioNum p q := by exact_mod_cast ratioNum_pos p q
  have hden : (0 : ℚ) < ratioDen p q := by exact_mod_cast ratioDen_pos p q
  rw [ratio_eq]
  exact div_pos hnum hden

variable {p q} {wrap : ℤ → ℤ} {count : ℤ}

/-- Of a positive count, a conversion keeps the length if and only if the division leaves no
remainder and the product is kept.  It is enough to know that no number becomes larger. -/
lemma castIn_mul_ratioDen_iff (hle : ∀ x, 0 ≤ x → wrap x ≤ x) (hself : wrap count = count)
    (hpos : 0 < count) :
    castIn p q wrap count * ratioDen p q = count * ratioNum p q ↔
      (ratioDen p q : ℤ) ∣ count * ratioNum p q ∧
        wrap (count * ratioNum p q) = count * ratioNum p q := by
  have hden : (0 : ℤ) < ratioDen p q := by exact_mod_cast ratioDen_pos p q
  have hprod : 0 < count * ratioNum p q :=
    mul_pos hpos (by exact_mod_cast ratioNum_pos p q)
  unfold castIn
  split_ifs with hone hunit
  · simp [hone]
  · rw [hunit, Nat.cast_one, mul_one]
    exact ⟨fun h => ⟨Dvd.intro_left _ h, hself⟩, fun h => Int.tdiv_mul_cancel h.1⟩
  · constructor
    · intro h
      refine ⟨Dvd.intro_left _ h, le_antisymm (hle _ hprod.le) ?_⟩
      rcases lt_or_ge (wrap (count * ratioNum p q)) 0 with hneg | hnonneg
      · have hquot : (wrap (count * ratioNum p q)).tdiv (ratioDen p q) ≤ 0 := by
          rw [← neg_nonneg, ← Int.neg_tdiv]
          exact Int.tdiv_nonneg (neg_nonneg.mpr hneg.le) hden.le
        have := mul_nonpos_of_nonpos_of_nonneg hquot hden.le
        omega
      · rw [Int.tdiv_eq_ediv_of_nonneg hnonneg] at h
        exact h.symm.trans_le (Int.ediv_mul_le _ hden.ne')
    · rintro ⟨hdvd, hkept⟩
      rw [hkept, Int.tdiv_mul_cancel hdvd]

end Period

/-! ## Durations -/

/-- A duration with the period `p`, whose count is one that its representation holds. -/
inductive Duration where
  | signed (p : Period) (count : ℤ) (fits : Fits64 count)
  | unsigned (p : Period) (count : ℤ) (fits : FitsUnsigned count)
  | floating (F : FloatFormat) (p : Period) (count : ℚ) (held : F.round count = count)

namespace Duration

variable (q : Period)

/-- The length of a duration in units of `q`. -/
def lengthIn : Duration → ℚ
  | .signed p count _ => count * Period.ratio p q
  | .unsigned p count _ => count * Period.ratio p q
  | .floating _ p count _ => count * Period.ratio p q

/-- `std::chrono::duration_cast` to a duration with the period `q` and a count of 64 bits. -/
def castTo : Duration → ℤ
  | .signed p count _ => Period.cast p q count
  | .unsigned p count _ => wrap64 (Period.castIn p q wrapUnsigned count)
  | .floating F p count _ => toInt64 (Period.castFloat p q F count)

/-- The conversion to units of `q` loses nothing: for integers, the division leaves no remainder and
the product stays inside of 64 bits; for floating point, the roundings and what is dropped after the
point leave the length as it is. -/
def Exact : Duration → Prop
  | .signed p count _ => (Period.ratioDen p q : ℤ) ∣ count * Period.ratioNum p q ∧
      Fits64 (count * Period.ratioNum p q)
  | .unsigned p count _ => (Period.ratioDen p q : ℤ) ∣ count * Period.ratioNum p q ∧
      FitsUnsigned (count * Period.ratioNum p q)
  | .floating F p count _ =>
    (truncate (Period.castFloat p q F count) : ℚ) = count * Period.ratio p q

instance (d : Duration) : Decidable (d.Exact q) := by
  unfold Exact
  split <;> infer_instance

variable {q}

/-- A number of units of `q` is the length of a count of `p` if it is so without fractions. -/
lemma eq_mul_ratio_iff {p : Period} {x count : ℤ} :
    (x : ℚ) = count * Period.ratio p q ↔
      x * Period.ratioDen p q = count * Period.ratioNum p q := by
  have hden : (Period.ratioDen p q : ℚ) ≠ 0 := by exact_mod_cast (Period.ratioDen_pos p q).ne'
  rw [Period.ratio_eq, ← mul_div_assoc, eq_div_iff hden]
  exact_mod_cast Iff.rfl

/-- The converted count has 64 bits. -/
lemma castTo_fits (d : Duration) : Fits64 (d.castTo q) := by
  cases d with
  | signed p count fits =>
    simp only [castTo, Period.cast, Period.castIn]
    split_ifs
    · exact fits_wrap64 _
    · exact fits.tdiv _
    · exact (fits_wrap64 _).tdiv _
  | unsigned p count fits => exact fits_wrap64 _
  | floating F p count held =>
    simp only [castTo, toInt64]
    split_ifs with h
    · exact h
    · decide

/-- The count of a positive duration is positive. -/
lemma count_pos {p : Period} {count : ℚ} (h : 0 < count * Period.ratio p q) : 0 < count :=
  pos_of_mul_pos_left h (Period.ratio_pos p q).le

/-- A conversion without a sign stays in the range of 64 bits without a sign. -/
lemma castIn_wrapUnsigned_fits {p : Period} {count : ℤ} (h : FitsUnsigned count) :
    FitsUnsigned (Period.castIn p q wrapUnsigned count) := by
  have hwrap : ∀ x, FitsUnsigned (wrapUnsigned x) := by
    intro x
    unfold FitsUnsigned wrapUnsigned
    omega
  have hquot : ∀ x, FitsUnsigned x → FitsUnsigned (x.tdiv (Period.ratioDen p q)) := by
    intro x hx
    rw [Int.tdiv_eq_ediv_of_nonneg hx.1]
    exact ⟨Int.ediv_nonneg hx.1 (Int.natCast_nonneg _),
      (Int.ediv_le_self _ hx.1).trans_lt hx.2⟩
  unfold Period.castIn
  split_ifs
  · exact hwrap _
  · exact hquot _ h
  · exact hquot _ (hwrap _)

/-- A positive duration whose length in units of `q` has 64 bits is converted to this length if and
only if the conversion is exact. -/
theorem castTo_eq_iff {d : Duration} (hpos : 0 < d.lengthIn q)
    (hlt : d.lengthIn q < 9223372036854775808) :
    (d.castTo q : ℚ) = d.lengthIn q ↔ d.Exact q := by
  cases d with
  | signed p count fits =>
    have hcount : 0 < count := by exact_mod_cast count_pos hpos
    have hfits : ∀ x, wrap64 x = x ↔ Fits64 x :=
      fun x => ⟨fun h => h ▸ fits_wrap64 x, wrap64_of_fits⟩
    have hle : ∀ x, 0 ≤ x → wrap64 x ≤ x := by
      intro x hx
      unfold wrap64
      omega
    simp only [castTo, lengthIn, Exact, Period.cast]
    rw [eq_mul_ratio_iff, Period.castIn_mul_ratioDen_iff hle (wrap64_of_fits fits) hcount, hfits]
  | unsigned p count fits =>
    have hcount : 0 < count := by exact_mod_cast count_pos hpos
    have hfits : ∀ x, 0 < x → (wrapUnsigned x = x ↔ FitsUnsigned x) := by
      intro x hx
      unfold wrapUnsigned FitsUnsigned
      omega
    have hle : ∀ x, 0 ≤ x → wrapUnsigned x ≤ x := by
      intro x hx
      unfold wrapUnsigned
      omega
    have hself : wrapUnsigned count = count := (hfits _ hcount).mpr fits
    have hprod : 0 < count * (Period.ratioNum p q : ℤ) :=
      mul_pos hcount (by exact_mod_cast Period.ratioNum_pos p q)
    -- the last conversion, to a signed integer, keeps a number that has 64 bits
    have hlast : (wrap64 (Period.castIn p q wrapUnsigned count) : ℚ) = count * Period.ratio p q ↔
        (Period.castIn p q wrapUnsigned count : ℚ) = count * Period.ratio p q := by
      obtain ⟨hnonneg, hbound⟩ := castIn_wrapUnsigned_fits (p := p) (q := q) fits
      simp only [lengthIn] at hpos hlt
      constructor
      · intro h
        rw [← h] at hpos ⊢
        have hpos' : 0 < wrap64 (Period.castIn p q wrapUnsigned count) := by exact_mod_cast hpos
        unfold wrap64 at hpos' ⊢
        congr 1
        omega
      · intro h
        rw [← h] at hlt
        have hlt' : Period.castIn p q wrapUnsigned count < 9223372036854775808 := by
          exact_mod_cast hlt
        rw [wrap64_of_fits ⟨by omega, hlt'⟩, h]
    simp only [castTo, lengthIn, Exact]
    rw [hlast, eq_mul_ratio_iff, Period.castIn_mul_ratioDen_iff hle hself hcount, hfits _ hprod]
  | floating F p count held =>
    simp only [castTo, lengthIn, Exact, toInt64] at hpos hlt ⊢
    split_ifs with hfits
    · exact Iff.rfl
    · -- a conversion that is not defined is not exact, since the length has 64 bits
      refine iff_of_false (fun h => ?_) (fun h => hfits ?_)
      · rw [← h] at hpos
        norm_num at hpos
      · rw [← h] at hpos hlt
        have hpos' : 0 < truncate (Period.castFloat p q F count) := by exact_mod_cast hpos
        exact ⟨by omega, by exact_mod_cast hlt⟩

end Duration

end Foundations
