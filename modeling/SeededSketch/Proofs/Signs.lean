import SeededSketch.Number.Arithmetic
import SeededSketch.Proofs.Comparison

/-!
# Signs of doubles

A double has a sign bit, also where it is a zero or an infinity.  Here are the operations that turn
on it: negating changes the bit (`toNat_toBits_neg`), and a quotient by zero is an infinity whose
sign is that of both its sides (`toBits_div_zero`).

The arithmetic of sketches asks for a divisor of zero first and makes the infinity by hand.
`Number.realDivision_eq` says that what it does is the division of doubles, in every bit.  And an
integer is negated like its double (`Number.toReal_neg`), with one exception: there is no minus
zero among the integers.
-/

namespace SeededSketch

namespace Double

open Float.Model (UnpackedFloat)
open Float.Model.UnpackedFloat

variable {v w : ℚ} {x y : Float} {negative : Bool}

/-! ## The sign bit -/

theorem isNegative_of_finite {m : ℕ} {e : ℤ} (h : reading x = .finite negative m e) :
    isNegative x = negative := by
  rw [reading, Format.read] at h
  split at h
  · split at h <;> cases h
  · split at h <;> cases h <;> rfl

theorem isNegative_of_infinite (h : reading x = .infinite negative) : isNegative x = negative := by
  rw [reading, Format.read] at h
  split at h
  · split at h <;> cases h
    rfl
  · split at h <;> cases h

theorem isNegative_of_pos (h : value? x = some v) (hv : 0 < v) : isNegative x = false := by
  obtain ⟨negative, m, e, hread, rfl⟩ := reading_of_value? h
  rw [isNegative_of_finite hread]
  cases negative with
  | false => rfl
  | true => exact absurd hv (not_lt.mpr (neg_nonpos.mpr (units_nonneg m e)))

theorem reading_eq_readingOf (x : Float) :
    reading x = readingOf (UnpackedFloat.unpack .binary64 x.toBits.toBitVec) := read_eq_readingOf _

/-! ## The other sign -/

/-- Negating changes the sign bit of a word, unless the word denotes no number. -/
theorem toNat_pack_neg (b : BitVec Float.Model.Format.binary64.numBits)
    (h : Format.binary64.read b.toNat ≠ .nan) :
    (UnpackedFloat.pack .binary64 (UnpackedFloat.unpack .binary64 b).neg).toNat =
      if b.toNat < 2 ^ 63 then 2 ^ 63 + b.toNat else b.toNat - 2 ^ 63 := by
  have hfields : unpackExponent b = -1#_ → unpackMantissa b = 0#_ := by
    intro hexponent
    by_contra hmantissa
    refine h ?_
    rw [read_eq_readingOf, UnpackedFloat.unpack, if_pos hexponent, if_neg hmantissa, readingOf]
  have hsign (s : BitVec 1) :
      (-(UnpackedFloat.Sign.ofBitVec s)).toBitVec.toNat = 1 - s.toNat := by
    revert s
    decide
  have hlt : b.toNat < 2 ^ 64 := b.isLt
  rw [pack_neg_unpack b hfields, toNat_packComponents, hsign, toNat_unpackSign,
    toNat_unpackExponent, toNat_unpackMantissa]
  split <;> omega

theorem toNat_toBits_neg (h : reading x ≠ .nan) : (-x).toBits.toNat =
    if x.toBits.toNat < 2 ^ 63 then 2 ^ 63 + x.toBits.toNat else x.toBits.toNat - 2 ^ 63 :=
  toNat_pack_neg x.toBits.toBitVec h

theorem isInf_neg (x : Float) : (-x).isInf = x.isInf := by
  have hneg : (-x).isInf = (UnpackedFloat.unpack .binary64 (UnpackedFloat.pack .binary64
      (UnpackedFloat.unpack .binary64 x.toBits.toBitVec).neg)).isInf := rfl
  have hx : x.isInf = (UnpackedFloat.unpack .binary64 x.toBits.toBitVec).isInf := rfl
  rw [hneg, hx, unpack_pack_neg]
  cases UnpackedFloat.unpack .binary64 x.toBits.toBitVec <;> rfl

theorem reading_ofRatio_ne_nan (negative : Bool) (num den : ℕ) :
    reading (ofRatio negative num den) ≠ .nan := by
  rw [reading, toNat_toBits_ofRatio, Format.roundSigned_eq]
  rcases (Format.round_le_infinity .binary64 num den).lt_or_eq with h | h
  · rw [Format.read_eq negative h]
    exact Reading.noConfusion
  · rw [h, Format.read_infinity]
    exact Reading.noConfusion

theorem ofRatio_not (negative : Bool) (num den : ℕ) :
    ofRatio (!negative) num den = -ofRatio negative num den := by
  have hround : Format.binary64.round num den < 2 ^ 63 :=
    (Format.round_le_infinity ..).trans_lt (by decide)
  have hsign : Format.binary64.signBit = 2 ^ 63 := rfl
  rw [← Float.toBits_inj, ← UInt64.toNat_inj, toNat_toBits_neg (reading_ofRatio_ne_nan _ _ _),
    toNat_toBits_ofRatio, toNat_toBits_ofRatio, Format.roundSigned, Format.roundSigned, hsign]
  cases negative with
  | false =>
      rw [Bool.not_false, if_pos rfl, if_neg Bool.false_ne_true, Nat.zero_add, if_pos hround]
  | true =>
      rw [Bool.not_true, if_neg Bool.false_ne_true, if_pos rfl, Nat.zero_add, if_neg (by omega),
        Nat.add_sub_cancel_left]

/-! ## Zero -/

theorem beq_def (x y : Float) : (x == y) = (UnpackedFloat.unpack .binary64 x.toBits.toBitVec).beq
    (UnpackedFloat.unpack .binary64 y.toBits.toBitVec) := rfl

/-- Doubles that denote the same number are equal, though the words of two zeros may differ. -/
theorem beq_of_value? (hx : value? x = some v) (hy : value? y = some v) : (x == y) = true := by
  rw [beq_def, UnpackedFloat.beq, compare_of_value? hx hy, compare_eq_iff_eq.mpr rfl]
  rfl

/-- What equals zero is a zero of either sign. -/
theorem unpack_of_beq_zero (h : (x == 0.0) = true) :
    ∃ s, UnpackedFloat.unpack .binary64 x.toBits.toBitVec = .zero s := by
  rw [beq_def, unpack_zero] at h
  cases hu : UnpackedFloat.unpack .binary64 x.toBits.toBitVec with
  | zero s => exact ⟨s, rfl⟩
  | notANumber =>
      rw [hu] at h
      cases h
  | infinity s =>
      rw [hu] at h
      cases s <;> cases h
  | finite s m e hm =>
      rw [hu] at h
      cases s <;> cases h

theorem beq_zero_iff (x : Float) : (x == 0.0) = true ↔ value? x = some 0 := by
  constructor
  · intro h
    obtain ⟨s, hs⟩ := unpack_of_beq_zero h
    rw [value?, reading_eq_readingOf, hs, readingOf, valueOf, Nat.cast_zero, zero_mul]
    cases isMinus s <;> simp [signed]
  · intro h
    exact beq_of_value? h value?_zero

/-! ## Quotients by zero -/

theorem toBits_div (x y : Float) : (x / y).toBits.toBitVec = UnpackedFloat.pack .binary64
    (UnpackedFloat.div .binary64 (UnpackedFloat.unpack .binary64 x.toBits.toBitVec)
      (UnpackedFloat.unpack .binary64 y.toBits.toBitVec)) := rfl

/-- By zero, zero and what is no number give no number, and all else an infinity. -/
theorem toBits_div_zero (hy : (y == 0.0) = true) :
    (x / y).toBits = (if x == 0.0 || x.isNaN then nan
      else if isNegative x != isNegative y then -infinity else infinity).toBits := by
  obtain ⟨s, hs⟩ := unpack_of_beq_zero hy
  have hsign : isNegative y = isMinus s := by
    refine isNegative_of_finite (m := 0) (e := -1074) ?_
    rw [reading_eq_readingOf, hs, readingOf]
  have hnan : x.isNaN = (UnpackedFloat.unpack .binary64 x.toBits.toBitVec).isNaN := rfl
  have hread := reading_eq_readingOf x
  rw [← UInt64.toBitVec_inj, toBits_div, beq_def x, unpack_zero, hnan, hs, hsign]
  cases hu : UnpackedFloat.unpack .binary64 x.toBits.toBitVec with
  | notANumber => rfl
  | zero t => rfl
  | infinity t =>
      rw [hu] at hread
      rw [isNegative_of_infinite hread]
      cases t <;> cases s <;> decide +kernel
  | finite t m e hm =>
      rw [hu] at hread
      rw [isNegative_of_finite hread]
      cases t <;> cases s <;> rfl

/-- The infinity made of both signs. -/
theorem withSignOf_mul_withSignOf (x y : Float) :
    withSignOf infinity x * withSignOf 1.0 y =
      if isNegative x != isNegative y then -infinity else infinity := by
  rw [← Float.toBits_inj, withSignOf, withSignOf]
  cases isNegative x <;> cases isNegative y <;> decide +kernel

end Double

namespace Number

/-- The division that sketches use is the division of doubles. -/
theorem realDivision_eq (x y : Float) : realDivision x y = x / y := by
  rw [realDivision]
  split
  · rename_i hy
    rw [← Float.toBits_inj, Double.toBits_div_zero hy, Double.withSignOf_mul_withSignOf]
  · rfl

theorem ofWhole_neg {n : ℤ} (hn : n ≠ 0) : ofWhole (-n) = (ofWhole n).map (-·) := by
  have hsign : decide (-n < 0) = !decide (n < 0) := by
    by_cases h : n < 0 <;> simp [h] <;> omega
  rw [ofWhole, ofWhole, Double.ofInt?, Double.ofInt?, hsign, Int.natAbs_neg, Double.ofRatio_not,
    Double.isInf_neg]
  cases (Double.ofRatio (decide (n < 0)) n.natAbs 1).isInf <;> rfl

/-- A number and its double have the same negative, unless the number is the integer zero. -/
theorem toReal_neg {n : Number} (hn : n ≠ .whole 0) : n.neg.toReal = n.toReal.map (-·) := by
  cases n with
  | whole m => exact ofWhole_neg fun h => hn (congrArg whole h)
  | real x => rfl

end Number
end SeededSketch
