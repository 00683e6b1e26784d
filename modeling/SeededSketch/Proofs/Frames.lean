import SeededSketch.Scene
import SeededSketch.Proofs.Order
import SeededSketch.Proofs.RoundedArithmetic

/-!
# Frames in a span of seconds

A clock tells how many frames a span of seconds has: it multiplies by the rate, takes a small
allowance off the rounded product, and rounds up what is left.  Here this is followed for every
span that is given as a value.  A span that is not negative makes a double that is not below zero,
whatever kind of value it is (`Value.nonneg_of_toReal`); then the lowered product stays above minus
one and does not rise above the product (`exists_lowered`).  So a clock whose rate is not zero or
less counts the frames of each such span, as long as the product is finite
(`Clock.framesFor_nonneg`).
-/

namespace SeededSketch

/-! ## Spans that are not negative -/

theorem Number.whole_lt_zero (n : ℤ) : (Number.whole n).lt (.whole 0) = decide (n < 0) := by
  by_cases hneg : n < 0
  · have hcompare : compare n 0 = .lt := Int.compare_eq_lt.mpr hneg
    simp [Number.lt, Number.compare?, hcompare, hneg]
  · have hcompare : compare n 0 ≠ .lt := fun h => hneg (Int.compare_eq_lt.mp h)
    simp [Number.lt, Number.compare?, hcompare, hneg]

/-- A double compares with zero as the number with its sign. -/
theorem Number.real_lt_zero {x : Float} {negative : Bool} {m : ℕ} {e : ℤ}
    (h : Double.reading x = .finite negative m e) :
    (Number.real x).lt (.whole 0) = (negative && (ratioOf m e).1 != 0) := by
  simp only [Number.lt, Number.compare?, Number.compare?.compareWhole, h, Int.zero_mul,
    Option.map_some]
  cases negative with
  | false =>
      have hcompare : compare 0 ((ratioOf m e).1 : ℤ) ≠ .gt := fun h => by
        have hlt := Int.compare_eq_gt.mp h
        omega
      cases hc : compare 0 ((ratioOf m e).1 : ℤ) with
      | gt => exact absurd hc hcompare
      | lt => simp [hc]
      | eq => simp [hc]
  | true =>
      by_cases hzero : (ratioOf m e).1 = 0
      · simp [hzero]
      · have hcompare : compare 0 (-((ratioOf m e).1 : ℤ)) = .gt :=
          Int.compare_eq_gt.mpr (by omega)
        simp [hcompare, hzero]

/-- A double that denotes a number compares with zero as that number. -/
theorem Number.real_lt_zero_iff {x : Float} {v : ℚ} (hv : Double.value? x = some v) :
    (Number.real x).lt (.whole 0) = true ↔ v < 0 := by
  obtain ⟨negative, m, e, hread, rfl⟩ := Double.reading_of_value? hv
  have hnonneg := units_nonneg m e
  rw [Number.real_lt_zero hread]
  cases negative with
  | false => simpa [Double.signed] using hnonneg
  | true =>
      -- Of the doubles with a sign only minus zero is not below zero.
      have hzero : (m : ℚ) * 2 ^ e = 0 ↔ (ratioOf m e).1 = 0 := by
        have hden : ((ratioOf m e).2 : ℚ) ≠ 0 := by exact_mod_cast (ratioOf_den_pos m e).ne'
        rw [← ratioOf_eq, div_eq_zero_iff, or_iff_left hden, Nat.cast_eq_zero]
      rw [Bool.true_and, bne_iff_ne, ne_eq, ← hzero]
      show _ ↔ -((m : ℚ) * 2 ^ e) < 0
      rw [neg_lt_zero, hnonneg.lt_iff_ne']

/-- The double of an integer that does not compare as less than zero has no sign. -/
theorem Number.eq_ofRatio_of_whole {n : ℤ} {x : Float}
    (hlt : (Number.whole n).lt (.whole 0) = false) (hx : Number.ofWhole n = .ok x) :
    x = Double.ofRatio false n.natAbs 1 := by
  rw [Number.whole_lt_zero] at hlt
  rw [Number.ofWhole, Double.ofInt?, hlt] at hx
  split at hx
  · rename_i y hy
    split at hy
    · cases hy
    · cases hy
      exact (Except.ok.inj hx).symm
  · cases hx

/-- A quotient without a sign does not compare as less than zero. -/
theorem Number.ofRatio_lt_zero (num den : ℕ) :
    (Number.real (Double.ofRatio false num den)).lt (.whole 0) = false := by
  have hread : Double.reading (Double.ofRatio false num den) =
      Format.binary64.read (Format.binary64.word false (Format.binary64.round num den)) := by
    rw [Double.reading, Double.toNat_toBits_ofRatio, Format.roundSigned_eq]
  rcases (Format.round_le_infinity .binary64 num den).lt_or_eq with h | h
  · rw [Format.read_eq false h] at hread
    rw [Number.real_lt_zero hread]
    rfl
  · rw [h, Format.read_infinity] at hread
    simp only [Number.lt, Number.compare?, Number.compare?.compareWhole, hread]
    rfl

/-- The double of a value that does not compare as less than zero does not either. -/
theorem Value.real_lt_zero {seconds : Value} {n : Number} {x : Float}
    (hn : seconds.toComparable "<" = .ok n) (hlt : n.lt (.whole 0) = false)
    (hx : seconds.toReal = .ok x) : (Number.real x).lt (.whole 0) = false := by
  cases seconds with
  | bool b =>
      cases hx
      cases b with
      | false => exact Number.real_lt_zero Double.reading_zero
      | true => exact Number.real_lt_zero Double.reading_one
  | number =>
      cases hn
      cases n with
      | whole n =>
          rw [Number.eq_ofRatio_of_whole hlt hx]
          exact Number.ofRatio_lt_zero _ _
      | real y =>
          cases hx
          exact hlt
  | _ => cases hn

/-- A value that is not less than zero makes a double that is not below zero. -/
theorem Value.nonneg_of_toReal {seconds : Value} {n : Number} {x : Float} {v : ℚ}
    (hn : seconds.toComparable "<" = .ok n) (hlt : n.lt (.whole 0) = false)
    (hx : seconds.toReal = .ok x) (hv : Double.value? x = some v) : 0 ≤ v := by
  have hreal := Value.real_lt_zero hn hlt hx
  rwa [← Bool.not_eq_true, Number.real_lt_zero_iff hv, not_lt] at hreal

/-! ## The lowered product -/

namespace Clock

/-- What is taken off a product before it is rounded up. -/
def allowance : ℚ := 4835703278458517 * 2 ^ (-82 : ℤ)

theorem value?_allowance : Double.value? 1e-9 = some allowance := by
  have hread : Double.reading 1e-9 = .finite false 4835703278458517 (-82) := by rfl
  rw [Double.value?_of_reading hread]
  rfl

theorem lt_allowance : (2 : ℚ) ^ (-30 : ℤ) < allowance := by norm_num [allowance]

theorem allowance_lt : allowance < 2 ^ (-29 : ℤ) := by norm_num [allowance]

/-- What a product that is not below zero is lowered to. -/
theorem exists_lowered {x : Float} {p : ℚ} (hp : Double.value? x = some p) (hnonneg : 0 ≤ p) :
    ∃ s, Double.value? (x - 1e-9) = some s ∧ Double.IsRounding (p - allowance) (x - 1e-9) ∧
      -1 < s ∧ s ≤ p := by
  have hpos : 0 < allowance := (two_zpow_pos _).trans lt_allowance
  have hsmall : allowance < 1 := allowance_lt.trans (by norm_num)
  have hround := Double.IsRounding.sub hp value?_allowance
  obtain ⟨s, hs, hlow, hhigh⟩ :=
    hround.between (Double.value?_neg value?_allowance) hp (by linarith) (by linarith)
  exact ⟨s, hs, hround, by linarith, hhigh⟩

theorem frames_eq {c : Clock} {x : Float} {s : ℚ}
    (hs : Double.value? (x * c.rate - 1e-9) = some s) : c.frames x = .ok ⌈s⌉ := by
  rw [frames, wholeBy, Double.ceiling?_eq hs]

/-- The frames of a value that is not less than zero are those of its double. -/
theorem framesFor_eq_frames {c : Clock} {seconds : Value} {n : Number} {x : Float}
    (hn : seconds.toComparable "<" = .ok n) (hlt : n.lt (.whole 0) = false)
    (hx : seconds.toReal = .ok x) : c.framesFor seconds = c.frames x := by
  rw [framesFor, hn, ok_bind, if_neg (by simp [hlt]), hx, ok_bind]

/-- A clock whose rate is not zero or less counts the frames of a span that is not negative, if
the two have a finite product. -/
theorem framesFor_nonneg (c : Clock) (hrate : ¬c.rate ≤ 0.0) {seconds : Value} {n : Number}
    {x : Float} (hn : seconds.toComparable "<" = .ok n) (hlt : n.lt (.whole 0) = false)
    (hx : seconds.toReal = .ok x) (hfinite : (x * c.rate).isFinite = true) :
    ∃ k : ℤ, 0 ≤ k ∧ c.framesFor seconds = .ok k := by
  obtain ⟨⟨v, hv⟩, rate, hrate'⟩ := Double.exists_value?_of_mul hfinite
  obtain ⟨product, hproduct⟩ := (Double.isFinite_iff _).mp hfinite
  have hpositive : 0.0 < c.rate := by
    rw [Double.zero_lt_iff_not_le hrate]
    exact Double.isNaN_of_value? hrate'
  have hpos : 0 < rate := Double.pos_of_value? hrate' hpositive
  have hnonneg : 0 ≤ v := Value.nonneg_of_toReal hn hlt hx hv
  have hproductNonneg : 0 ≤ product :=
    (Double.IsRounding.mul hv hrate').ge hproduct Double.value?_zero (mul_nonneg hnonneg hpos.le)
  obtain ⟨lowered, hlowered, -, habove, -⟩ := exists_lowered hproduct hproductNonneg
  refine ⟨⌈lowered⌉, ?_, ?_⟩
  · have hceil : (-1 : ℤ) < ⌈lowered⌉ := Int.lt_ceil.mpr (by exact_mod_cast habove)
    omega
  · rw [framesFor_eq_frames hn hlt hx, frames_eq hlowered]

/-- A rate that is not zero or less makes a clock. -/
theorem ofRate_eq {rate : Float} (h : ¬rate ≤ 0.0) : ofRate rate = .ok ⟨rate, 0.0, 0⟩ := by
  have hrate : (Value.number (.real rate)).toReal = .ok rate := rfl
  rw [ofRate, build, hrate, ok_bind, if_neg h]
  rfl

end Clock
end SeededSketch
