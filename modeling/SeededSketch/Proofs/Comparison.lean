import SeededSketch.Proofs.RoundedArithmetic

/-!
# The order of doubles

Doubles are compared by their signs, the places of their significands and then the significands
themselves.  For doubles that denote numbers this is the order of the numbers (`le_iff`, `lt_iff`):
above the lowest place every significand has its full length, so the one in the higher place is the
greater one.
-/

namespace SeededSketch

namespace Double

open Float.Model (UnpackedFloat)
open Float.Model.UnpackedFloat

variable {v w : ℚ} {x y : Float}

/-! ## Comparing significands -/

theorem significand_lt {s : Sign} {m : ℕ} {e : ℤ} {hm : 0 < m}
    (h : UnpackedFloat.unpack .binary64 x.toBits.toBitVec = .finite s m e hm) : m < 2 ^ 53 := by
  have hread : reading x = .finite (isMinus s) m e := by
    have hunpacked : reading x = readingOf (UnpackedFloat.unpack .binary64 x.toBits.toBitVec) :=
      read_eq_readingOf _
    rw [hunpacked, h, readingOf]
  obtain ⟨negative, word, hword, hbits, -⟩ := exists_word (value?_of_reading hread)
  rw [reading, hbits, Format.read_eq negative hword] at hread
  injection hread with _ hmantissa _
  rw [← hmantissa]
  exact Format.mantissa_lt _ word

/-- A significand of full length in a higher place is greater than any in a lower place. -/
theorem significands_lt {m n : ℕ} {e e' : ℤ} (hm : m < 2 ^ 53) (hn : 2 ^ 52 ≤ n) (he : e < e') :
    (m : ℚ) * 2 ^ e < n * 2 ^ e' := by
  have hmCast : (m : ℚ) < 2 ^ (53 : ℤ) := by exact_mod_cast hm
  have hnCast : (2 : ℚ) ^ (52 : ℤ) ≤ n := by exact_mod_cast hn
  calc (m : ℚ) * 2 ^ e < 2 ^ (53 : ℤ) * 2 ^ e := mul_lt_mul_of_pos_right hmCast (two_zpow_pos e)
    _ = 2 ^ (53 + e) := (zpow_add₀ two_ne_zero _ _).symm
    _ ≤ 2 ^ (52 + e') := zpow_le_zpow_right₀ one_le_two (by omega)
    _ = 2 ^ (52 : ℤ) * 2 ^ e' := zpow_add₀ two_ne_zero _ _
    _ ≤ n * 2 ^ e' := mul_le_mul_of_nonneg_right hnCast (two_zpow_pos e').le

theorem compare_significands {m n : ℕ} {e e' : ℤ} (hm : m < 2 ^ 53) (hn : n < 2 ^ 53)
    (he : -1074 ≤ e) (he' : -1074 ≤ e') (hfull : -1074 < e → 2 ^ 52 ≤ m)
    (hfull' : -1074 < e' → 2 ^ 52 ≤ n) :
    (compare e e').then (compare m n) = compare ((m : ℚ) * 2 ^ e) (n * 2 ^ e') := by
  rcases lt_trichotomy e e' with hlt | rfl | hgt
  · rw [compare_lt_iff_lt.mpr hlt,
      compare_lt_iff_lt.mpr (significands_lt hm (hfull' (by omega)) hlt)]
    rfl
  · rw [compare_eq_iff_eq.mpr rfl, Ordering.then]
    rcases lt_trichotomy m n with hlt | rfl | hgt
    · have hcast : (m : ℚ) < n := by exact_mod_cast hlt
      rw [compare_lt_iff_lt.mpr hlt,
        compare_lt_iff_lt.mpr (mul_lt_mul_of_pos_right hcast (two_zpow_pos e))]
    · rw [compare_eq_iff_eq.mpr rfl, compare_eq_iff_eq.mpr rfl]
    · have hcast : (n : ℚ) < m := by exact_mod_cast hgt
      rw [compare_gt_iff_gt.mpr hgt,
        compare_gt_iff_gt.mpr (mul_lt_mul_of_pos_right hcast (two_zpow_pos e))]
  · rw [compare_gt_iff_gt.mpr hgt,
      compare_gt_iff_gt.mpr (significands_lt hn (hfull (by omega)) hgt)]
    rfl

theorem compare_neg_neg (a b : ℚ) : compare (-a) (-b) = (compare a b).swap := by
  rcases lt_trichotomy a b with hlt | rfl | hgt
  · rw [compare_lt_iff_lt.mpr hlt, compare_gt_iff_gt.mpr (neg_lt_neg hlt), Ordering.swap]
  · rw [compare_eq_iff_eq.mpr rfl, compare_eq_iff_eq.mpr rfl, Ordering.swap]
  · rw [compare_gt_iff_gt.mpr hgt, compare_lt_iff_lt.mpr (neg_lt_neg hgt), Ordering.swap]

/-! ## Comparing doubles -/

/-- Doubles that denote numbers compare as the numbers. -/
theorem compare_of_value? (hx : value? x = some v) (hy : value? y = some w) :
    (UnpackedFloat.unpack .binary64 x.toBits.toBitVec).compare
      (UnpackedFloat.unpack .binary64 y.toBits.toBitVec) = some (compare v w) := by
  have hneg {m : ℕ} (hm : 0 < m) (e : ℤ) : -((m : ℚ) * 2 ^ e) < 0 :=
    neg_lt_zero.mpr (units_pos hm e)
  obtain ⟨s, hs, rfl⟩ | ⟨s, m, e, hm, hs, rfl, he, hfull⟩ := unpack_of_value? hx
  · obtain ⟨s', hs', rfl⟩ | ⟨s', n, e', hn, hs', rfl, -⟩ := unpack_of_value? hy
    · rw [hs, hs', compare_eq_iff_eq.mpr rfl]
      rfl
    · rw [hs, hs']
      cases s' with
      | positive => exact congrArg some (compare_lt_iff_lt.mpr (units_pos hn e')).symm
      | negative => exact congrArg some (compare_gt_iff_gt.mpr (hneg hn e')).symm
  · obtain ⟨s', hs', rfl⟩ | ⟨s', n, e', hn, hs', rfl, he', hfull'⟩ := unpack_of_value? hy
    · rw [hs, hs']
      cases s with
      | positive => exact congrArg some (compare_gt_iff_gt.mpr (units_pos hm e)).symm
      | negative => exact congrArg some (compare_lt_iff_lt.mpr (hneg hm e)).symm
    · have hsame :=
        compare_significands (significand_lt hs) (significand_lt hs') he he' hfull hfull'
      rw [hs, hs']
      cases s with
      | positive =>
          cases s' with
          | positive => exact congrArg some hsame
          | negative =>
              exact congrArg some (compare_gt_iff_gt.mpr ((hneg hn e').trans (units_pos hm e))).symm
      | negative =>
          cases s' with
          | positive =>
              exact congrArg some (compare_lt_iff_lt.mpr ((hneg hm e).trans (units_pos hn e'))).symm
          | negative =>
              show some ((compare e e').then (compare m n)).swap =
                some (compare (-((m : ℚ) * 2 ^ e)) (-(n * 2 ^ e')))
              rw [hsame, compare_neg_neg]

theorem le_iff (hx : value? x = some v) (hy : value? y = some w) : x ≤ y ↔ v ≤ w := by
  have hle : x ≤ y ↔ UnpackedFloat.le (UnpackedFloat.unpack .binary64 x.toBits.toBitVec)
      (UnpackedFloat.unpack .binary64 y.toBits.toBitVec) = true := decide_eq_true_iff
  rw [hle, UnpackedFloat.le, compare_of_value? hx hy, Option.any_some]
  exact Std.LawfulBCmp.isLE_iff_le

theorem lt_iff (hx : value? x = some v) (hy : value? y = some w) : x < y ↔ v < w := by
  have hlt : x < y ↔ UnpackedFloat.lt (UnpackedFloat.unpack .binary64 x.toBits.toBitVec)
      (UnpackedFloat.unpack .binary64 y.toBits.toBitVec) = true := decide_eq_true_iff
  rw [hlt, UnpackedFloat.lt, compare_of_value? hx hy, beq_iff_eq, Option.some_inj]
  exact compare_lt_iff_lt

/-! ## Magnitudes -/

theorem value?_congr (h : x.toBits.toNat = y.toBits.toNat) : value? x = value? y := by
  rw [value?, value?, reading, reading, h]

/-- The number of a double without its sign. -/
theorem value?_abs (hx : value? x = some v) : value? x.abs = some |v| := by
  have hbits : x.abs.toBits.toNat = (UnpackedFloat.pack .binary64
      (UnpackedFloat.unpack .binary64 x.toBits.toBitVec).abs).toNat := rfl
  obtain ⟨s, hs, rfl⟩ | ⟨s, m, e, hm, hs, rfl, -⟩ := unpack_of_value? hx
  · rw [hs] at hbits
    have hzero : x.abs.toBits.toNat = (0.0 : Float).toBits.toNat := hbits
    rw [value?_congr hzero, value?_zero, abs_zero]
  · have hnonneg := units_nonneg m e
    cases s with
    | positive =>
        have hnan : Format.binary64.read x.toBits.toBitVec.toNat ≠ .nan := by
          rw [read_eq_readingOf, hs]
          exact Reading.noConfusion
        have hsame : x.abs.toBits.toNat = x.toBits.toNat := by
          rw [hbits, hs, UnpackedFloat.abs, ← hs, pack_unpack _ hnan]
          rfl
        rw [value?_congr hsame, hx]
        exact congrArg some (abs_of_nonneg hnonneg).symm
    | negative =>
        have hneg : (-x).toBits.toNat = (UnpackedFloat.pack .binary64
            (UnpackedFloat.unpack .binary64 x.toBits.toBitVec).neg).toNat := rfl
        have hsame : x.abs.toBits.toNat = (-x).toBits.toNat := by
          rw [hbits, hneg, hs]
          rfl
        have habs : |signed (isMinus .negative) ((m : ℚ) * 2 ^ e)| = m * 2 ^ e := by
          show |-((m : ℚ) * 2 ^ e)| = m * 2 ^ e
          rw [abs_neg, abs_of_nonneg hnonneg]
        rw [value?_congr hsame, value?_neg hx, habs]
        exact congrArg some (neg_neg _)

/-- Only a finite double has a finite magnitude. -/
theorem isFinite_of_abs (h : x.abs.isFinite = true) : x.isFinite = true := by
  have habs : x.abs.isFinite = (UnpackedFloat.unpack .binary64 (UnpackedFloat.pack .binary64
      (UnpackedFloat.unpack .binary64 x.toBits.toBitVec).abs)).isFinite := rfl
  have hx : x.isFinite = (UnpackedFloat.unpack .binary64 x.toBits.toBitVec).isFinite := rfl
  rw [habs] at h
  rw [hx]
  cases hu : UnpackedFloat.unpack .binary64 x.toBits.toBitVec with
  | notANumber =>
      rw [hu] at h
      exact absurd h (by decide)
  | infinity s =>
      rw [hu, UnpackedFloat.abs] at h
      exact absurd h (by decide)
  | zero s => rfl
  | finite s m e hm => rfl

end Double
end SeededSketch
