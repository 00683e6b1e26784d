import SeededSketch.Proofs.RoundedArithmetic

/-!
# Sums, quotients and the precision of roundings

`IsRounding.add` and `IsRounding.div` complete the operations on doubles: a sum is the difference
from the double with the other sign, and a quotient is rounded from a significand that is cut off,
together with what tells how much is missing.

A finite rounding of a positive number is a natural number of units in the last place, the nearest
one (`IsRounding.exists_significand`).  Nothing needs to be rounded where the significand is short
enough (`value?_of_short`), so a computation with such numbers is exact in every step.  Where
something is rounded, it moves by half a unit at most (`IsRounding.abs_sub_le`), and to the double
that is nearer than that (`IsRounding.eq_of_near`, `IsRounding.eq_of_le`).
-/

namespace SeededSketch

/-! ## The number of a word from its parts -/

namespace Format

/-- A significand `r` that is `k` places above the lowest one.  It may have carried. -/
theorem value_parts (f : Format) {k r : ℕ} (hhigh : r ≤ 2 ^ (f.fractionBits + 1))
    (hlow : 0 < k → 2 ^ f.fractionBits ≤ r) :
    f.value (k * 2 ^ f.fractionBits + r) = r * 2 ^ (f.lowest + k) := by
  have hpos := Nat.two_pow_pos f.fractionBits
  rw [Nat.pow_succ] at hhigh
  rw [value]
  by_cases hsmall : r < 2 ^ f.fractionBits
  · obtain rfl : k = 0 := by
      by_contra hk
      have hle := hlow (Nat.pos_of_ne_zero hk)
      omega
    have hfield : (0 * 2 ^ f.fractionBits + r) / 2 ^ f.fractionBits = 0 := by
      rw [Nat.zero_mul, Nat.zero_add]
      exact Nat.div_eq_of_lt hsmall
    rw [mantissa, if_pos hfield, exponent, if_pos hfield, Nat.zero_mul, Nat.zero_add, Nat.cast_zero,
      add_zero]
  · by_cases hcarried : r = 2 ^ f.fractionBits * 2
    · have hword : k * 2 ^ f.fractionBits + r = (k + 2) * 2 ^ f.fractionBits := by
        rw [hcarried, Nat.add_mul, Nat.mul_comm 2]
      have hfield : (k * 2 ^ f.fractionBits + r) / 2 ^ f.fractionBits = k + 2 := by
        rw [hword, Nat.mul_div_cancel _ hpos]
      have hrest : (k * 2 ^ f.fractionBits + r) % 2 ^ f.fractionBits = 0 := by
        rw [hword, Nat.mul_mod_left]
      have hexponent : f.lowest + (k + 2 : ℕ) - 1 = f.lowest + k + 1 := by
        push_cast
        ring
      rw [mantissa, exponent, hfield, hrest, if_neg (by omega), if_neg (by omega), hexponent,
        zpow_add_one₀ two_ne_zero, hcarried, Nat.zero_add]
      push_cast
      ring
    · obtain ⟨rest, rfl⟩ := Nat.exists_eq_add_of_le (Nat.le_of_not_lt hsmall)
      have hlt : rest < 2 ^ f.fractionBits := by omega
      have hword : k * 2 ^ f.fractionBits + (2 ^ f.fractionBits + rest) =
          rest + 2 ^ f.fractionBits * (k + 1) := by ring
      have hfield : (k * 2 ^ f.fractionBits + (2 ^ f.fractionBits + rest)) / 2 ^ f.fractionBits =
          k + 1 := by
        rw [hword, Nat.add_mul_div_left _ _ hpos, Nat.div_eq_of_lt hlt, Nat.zero_add]
      have hrest : (k * 2 ^ f.fractionBits + (2 ^ f.fractionBits + rest)) % 2 ^ f.fractionBits =
          rest := by
        rw [hword, Nat.add_mul_mod_self_left, Nat.mod_eq_of_lt hlt]
      have hexponent : f.lowest + (k + 1 : ℕ) - 1 = f.lowest + k := by
        push_cast
        ring
      rw [mantissa, exponent, hfield, hrest, if_neg (by omega), if_neg (by omega), hexponent,
        Nat.add_comm rest]

/-- The last place of a number is known from the powers of two that it lies between. -/
theorem place_eq {f : Format} {v : ℚ} {e : ℤ} (he : f.lowest ≤ e)
    (hlow : (2 : ℚ) ^ (e + f.fractionBits) ≤ v) (hhigh : v < 2 ^ (e + f.fractionBits + 1)) :
    f.place v = e := by
  have hv : 0 < v := (two_zpow_pos _).trans_le hlow
  have hlogLow := (Int.zpow_le_iff_le_log (b := 2) one_lt_two hv).mp hlow
  have hlogHigh := (Int.lt_zpow_iff_log_lt (b := 2) one_lt_two hv).mp hhigh
  rw [place]
  omega

/-- The last place of a number weighs a small part of it, unless it is the lowest place. -/
theorem two_zpow_place_le {f : Format} {v : ℚ} (hv : 0 < v) :
    (2 : ℚ) ^ f.place v ≤ max (v * 2 ^ (-(f.fractionBits : ℤ))) (2 ^ f.lowest) := by
  have hlog : (2 : ℚ) ^ Int.log 2 v ≤ v := by
    exact_mod_cast Int.zpow_log_le_self (b := 2) one_lt_two hv
  rw [le_max_iff, place]
  rcases le_total f.lowest (Int.log 2 v - f.fractionBits) with hnormal | hlowest
  · left
    rw [max_eq_right hnormal, sub_eq_add_neg, zpow_add₀ two_ne_zero]
    exact mul_le_mul_of_nonneg_right hlog (two_zpow_pos _).le
  · right
    rw [max_eq_left hlowest]

end Format

namespace Double

open Float.Model (UnpackedFloat totalExponent)
open Float.Model.UnpackedFloat

/-! ## Sums -/

theorem unpacked_sub_neg (a b : UnpackedFloat) :
    UnpackedFloat.sub .binary64 a b.neg = UnpackedFloat.add .binary64 a b := by
  have hneg (s : Sign) : - -s = s := by cases s <;> rfl
  have happly (s : Sign) (m : ℤ) : (-s).apply m = -s.apply m := by
    cases s with
    | positive => rfl
    | negative => exact (Int.neg_neg m).symm
  cases a <;> cases b
  case infinity.infinity s t => cases s <;> cases t <;> rfl
  case zero.zero s t => cases s <;> cases t <;> rfl
  all_goals simp only [UnpackedFloat.sub, UnpackedFloat.add, UnpackedFloat.neg, hneg, happly,
    sub_neg_eq_add]

theorem toBits_sub_neg (x y : Float) : (x - -y).toBits.toNat = (x + y).toBits.toNat := by
  have hneg : (-y).toBits.toBitVec =
      UnpackedFloat.pack .binary64 (UnpackedFloat.unpack .binary64 y.toBits.toBitVec).neg := rfl
  have hsub : (x - -y).toBits.toNat = (UnpackedFloat.pack .binary64
      (UnpackedFloat.sub .binary64 (UnpackedFloat.unpack .binary64 x.toBits.toBitVec)
        (UnpackedFloat.unpack .binary64 (-y).toBits.toBitVec))).toNat := rfl
  have hadd : (x + y).toBits.toNat = (UnpackedFloat.pack .binary64
      (UnpackedFloat.add .binary64 (UnpackedFloat.unpack .binary64 x.toBits.toBitVec)
        (UnpackedFloat.unpack .binary64 y.toBits.toBitVec))).toNat := rfl
  rw [hsub, hneg, unpack_pack_neg, unpacked_sub_neg, hadd]

variable {v w : ℚ} {x y z : Float}

/-- A sum of doubles is the rounded sum. -/
theorem IsRounding.add (hx : value? x = some v) (hy : value? y = some w) :
    IsRounding (v + w) (x + y) := by
  have h := IsRounding.sub hx (value?_neg hy)
  rw [sub_neg_eq_add] at h
  exact h.of_toBits (toBits_sub_neg x y).symm

theorem unpacked_add_of_not_isFinite {a b : UnpackedFloat}
    (h : ¬(a.isFinite = true ∧ b.isFinite = true)) :
    UnpackedFloat.add .binary64 a b = .notANumber ∨
      ∃ s, UnpackedFloat.add .binary64 a b = .infinity s := by
  cases a <;> cases b
  case infinity.infinity s t => cases s <;> cases t <;> simp [UnpackedFloat.add]
  all_goals simp_all [UnpackedFloat.add, UnpackedFloat.isFinite]

/-- The terms of a finite sum are finite. -/
theorem isFinite_of_add (h : (x + y).isFinite = true) : x.isFinite = true ∧ y.isFinite = true := by
  have hadd : (x + y).isFinite = (UnpackedFloat.unpack .binary64 (UnpackedFloat.pack .binary64
      (UnpackedFloat.add .binary64 (UnpackedFloat.unpack .binary64 x.toBits.toBitVec)
        (UnpackedFloat.unpack .binary64 y.toBits.toBitVec)))).isFinite := rfl
  by_contra hnot
  change ¬((UnpackedFloat.unpack .binary64 x.toBits.toBitVec).isFinite = true ∧
    (UnpackedFloat.unpack .binary64 y.toBits.toBitVec).isFinite = true) at hnot
  rw [hadd] at h
  rcases unpacked_add_of_not_isFinite hnot with hnan | ⟨s, hinfinity⟩
  · rw [hnan] at h
    revert h
    decide
  · rw [hinfinity] at h
    cases s <;> revert h <;> decide

/-! ## Quotients -/

/-- The accuracy of a quotient of naturals tells what its remainder stands for. -/
theorem stands_accuracyOfFraction (m : ℕ) {n : ℕ} (hn : 0 < n) :
    Stands (.ofMantissaAndAccuracy (m / n) (accuracyOfFraction (m % n) n)) (m / n) := by
  have hpos : (0 : ℚ) < n := by exact_mod_cast hn
  have hsplit : (m : ℚ) / n = (m / n : ℕ) + (m % n : ℕ) / n := by
    have h : (n : ℚ) * (m / n : ℕ) + (m % n : ℕ) = m := by exact_mod_cast Nat.div_add_mod m n
    rw [← h, add_div, mul_div_cancel_left₀ _ hpos.ne']
  have hlt : ((m % n : ℕ) : ℚ) / n < 1 := by
    rw [div_lt_one hpos]
    exact_mod_cast Nat.mod_lt m hn
  rw [hsplit, accuracyOfFraction]
  generalize m % n = rest at *
  split
  · rename_i hzero
    rw [hzero, Nat.cast_zero, zero_div, add_zero]
    exact .exact _
  · rename_i hne
    have hrest : (0 : ℚ) < rest / n := div_pos (by exact_mod_cast Nat.pos_of_ne_zero hne) hpos
    rcases lt_trichotomy (2 * rest) n with hlow | htie | hhigh
    · have hhalf : (rest : ℚ) / n < 1 / 2 := by
        rw [div_lt_div_iff₀ hpos two_pos, one_mul, mul_comm]
        exact_mod_cast hlow
      rw [Nat.compare_eq_lt.mpr hlow]
      exact ⟨rest / n, hrest.le, hhalf, by simpa [ExtendedMantissa.ofMantissaAndAccuracy],
        by simp [ExtendedMantissa.ofMantissaAndAccuracy]⟩
    · have hhalf : (rest : ℚ) / n = 1 / 2 := by
        rw [div_eq_div_iff hpos.ne' two_ne_zero, one_mul, mul_comm]
        exact_mod_cast htie
      rw [Nat.compare_eq_eq.mpr htie, hhalf]
      exact ⟨0, le_rfl, by norm_num, by simp [ExtendedMantissa.ofMantissaAndAccuracy],
        by simp [ExtendedMantissa.ofMantissaAndAccuracy]⟩
    · have hhalf : (1 : ℚ) / 2 < rest / n := by
        rw [div_lt_div_iff₀ two_pos hpos, one_mul, mul_comm]
        exact_mod_cast hhigh
      rw [Nat.compare_eq_gt.mpr hhigh]
      refine ⟨rest / n - 1 / 2, by linarith, by linarith, ?_, ?_⟩
      · simpa [ExtendedMantissa.ofMantissaAndAccuracy] using hhalf
      · simp [ExtendedMantissa.ofMantissaAndAccuracy]

/-- The significands are brought so far that the quotient has all its bits. -/
theorem targetExponent_le_place {m n : ℕ} (hm : 0 < m) (hn : 0 < n) (e e' : ℤ) :
    Float.Model.Format.binary64.targetExponent (totalExponent m e - totalExponent n e') ≤
      Format.binary64.place (m * 2 ^ e / (n * 2 ^ e')) := by
  have hquotient := div_pos (units_pos hm e) (units_pos hn e')
  have hlow : (2 : ℚ) ^ ((m.log2 : ℤ) + e - (n.log2 + 1 + e')) ≤ m * 2 ^ e / (n * 2 ^ e') := by
    have hmLow : (2 : ℚ) ^ m.log2 ≤ m := by exact_mod_cast Nat.log2_self_le hm.ne'
    have hnHigh : (n : ℚ) ≤ 2 ^ ((n.log2 : ℤ) + 1) := by
      exact_mod_cast (Nat.lt_log2_self (n := n)).le
    rw [zpow_sub₀ two_ne_zero, zpow_add₀ two_ne_zero, zpow_add₀ two_ne_zero, zpow_natCast]
    refine div_le_div₀ ?_ ?_ ?_ ?_
    · exact units_nonneg m e
    · exact mul_le_mul_of_nonneg_right hmLow (two_zpow_pos e).le
    · exact units_pos hn e'
    · exact mul_le_mul_of_nonneg_right hnHigh (two_zpow_pos e').le
  have hlog := (Int.zpow_le_iff_le_log (b := 2) one_lt_two hquotient).mp hlow
  show max ((m.log2 : ℤ) + 1 + e - (n.log2 + 1 + e') - (1 + 52 : ℕ)) (3 - 2 ^ 10 - (1 + 52 : ℕ)) ≤
    max (-1074) (Int.log 2 _ - (52 : ℕ))
  omega

/-- A quotient of doubles is the rounded quotient. -/
theorem IsRounding.div (hx : value? x = some v) (hy : value? y = some w) (hw : w ≠ 0) :
    IsRounding (v / w) (x / y) := by
  have hbits : (x / y).toBits.toNat = (UnpackedFloat.pack .binary64
      (UnpackedFloat.div .binary64 (UnpackedFloat.unpack .binary64 x.toBits.toBitVec)
        (UnpackedFloat.unpack .binary64 y.toBits.toBitVec))).toNat := rfl
  obtain ⟨-, -, rfl⟩ | ⟨s', m', e', hm', hs', hw', -⟩ := unpack_of_value? hy
  · exact absurd rfl hw
  obtain ⟨s, hs, rfl⟩ | ⟨s, m, e, hm, hs, hv, -⟩ := unpack_of_value? hx
  · rw [hs, hs'] at hbits
    rw [zero_div]
    exact zero hbits
  · rw [hs, hs', UnpackedFloat.div] at hbits
    -- The significand is shifted so that the quotient has all its bits, and then divided.
    set target := min (e - e')
      (Float.Model.Format.binary64.targetExponent (totalExponent m e - totalExponent m' e'))
      with htarget
    set shifted := m <<< (e - e' - target).toNat with hshifted
    have hle : target ≤ Format.binary64.place (m * 2 ^ e / (m' * 2 ^ e')) :=
      (min_le_right _ _).trans (targetExponent_le_place hm hm' e e')
    have hvalue : (m * 2 ^ e / (m' * 2 ^ e') : ℚ) = shifted / m' * 2 ^ target := by
      have hshift : ((e - e' - target).toNat : ℤ) = e - e' - target := by omega
      have hpower : (2 : ℚ) ^ e = 2 ^ (e - e' - target) * 2 ^ target * 2 ^ e' := by
        rw [← zpow_add₀ two_ne_zero, ← zpow_add₀ two_ne_zero]
        congr 1
        ring
      have hne := (two_zpow_pos e').ne'
      rw [hshifted, Nat.shiftLeft_eq, Nat.cast_mul, Nat.cast_pow, Nat.cast_two, ← zpow_natCast,
        hshift, hpower]
      field_simp
    have hstands : Stands
        (.ofMantissaAndAccuracy (shifted / m') (accuracyOfFraction (shifted % m') m'))
        (m * 2 ^ e / (m' * 2 ^ e') * 2 ^ (-target)) := by
      rw [hvalue, mul_two_zpow_mul_neg]
      exact stands_accuracyOfFraction shifted hm'
    have hpos := div_pos (units_pos hm e) (units_pos hm' e')
    have hsign : isMinus (s / s') = (isMinus s != isMinus s') := by
      cases s <;> cases s' <;> rfl
    refine ⟨isMinus (s / s'), (scaleRatio shifted m' target).1, (scaleRatio shifted m' target).2,
      scaleRatio_den_pos shifted hm' target, ?_, ?_⟩
    · rw [scaleRatio_eq, ← hvalue, hv, hw', hsign]
      cases s <;> cases s' <;> simp [isMinus, signed, neg_div, div_neg]
    · rw [hbits]
      refine toNat_pack_roundWithAccuracy (s / s') hpos hstands hle
        (scaleRatio_den_pos shifted hm' target) ?_
      rw [scaleRatio_eq, hvalue]

/-- What gives a finite quotient by a finite double is finite. -/
theorem isFinite_of_div (h : (x / y).isFinite = true) (hy : y.isFinite = true) :
    x.isFinite = true := by
  have hdiv : (x / y).isFinite = (UnpackedFloat.unpack .binary64 (UnpackedFloat.pack .binary64
      (UnpackedFloat.div .binary64 (UnpackedFloat.unpack .binary64 x.toBits.toBitVec)
        (UnpackedFloat.unpack .binary64 y.toBits.toBitVec)))).isFinite := rfl
  have hnan : (UnpackedFloat.unpack .binary64
      (UnpackedFloat.pack .binary64 .notANumber)).isFinite = false := by decide
  have hinfinity (s : Sign) : (UnpackedFloat.unpack .binary64
      (UnpackedFloat.pack .binary64 (.infinity s))).isFinite = false := by cases s <;> decide
  change (UnpackedFloat.unpack .binary64 y.toBits.toBitVec).isFinite = true at hy
  show (UnpackedFloat.unpack .binary64 x.toBits.toBitVec).isFinite = true
  rw [hdiv] at h
  generalize UnpackedFloat.unpack .binary64 x.toBits.toBitVec = ux at h
  generalize UnpackedFloat.unpack .binary64 y.toBits.toBitVec = uy at h hy
  cases ux <;> cases uy <;> simp_all [UnpackedFloat.div, UnpackedFloat.isFinite]

/-! ## Units in the last place -/

/-- A finite rounding of a positive number is the nearest multiple of the weight of its last
place. -/
theorem IsRounding.exists_significand (h : IsRounding v z) (hz : value? z = some w) (hv : 0 < v) :
    ∃ r : ℕ, IsNearest (v * 2 ^ (-Format.binary64.place v)) r ∧
      r ≤ 2 ^ 53 ∧ w = r * 2 ^ Format.binary64.place v := by
  obtain ⟨negative, num, den, hden, rfl, hfinite, rfl⟩ := h.eq_round hz
  have hratio : (0 : ℚ) ≤ num / den := by positivity
  obtain rfl : negative = false := by
    cases negative with
    | false => rfl
    | true => exact absurd hv (not_lt.mpr (neg_nonpos.mpr hratio))
  change 0 < (num : ℚ) / den at hv
  change ∃ r : ℕ, IsNearest ((num : ℚ) / den * 2 ^ (-Format.binary64.place (num / den))) r ∧
    r ≤ 2 ^ 53 ∧ Format.binary64.value (Format.binary64.round num den) =
      r * 2 ^ Format.binary64.place (num / den)
  have hnum : 0 < num := by
    rcases Nat.eq_zero_or_pos num with rfl | hnum
    · rw [Nat.cast_zero, zero_div] at hv
      exact absurd hv (lt_irrefl 0)
    · exact hnum
  have hlowest := Format.lowest_le_place (f := .binary64) ((num : ℚ) / den)
  have hshort := Format.scaled_lt (f := .binary64) ((num : ℚ) / den)
  have hfull := Format.le_scaled (f := .binary64) hv
  obtain ⟨r, hr⟩ := Format.exists_isNearest
    (mul_pos hv (two_zpow_pos (-Format.binary64.place (num / den)))).le
  have hround := Format.round_eq hnum hden hr
  set place := Format.binary64.place ((num : ℚ) / den) with hplace
  have hhigh : r ≤ 2 ^ 53 := hr.le_natCast (by exact_mod_cast hshort.le)
  have hlow (h : 0 < (place - Format.binary64.lowest).toNat) : 2 ^ 52 ≤ r :=
    hr.natCast_le (by exact_mod_cast hfull (by omega))
  -- What is finite has not been cut off at infinity.
  have hword : Format.binary64.round num den =
      (place - Format.binary64.lowest).toNat * 2 ^ 52 + r := by
    rw [hround] at hfinite ⊢
    exact min_eq_right (Nat.le_of_lt ((min_lt_iff.mp hfinite).resolve_left (lt_irrefl _)))
  refine ⟨r, hr, hhigh, ?_⟩
  have hparts := Format.binary64.value_parts hhigh hlow
  rw [hword]
  refine hparts.trans ?_
  congr 2
  omega

/-- Units in the last place that are nearer than half a unit are what a number is rounded to. -/
theorem IsRounding.eq_of_near {k : ℕ} (h : IsRounding v z) (hz : value? z = some w) (hv : 0 < v)
    (hnear : |v - k * 2 ^ Format.binary64.place v| < 2 ^ Format.binary64.place v / 2) :
    w = k * 2 ^ Format.binary64.place v := by
  obtain ⟨r, hr, -, rfl⟩ := h.exists_significand hz hv
  have hunit := two_zpow_pos (Format.binary64.place v)
  have hscale := mul_two_zpow_neg_mul v (Format.binary64.place v)
  set place := Format.binary64.place v
  set units := v * 2 ^ (-place)
  have hunits : |units - k| < 1 / 2 := by
    rw [← hscale, ← sub_mul, abs_mul, abs_of_pos hunit, div_eq_inv_mul] at hnear
    have hlt := lt_of_mul_lt_mul_right hnear hunit.le
    rwa [one_div]
  obtain ⟨hlow, hhigh⟩ := abs_lt.mp hunits
  have hk : IsNearest units k := by
    refine ⟨by linarith, by linarith, ?_⟩
    rintro (h | h) <;> linarith
  rw [hr.unique hk]

/-- A positive number that is denoted is a short significand in some place. -/
theorem exists_units (hx : value? x = some v) (hv : 0 < v) :
    ∃ (m : ℕ) (e : ℤ), m < 2 ^ 53 ∧ -1074 ≤ e ∧ v = m * 2 ^ e := by
  obtain ⟨negative, word, -, -, hvalue⟩ := exists_word hx
  cases negative with
  | false =>
      exact ⟨_, _, Format.mantissa_lt .binary64 word, Format.lowest_le_exponent .binary64 word,
        hvalue⟩
  | true =>
      have hnonpos : v ≤ 0 := hvalue.trans_le (neg_nonpos.mpr (Format.value_nonneg _ word))
      exact absurd hv (not_lt.mpr hnonpos)

/-- Units are a natural number of units of each lower place. -/
theorem exists_lower_units (m : ℕ) {e e' : ℤ} (h : e' ≤ e) :
    ∃ k : ℕ, (m : ℚ) * 2 ^ e = k * 2 ^ e' := by
  obtain ⟨gap, hgap⟩ := Int.eq_ofNat_of_zero_le (show 0 ≤ e - e' by omega)
  have hexponent : e = gap + e' := by omega
  refine ⟨m * 2 ^ gap, ?_⟩
  rw [hexponent, zpow_add₀ two_ne_zero, zpow_natCast, Nat.cast_mul, Nat.cast_pow, Nat.cast_two,
    mul_assoc]

/-- The last place of a number is not above that of a short significand that is not below it. -/
theorem place_le {m : ℕ} {e : ℤ} (hm : m < 2 ^ 53) (he : -1074 ≤ e) (hv : 0 < v)
    (hle : v ≤ m * 2 ^ e) : Format.binary64.place v ≤ e := by
  have hlt : v < 2 ^ (53 + e) := by
    rw [zpow_add₀ two_ne_zero]
    exact hle.trans_lt (mul_lt_mul_of_pos_right (by exact_mod_cast hm) (two_zpow_pos e))
  have hlog := (Int.lt_zpow_iff_log_lt (b := 2) one_lt_two hv).mp hlt
  show max (-1074) (Int.log 2 v - (52 : ℕ)) ≤ e
  omega

/-- A double is a multiple of the weight of the last place of each number that is not above it. -/
theorem exists_units_in_place {b : ℚ} (hy : value? y = some b) (hv : 0 < v) (hle : v ≤ b) :
    ∃ k : ℕ, b = k * 2 ^ Format.binary64.place v := by
  obtain ⟨m, e, hm, he, rfl⟩ := exists_units hy (hv.trans_le hle)
  exact exists_lower_units m (place_le hm he hv hle)

/-- A number a little below a double is rounded up to it, if less than half a unit is missing. -/
theorem IsRounding.eq_of_le {b : ℚ} (h : IsRounding v z) (hz : value? z = some w) (hv : 0 < v)
    (hy : value? y = some b) (hle : v ≤ b) (hnear : b - v < 2 ^ Format.binary64.place v / 2) :
    w = b := by
  obtain ⟨k, hk⟩ := exists_units_in_place hy hv hle
  rw [hk] at hle hnear ⊢
  refine h.eq_of_near hz hv (abs_sub_lt_iff.mpr ⟨?_, hnear⟩)
  linarith [two_zpow_pos (Format.binary64.place v)]

/-- The rounding of a number that some double denotes is that number. -/
theorem IsRounding.exact (h : IsRounding v z) (hx : value? x = some v) : value? z = some v := by
  obtain ⟨w, hw, hlow, hhigh⟩ := h.between hx hx le_rfl le_rfl
  rw [hw, hhigh.antisymm hlow]

/-- A rounding is off by `2 ^ (-53)` of the number at most, or by half the least positive double. -/
theorem IsRounding.abs_sub_le (h : IsRounding v z) (hz : value? z = some w) (hv : 0 ≤ v) :
    |w - v| ≤ max (v * 2 ^ (-53 : ℤ)) (2 ^ (-1075 : ℤ)) := by
  rcases hv.eq_or_lt with rfl | hv
  · rw [Option.some.inj (hz.symm.trans (h.exact value?_zero)), sub_zero, abs_zero]
    exact le_max_of_le_right (two_zpow_pos _).le
  obtain ⟨r, hr, -, rfl⟩ := h.exists_significand hz hv
  have hunit := two_zpow_pos (Format.binary64.place v)
  have hscale := mul_two_zpow_neg_mul v (Format.binary64.place v)
  have hplace := Format.two_zpow_place_le (f := .binary64) hv
  set place := Format.binary64.place v
  -- Rounding moves a number by half a unit in its last place at most.
  have hhalf : |(r : ℚ) * 2 ^ place - v| ≤ 2 ^ place / 2 := by
    have hlower := mul_le_mul_of_nonneg_right hr.lower hunit.le
    have hupper := mul_le_mul_of_nonneg_right hr.upper hunit.le
    rw [hscale] at hlower hupper
    rw [abs_sub_le_iff]
    constructor <;> linarith
  refine hhalf.trans ?_
  rw [le_max_iff] at hplace ⊢
  rcases hplace with hnormal | hlowest
  · left
    have hstep : v * 2 ^ (-53 : ℤ) = v * 2 ^ (-52 : ℤ) / 2 := by
      rw [mul_div_assoc]
      norm_num
    rw [hstep]
    exact div_le_div_of_nonneg_right hnormal zero_le_two
  · right
    have hstep : (2 : ℚ) ^ (-1075 : ℤ) = 2 ^ (-1074 : ℤ) / 2 := by
      rw [eq_div_iff two_ne_zero, ← zpow_add_one₀ two_ne_zero]
      rfl
    rw [hstep]
    exact div_le_div_of_nonneg_right hlowest zero_le_two

/-- A double is less than the least power of two that is too large for one. -/
theorem lt_of_value? (h : value? x = some v) : v < 2 ^ (1024 : ℤ) := by
  obtain ⟨negative, word, hword, -, rfl⟩ := exists_word h
  have hexponent : Format.binary64.exponent word ≤ 971 := Format.exponent_le hword (by decide)
  have hmantissa : (Format.binary64.mantissa word : ℚ) < 2 ^ (53 : ℤ) := by
    exact_mod_cast Format.mantissa_lt .binary64 word
  calc signed negative (Format.binary64.value word)
      ≤ Format.binary64.mantissa word * 2 ^ Format.binary64.exponent word :=
        signed_le negative (units_nonneg _ _)
    _ < 2 ^ (53 : ℤ) * 2 ^ Format.binary64.exponent word :=
        mul_lt_mul_of_pos_right hmantissa (two_zpow_pos _)
    _ = 2 ^ (53 + Format.binary64.exponent word) := (zpow_add₀ two_ne_zero _ _).symm
    _ ≤ 2 ^ (1024 : ℤ) := zpow_le_zpow_right₀ one_le_two (by omega)

theorem value?_two_pow_53 : value? 9007199254740992.0 = some (2 ^ 53) := by
  have hread : reading 9007199254740992.0 = .finite false (2 ^ 52) 1 := by decide +kernel
  rw [value?_of_reading hread]
  norm_num [signed]

/-- The greatest double. -/
theorem value?_greatest :
    value? 1.7976931348623157e308 = some (((2 ^ 53 - 1 : ℕ) : ℚ) * 2 ^ (971 : ℤ)) := by
  have hread : reading 1.7976931348623157e308 = .finite false (2 ^ 53 - 1) 971 := by decide +kernel
  rw [value?_of_reading hread]
  rfl

/-- A number with a significand that is short enough is its own rounding. -/
theorem value?_of_short {n : ℕ} {e : ℤ} (h : IsRounding (n * 2 ^ e) z) (hn : n < 2 ^ 53)
    (hlow : -1074 ≤ e) (hhigh : e ≤ 971) : value? z = some ((n : ℚ) * 2 ^ e) := by
  have hnonneg := units_nonneg n e
  have hle : (n : ℚ) * 2 ^ e ≤ ((2 ^ 53 - 1 : ℕ) : ℚ) * 2 ^ (971 : ℤ) := by
    have hnCast : (n : ℚ) ≤ ((2 ^ 53 - 1 : ℕ) : ℚ) := by
      exact_mod_cast (show n ≤ 2 ^ 53 - 1 by omega)
    have hpower : (2 : ℚ) ^ e ≤ 2 ^ (971 : ℤ) := zpow_le_zpow_right₀ one_le_two hhigh
    exact mul_le_mul hnCast hpower (two_zpow_pos e).le (Nat.cast_nonneg _)
  obtain ⟨w, hw, hwLow, -⟩ := h.between value?_zero value?_greatest hnonneg hle
  rcases hnonneg.eq_or_lt with hzero | hpos
  · rw [← hzero] at h ⊢
    rw [hw, (h.le hw value?_zero le_rfl).antisymm hwLow]
  · -- It is a number of units in its last place, so there is nothing to round.
    obtain ⟨k, hk⟩ := exists_lower_units n (place_le hn hlow hpos le_rfl)
    have hnear : |(n : ℚ) * 2 ^ e - k * 2 ^ Format.binary64.place (n * 2 ^ e)| <
        2 ^ Format.binary64.place (n * 2 ^ e) / 2 := by
      rw [← hk, sub_self, abs_zero]
      exact half_pos (two_zpow_pos _)
    rw [hw, h.eq_of_near hw hpos hnear, ← hk]

/-- A natural that is short enough is its own rounding. -/
theorem value?_of_natCast {n : ℕ} (h : IsRounding n z) (hn : n < 2 ^ 53) :
    value? z = some (n : ℚ) := by
  have hunits : (n : ℚ) = n * 2 ^ (0 : ℤ) := by rw [zpow_zero, mul_one]
  rw [hunits] at h
  rw [value?_of_short h hn (by decide) (by decide), ← hunits]

/-- The double of a natural that is short enough denotes it. -/
theorem value?_ofRatio_one {n : ℕ} (hn : n < 2 ^ 53) :
    value? (ofRatio false n 1) = some (n : ℚ) := by
  have hround := isRounding_ofRatio false n Nat.one_pos
  rw [Nat.cast_one, div_one] at hround
  exact value?_of_natCast hround hn

/-- Each significand that is short enough is that of a double. -/
theorem exists_value?_of_short {n : ℕ} {e : ℤ} (hn : n < 2 ^ 53) (hlow : -1074 ≤ e)
    (hhigh : e ≤ 971) : ∃ x, value? x = some ((n : ℚ) * 2 ^ e) := by
  have hround : IsRounding ((n : ℚ) * 2 ^ e) (ofRatio false (ratioOf n e).1 (ratioOf n e).2) := by
    rw [← ratioOf_eq]
    exact isRounding_ofRatio false _ (ratioOf_den_pos n e)
  exact ⟨_, value?_of_short hround hn hlow hhigh⟩

/-- A rounding does not pass a significand that is short enough. -/
theorem IsRounding.le_units {n : ℕ} {e : ℤ} (h : IsRounding v z) (hz : value? z = some w)
    (hn : n < 2 ^ 53) (hlow : -1074 ≤ e) (hhigh : e ≤ 971) (hle : v ≤ n * 2 ^ e) :
    w ≤ n * 2 ^ e := by
  obtain ⟨x, hx⟩ := exists_value?_of_short hn hlow hhigh
  exact h.le hz hx hle

theorem IsRounding.units_le {n : ℕ} {e : ℤ} (h : IsRounding v z) (hz : value? z = some w)
    (hn : n < 2 ^ 53) (hlow : -1074 ≤ e) (hhigh : e ≤ 971) (hle : n * 2 ^ e ≤ v) :
    n * 2 ^ e ≤ w := by
  obtain ⟨x, hx⟩ := exists_value?_of_short hn hlow hhigh
  exact h.ge hz hx hle

/-! ## Doubles that denote the same number -/

/-- A number other than zero is denoted by one double. -/
theorem eq_of_value? (hx : value? x = some v) (hy : value? y = some v) (hv : v ≠ 0) : x = y := by
  obtain ⟨negative, w, hw, hbits, rfl⟩ := exists_word hx
  obtain ⟨negative', w', hw', hbits', hsame⟩ := exists_word hy
  have hnonneg := Format.binary64.value_nonneg w
  have hnonneg' := Format.binary64.value_nonneg w'
  have hpos : Format.binary64.value w ≠ 0 := fun h => by
    rw [h] at hv
    cases negative <;> simp [signed] at hv
  obtain ⟨rfl, hvalue⟩ : negative = negative' ∧
      Format.binary64.value w = Format.binary64.value w' := by
    have hlt := lt_of_le_of_ne hnonneg hpos.symm
    cases negative <;> cases negative' <;> simp only [signed, if_true, if_false,
      Bool.false_eq_true] at hsame
    · exact ⟨rfl, hsame⟩
    · linarith
    · linarith
    · exact ⟨rfl, neg_injective hsame⟩
  have hword : w = w' := Nat.le_antisymm ((Format.value_le_iff hw hw').mp hvalue.le)
    ((Format.value_le_iff hw' hw).mp hvalue.ge)
  rw [← Float.toBits_inj, ← UInt64.toNat_inj, hbits, hbits', hword]

end Double
end SeededSketch
