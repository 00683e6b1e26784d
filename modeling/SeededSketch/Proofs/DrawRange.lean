import SeededSketch.Proofs.Comparison
import SeededSketch.Proofs.Period
import SeededSketch.Proofs.Precision

/-!
# Draws in their range

A draw takes a part of the distance between its ends and adds it to the lower one.  The fraction
that says how great the part is has as many bits as a significand, so none of the operations that
make it rounds (`value?_fractionOf`).  The three others round: the distance, the part of it, and the
sum.

The distance may be rounded upwards, and then the part of it could reach further than the upper end.
It does not, because the fraction is less than one by `2 ^ (-53)` at least.  If the distance was
rounded up to `r` units of its last place, the part of it is less than `r - 1 / 2` units.  So it is
rounded to `r - 1` units or fewer, and these are less than the exact distance
(`part_le_difference`).  The sum is then a rounding of a number between the two ends, which are
doubles.

The one thing that can go wrong is that the distance is too large for a double.  Hence a draw is in
its range exactly if the difference of its ends is finite (`draw_within_iff`).
-/

namespace SeededSketch

namespace Double

variable {v w d c f p : ℚ} {x y span product : Float}

/-- What a double denotes is a multiple of the smallest positive one. -/
theorem exists_multiple (hx : value? x = some v) : ∃ k : ℤ, v = k * 2 ^ (-1074 : ℤ) := by
  obtain ⟨negative, word, -, -, rfl⟩ := exists_word hx
  have hlowest : -1074 ≤ Format.binary64.exponent word := Format.lowest_le_exponent _ _
  obtain ⟨k, hk⟩ := exists_lower_units (Format.binary64.mantissa word) hlowest
  cases negative with
  | false => exact ⟨k, hk⟩
  | true =>
      refine ⟨-k, ?_⟩
      rw [Int.cast_neg, neg_mul]
      exact congrArg (-·) hk

/-- In the lowest place no multiple of it is rounded. -/
theorem significand_lowest {r : ℕ} (hd : 0 ≤ d) (hmultiple : ∃ k : ℤ, d = k * 2 ^ (-1074 : ℤ))
    (hr : IsNearest (d * 2 ^ (-(-1074) : ℤ)) r) : d * 2 ^ (-(-1074) : ℤ) = r := by
  obtain ⟨k, rfl⟩ := hmultiple
  have hk : 0 ≤ k := by
    have hcast : (0 : ℚ) ≤ k := nonneg_of_mul_nonneg_left hd (two_zpow_pos _)
    exact_mod_cast hcast
  obtain ⟨n, rfl⟩ := Int.eq_ofNat_of_zero_le hk
  rw [mul_two_zpow_mul_neg, Int.cast_natCast] at hr ⊢
  rw [hr.unique (.natCast n)]

/-- A difference that is rounded upwards has a significand of full length, and the rounded one is
by half a unit too great at most. -/
theorem exists_units_of_lt (hd : 0 ≤ d) (hmultiple : ∃ k : ℤ, d = k * 2 ^ (-1074 : ℤ))
    (hspan : IsRounding d span) (hc : value? span = some c) (hlt : d < c) :
    0 < d ∧ ∃ r : ℕ, c = r * 2 ^ Format.binary64.place d ∧ (2 : ℚ) ^ 52 < r ∧
      2 ^ 52 * 2 ^ Format.binary64.place d ≤ d ∧
      ((r : ℚ) - 1 / 2) * 2 ^ Format.binary64.place d ≤ d := by
  have hpos : 0 < d := by
    refine lt_of_le_of_ne hd fun hzero => ?_
    exact absurd ((hspan.le hc value?_zero hzero.ge).trans hd) (not_le.mpr hlt)
  obtain ⟨r, hr, -, rfl⟩ := hspan.exists_significand hc hpos
  have hlowest := Format.lowest_le_place (f := .binary64) d
  have hunit := two_zpow_pos (Format.binary64.place d)
  have hscale := mul_two_zpow_neg_mul d (Format.binary64.place d)
  have hfullScale := Format.le_scaled (f := .binary64) hpos
  set place := Format.binary64.place d
  set units := d * 2 ^ (-place)
  rw [← hscale] at hlt ⊢
  have hup : units < r := lt_of_mul_lt_mul_right hlt hunit.le
  -- In the lowest place it would not have been rounded.
  have hhigher : Format.binary64.lowest < place := by
    refine lt_of_le_of_ne hlowest fun heq => hup.ne ?_
    have hbase : place = -1074 := heq.symm
    have hexact := significand_lowest hd hmultiple (r := r)
    rw [← hbase] at hexact
    exact hexact hr
  have hfull : (2 : ℚ) ^ 52 ≤ units := hfullScale hhigher
  refine ⟨hscale ▸ hpos, r, rfl, hfull.trans_lt hup, ?_, ?_⟩
  · exact mul_le_mul_of_nonneg_right hfull hunit.le
  · exact mul_le_mul_of_nonneg_right hr.lower hunit.le

/-- A part of a full significand is less by more than half a unit. -/
theorem part_lt_units {r : ℚ} (hf : f ≤ 1 - 1 / 2 ^ 53) (hr : 2 ^ 52 < r) : f * r < r - 1 / 2 := by
  have hpart : f * r ≤ (1 - 1 / 2 ^ 53) * r :=
    mul_le_mul_of_nonneg_right hf ((by positivity : (0 : ℚ) ≤ 2 ^ 52).trans hr.le)
  have hmissing : (1 : ℚ) / 2 ^ 53 * 2 ^ 52 < 1 / 2 ^ 53 * r :=
    mul_lt_mul_of_pos_left hr (by positivity)
  have hhalf : (1 : ℚ) / 2 ^ 53 * 2 ^ 52 = 1 / 2 := by norm_num
  linarith

/-- A part of a rounded difference is not greater than the difference, if the part is less than the
whole by `2 ^ (-53)` at least. -/
theorem part_le_difference (hd : 0 ≤ d) (hmultiple : ∃ k : ℤ, d = k * 2 ^ (-1074 : ℤ))
    (hspan : IsRounding d span) (hc : value? span = some c) (hf : 0 ≤ f) (hf' : f ≤ 1 - 1 / 2 ^ 53)
    (hproduct : IsRounding (f * c) product) (hp : value? product = some p) : p ≤ d := by
  have hcNonneg : 0 ≤ c := hspan.ge hc value?_zero hd
  rcases le_or_gt c d with hle | hlt
  · have hpart : f * c ≤ c := mul_le_of_le_one_left hcNonneg (by linarith)
    exact (hproduct.le hp hc hpart).trans hle
  -- The difference has been rounded upwards, to `r` units of its last place.
  obtain ⟨hdPos, r, rfl, hr, hfull, hhalf⟩ := exists_units_of_lt hd hmultiple hspan hc hlt
  rcases (mul_nonneg hf hcNonneg).eq_or_lt with hzero | hpos
  · rw [← hzero] at hproduct
    exact (hproduct.le hp value?_zero le_rfl).trans hd
  obtain ⟨s, hs, hsHigh, rfl⟩ := hproduct.exists_significand hp hpos
  have hunit := two_zpow_pos (Format.binary64.place d)
  have hunits : f * r < r - 1 / 2 := part_lt_units hf' hr
  have hpart : f * (r * 2 ^ Format.binary64.place d) ≤ d := by
    rw [← mul_assoc]
    exact (mul_le_mul_of_nonneg_right hunits.le hunit.le).trans hhalf
  rcases (Format.place_mono (f := .binary64) hpos hpart).eq_or_lt with hsame | hlower
  · -- The part has the same place: it is rounded to fewer than `r` units.
    rw [hsame, ← mul_assoc, mul_two_zpow_mul_neg] at hs
    have hsLower := hs.lower
    have hfewer : s < r := by
      have hcast : (s : ℚ) < r := by linarith
      exact_mod_cast hcast
    have hstep : (s : ℚ) + 1 ≤ r := by exact_mod_cast hfewer
    rw [hsame]
    exact (mul_le_mul_of_nonneg_right (by linarith) hunit.le).trans hhalf
  · -- In a lower place even a full significand is not more than `2 ^ 52` units.
    have hsCast : (s : ℚ) ≤ 2 ^ (53 : ℤ) := by exact_mod_cast hsHigh
    set lower := Format.binary64.place (f * (r * 2 ^ Format.binary64.place d))
    calc (s : ℚ) * 2 ^ lower
        ≤ 2 ^ (53 : ℤ) * 2 ^ lower := mul_le_mul_of_nonneg_right hsCast (two_zpow_pos lower).le
      _ = 2 ^ (53 + lower) := (zpow_add₀ two_ne_zero _ _).symm
      _ ≤ 2 ^ (52 + Format.binary64.place d) := zpow_le_zpow_right₀ one_le_two (by omega)
      _ = 2 ^ (52 : ℤ) * 2 ^ Format.binary64.place d := zpow_add₀ two_ne_zero _ _
      _ ≤ d := hfull

end Double

namespace Stream

open Double

variable {s : Stream} {high low n : ℕ} {lo hi x : Float} {d f : ℚ}

/-! ## The fraction -/

/-- The fraction whose bits are those of two naturals, `high` before `low`, computed in doubles. -/
def fractionOf (high low : ℕ) : Float :=
  (ofRatio false high 1 * 134217728.0 + ofRatio false low 1) / 9007199254740992.0

theorem div_two_pow_53 (n : ℕ) : (n : ℚ) / 2 ^ 53 = n * 2 ^ (-53 : ℤ) := by
  rw [div_eq_mul_inv, zpow_neg]
  rfl

theorem value?_two_pow_27 : value? 134217728.0 = some (2 ^ 27) := by
  have hread : reading 134217728.0 = .finite false (2 ^ 52) (-25) := by decide +kernel
  rw [value?_of_reading hread]
  norm_num [signed]

/-- The product, the sum and the quotient are all short enough not to be rounded. -/
theorem value?_fractionOf (hhigh : high < 2 ^ 26) (hlow : low < 2 ^ 27) :
    value? (ofRatio false high 1 * 134217728.0) = some ((high * 2 ^ 27 : ℕ) : ℚ) ∧
      value? (ofRatio false high 1 * 134217728.0 + ofRatio false low 1) =
        some ((high * 2 ^ 27 + low : ℕ) : ℚ) ∧
      value? (fractionOf high low) = some (((high * 2 ^ 27 + low : ℕ) : ℚ) / 2 ^ 53) := by
  have hproduct := IsRounding.mul (value?_ofRatio_one (n := high) (by omega)) value?_two_pow_27
  have hproductNat : (high : ℚ) * 2 ^ 27 = (high * 2 ^ 27 : ℕ) := by
    rw [Nat.cast_mul, Nat.cast_pow, Nat.cast_two]
  rw [hproductNat] at hproduct
  have hproductValue := value?_of_natCast hproduct (by omega)
  have hsum := IsRounding.add hproductValue (value?_ofRatio_one (n := low) (by omega))
  rw [← Nat.cast_add] at hsum
  have hsumValue := value?_of_natCast hsum (by omega)
  have hquotient := IsRounding.div hsumValue value?_two_pow_53 (by positivity)
  rw [div_two_pow_53] at hquotient ⊢
  exact ⟨hproductValue, hsumValue, value?_of_short hquotient (by omega) (by decide) (by decide)⟩

theorem ofRatio_eq_fractionOf (hhigh : high < 2 ^ 26) (hlow : low < 2 ^ 27) :
    ofRatio false (high * 2 ^ 27 + low) (2 ^ 53) = fractionOf high low := by
  have hfraction := (value?_fractionOf hhigh hlow).2.2
  rcases Nat.eq_zero_or_pos (high * 2 ^ 27 + low) with hzero | hpos
  · obtain ⟨rfl, rfl⟩ : high = 0 ∧ low = 0 := by omega
    -- Both are the zero without a sign.
    have hbits : (ofRatio false (0 * 2 ^ 27 + 0) (2 ^ 53)).toBits = (fractionOf 0 0).toBits := by
      decide +kernel
    exact Float.toBits_inj.mp hbits
  · have hround := isRounding_ofRatio false (high * 2 ^ 27 + low) (Nat.two_pow_pos 53)
    have hshort : signed false (((high * 2 ^ 27 + low : ℕ) : ℚ) / (2 ^ 53 : ℕ)) =
        (high * 2 ^ 27 + low : ℕ) * 2 ^ (-53 : ℤ) := by
      rw [Nat.cast_pow, Nat.cast_two, div_two_pow_53]
      rfl
    rw [hshort] at hround
    have hvalue := value?_of_short hround (by omega) (by decide) (by decide)
    rw [← div_two_pow_53] at hvalue
    refine eq_of_value? hvalue hfraction (div_pos ?_ (by positivity)).ne'
    exact_mod_cast hpos

/-- The numerator of the fraction is made of the lowest 26 bits of one output and 27 of the next. -/
theorem exists_fraction (hs : s.Ready) : ∃ high low : ℕ, high < 2 ^ 26 ∧ low < 2 ^ 27 ∧
    s.fractionNumerator = .ok (high * 2 ^ 27 + low) ∧ s.fraction = .ok (fractionOf high low) := by
  obtain ⟨word, hword⟩ := output_of_ready hs
  obtain ⟨word', hword'⟩ := output_of_ready (ready_next s)
  have hhigh : (word &&& 0x03ffffff).toNat < 2 ^ 26 := by
    rw [UInt32.toNat_and]
    exact Nat.and_lt_two_pow _ (by decide)
  have hlow : (word' &&& 0x07ffffff).toNat < 2 ^ 27 := by
    rw [UInt32.toNat_and]
    exact Nat.and_lt_two_pow _ (by decide)
  have hnumerator : s.fractionNumerator =
      .ok ((word &&& 0x03ffffff).toNat * 2 ^ 27 + (word' &&& 0x07ffffff).toNat) := by
    simp only [fractionNumerator, hword, hword']
    rfl
  refine ⟨_, _, hhigh, hlow, hnumerator, ?_⟩
  rw [← ofRatio_eq_fractionOf hhigh hlow, fraction, hnumerator]
  rfl

/-! ## The range -/

theorem draw_eq {fraction : Float} (h : s.fraction = .ok fraction) (lo hi : Float) :
    s.draw (.number (.real lo)) (.number (.real hi)) =
      .ok (fraction * (hi - lo).abs + lo, s.next.next) := by
  simp only [draw, h, Value.toReal, Number.toReal]
  rfl

/-- A part of a finite difference, added to the lower end, stays between the ends. -/
theorem between_of_isFinite {fraction : Float} (hfraction : value? fraction = some f) (hf : 0 ≤ f)
    (hf' : f ≤ 1 - 1 / 2 ^ 53) (hlo : lo.isFinite = true) (hhi : hi.isFinite = true) (hle : lo ≤ hi)
    (hspan : (hi - lo).isFinite = true) :
    (fraction * (hi - lo).abs + lo).isFinite = true ∧ lo ≤ fraction * (hi - lo).abs + lo ∧
      fraction * (hi - lo).abs + lo ≤ hi := by
  obtain ⟨v, hv⟩ := (isFinite_iff lo).mp hlo
  obtain ⟨w, hw⟩ := (isFinite_iff hi).mp hhi
  obtain ⟨c, hc⟩ := (isFinite_iff _).mp hspan
  have hvw : v ≤ w := (le_iff hv hw).mp hle
  have hdifference := IsRounding.sub hw hv
  have hcNonneg : 0 ≤ c := hdifference.ge hc value?_zero (sub_nonneg.mpr hvw)
  have habs := value?_abs hc
  rw [abs_of_nonneg hcNonneg] at habs
  have hproduct := IsRounding.mul hfraction habs
  have hpart : f * c ≤ c := mul_le_of_le_one_left hcNonneg (by linarith)
  obtain ⟨p, hp, hpNonneg, -⟩ :=
    hproduct.between value?_zero habs (mul_nonneg hf hcNonneg) hpart
  have hmultiple : ∃ k : ℤ, w - v = k * 2 ^ (-1074 : ℤ) := by
    obtain ⟨k, rfl⟩ := exists_multiple hw
    obtain ⟨l, rfl⟩ := exists_multiple hv
    exact ⟨k - l, by rw [Int.cast_sub, sub_mul]⟩
  have hreach : p ≤ w - v :=
    part_le_difference (sub_nonneg.mpr hvw) hmultiple hdifference hc hf hf' hproduct hp
  obtain ⟨y, hy, hvy, hyw⟩ :=
    (IsRounding.add hp hv).between hv hw (by linarith) (by linarith)
  exact ⟨(isFinite_iff _).mpr ⟨y, hy⟩, (le_iff hv hy).mpr hvy, (le_iff hy hw).mpr hyw⟩

/-- A finite draw comes from a finite difference. -/
theorem isFinite_difference {fraction : Float}
    (h : (fraction * (hi - lo).abs + lo).isFinite = true) : (hi - lo).isFinite = true :=
  isFinite_of_abs ((isFinite_iff _).mpr (exists_value?_of_mul (isFinite_of_add h).1).2)

/-- A draw between finite doubles stays between them exactly if their difference is finite.  The
fraction that it takes of the difference is computed without rounding, from 53 bits of two
outputs, and is at least zero and less than one. -/
theorem draw_within_iff (hs : s.IsWord) (hlo : lo.isFinite = true) (hhi : hi.isFinite = true)
    (hle : lo ≤ hi) :
    ∃ high low : ℕ, high < 2 ^ 26 ∧ low < 2 ^ 27 ∧
      s.fractionNumerator = .ok (high * 2 ^ 27 + low) ∧ s.fraction = .ok (fractionOf high low) ∧
      value? (ofRatio false high 1 * 134217728.0) = some ((high * 2 ^ 27 : ℕ) : ℚ) ∧
      value? (ofRatio false high 1 * 134217728.0 + ofRatio false low 1) =
        some ((high * 2 ^ 27 + low : ℕ) : ℚ) ∧
      value? (fractionOf high low) = some (((high * 2 ^ 27 + low : ℕ) : ℚ) / 2 ^ 53) ∧
      0 ≤ ((high * 2 ^ 27 + low : ℕ) : ℚ) / 2 ^ 53 ∧
      ((high * 2 ^ 27 + low : ℕ) : ℚ) / 2 ^ 53 < 1 ∧
      ∃ x, s.draw (.number (.real lo)) (.number (.real hi)) = .ok (x, s.next.next) ∧
        ((x.isFinite = true ∧ lo ≤ x ∧ x ≤ hi) ↔ (hi - lo).isFinite = true) := by
  obtain ⟨high, low, hhigh, hlow, hnumerator, hfraction⟩ := exists_fraction (ready_of_nonneg hs.1)
  obtain ⟨hproduct, hsum, hvalue⟩ := value?_fractionOf hhigh hlow
  have hnonneg : (0 : ℚ) ≤ ((high * 2 ^ 27 + low : ℕ) : ℚ) / 2 ^ 53 := by positivity
  have hbound : ((high * 2 ^ 27 + low : ℕ) : ℚ) / 2 ^ 53 ≤ 1 - 1 / 2 ^ 53 := by
    have hlt : high * 2 ^ 27 + low + 1 ≤ 2 ^ 53 := by omega
    have hcast : ((high * 2 ^ 27 + low : ℕ) : ℚ) + 1 ≤ 2 ^ 53 := by exact_mod_cast hlt
    rw [div_le_iff₀ (by positivity), sub_mul, one_mul, div_mul_cancel₀ _ (by positivity)]
    linarith
  have hone : ((high * 2 ^ 27 + low : ℕ) : ℚ) / 2 ^ 53 < 1 :=
    hbound.trans_lt (sub_lt_self _ (by positivity))
  refine ⟨high, low, hhigh, hlow, hnumerator, hfraction, hproduct, hsum, hvalue, hnonneg, hone,
    _, draw_eq hfraction lo hi, fun h => isFinite_difference h.1, fun h => ?_⟩
  exact between_of_isFinite hvalue hnonneg hbound hlo hhi hle h

/-- Between neighbouring doubles a draw is one of the two. -/
theorem draw_neighbours :
    (ofSeed 0).IsWord ∧ (1.0 : Float).isFinite = true ∧
      (1.0000000000000002 : Float).isFinite = true ∧ (1.0 : Float) ≤ 1.0000000000000002 ∧
      ∃ x, (ofSeed 0).draw (.number (.real 1.0)) (.number (.real 1.0000000000000002)) =
          .ok (x, (ofSeed 0).next.next) ∧
        x.isFinite = true ∧ 1.0 ≤ x ∧ x ≤ 1.0000000000000002 := by
  have hword : (ofSeed 0).IsWord := isWord_next _
  have hlo : (1.0 : Float).isFinite = true := by decide
  have hhi : (1.0000000000000002 : Float).isFinite = true := by decide +kernel
  have hle : (1.0 : Float) ≤ 1.0000000000000002 := by decide +kernel
  obtain ⟨-, -, -, -, -, -, -, -, -, -, -, x, hdraw, hwithin⟩ := draw_within_iff hword hlo hhi hle
  exact ⟨hword, hlo, hhi, hle, x, hdraw, hwithin.mpr (by decide +kernel)⟩

/-- Finite ends can be too far apart for a draw between them. -/
theorem draw_far_apart :
    (ofSeed 0).IsWord ∧ (-1e308 : Float).isFinite = true ∧ (1e308 : Float).isFinite = true ∧
      (-1e308 : Float) ≤ 1e308 ∧
      ∃ x, (ofSeed 0).draw (.number (.real (-1e308))) (.number (.real 1e308)) =
          .ok (x, (ofSeed 0).next.next) ∧ x.isFinite = false := by
  have hword : (ofSeed 0).IsWord := isWord_next _
  obtain ⟨high, low, -, -, -, hfraction⟩ := exists_fraction (ready_of_nonneg hword.1)
  have hinfinite : ((1e308 : Float) - -1e308).isFinite = false := by decide +kernel
  refine ⟨hword, by decide +kernel, by decide +kernel, by decide +kernel, _,
    draw_eq hfraction _ _, Bool.eq_false_iff.mpr fun h => ?_⟩
  rw [isFinite_difference h] at hinfinite
  cases hinfinite

end Stream
end SeededSketch
