import SeededSketch.Shape
import SeededSketch.Proofs.Order
import SeededSketch.Proofs.Precision
import SeededSketch.Proofs.Signs

/-!
# Hues

A hue is stored as a part of a full turn: at least zero, less than one, and without a minus sign
even where it is zero (`IsTurn`).  Degrees come as any finite double, and three things stand between
them and the turn.

* The quotient by 360 is rounded, and finite: it is not farther from zero than the degrees are.
* The fraction of a double is exact.  What lies below a full turn lies below it by at least one unit
  in the last place of the fraction (`value?_fraction`), which is not less than the least positive
  double.
* A negative fraction is brought up by one and rounded.  So the sum is at least that least double,
  and therefore not zero; but it may round up to a full turn, and only then is it folded to zero.
-/

namespace SeededSketch

namespace Double

variable {v : ℚ} {x : Float} {negative : Bool}

/-- A part of a full turn, as hues are kept. -/
structure IsTurn (x : Float) : Prop where
  nonneg : 0.0 ≤ x
  lt_one : x < 1.0
  isNegative : Double.isNegative x = false

/-! ## Fractions -/

/-- A quotient by a power of two is exact, as long as its numerator is short. -/
theorem value?_ofRatio_twoPow (negative : Bool) {k n : ℕ} (hk : k < 2 ^ 53) (hn : n ≤ 1074) :
    value? (ofRatio negative k (twoPow n)) = some (signed negative ((k : ℚ) * 2 ^ (-(n : ℤ)))) := by
  have hpositive : value? (ofRatio false k (twoPow n)) = some ((k : ℚ) * 2 ^ (-(n : ℤ))) := by
    refine value?_of_short ?_ hk (by omega) (by omega)
    have h := isRounding_ofRatio false k (Nat.two_pow_pos n)
    rwa [signed, if_neg Bool.false_ne_true, Nat.cast_pow, Nat.cast_two, div_eq_mul_inv,
      ← zpow_natCast, ← zpow_neg] at h
  cases negative with
  | false => exact hpositive
  | true => exact (congrArg value? (ofRatio_not false k (twoPow n))).trans (value?_neg hpositive)

/-- The numerator of a fraction, over a power of two, is less than its denominator. -/
theorem value?_fraction (h : value? x = some v) :
    ∃ negative, ∃ k n : ℕ, n ≤ 1074 ∧ k < 2 ^ n ∧
      value? (fraction x) = some (signed negative ((k : ℚ) * 2 ^ (-(n : ℤ)))) := by
  obtain ⟨negative, w, hw, hbits, -⟩ := exists_word h
  have hread : reading x = .finite negative (Format.binary64.mantissa w)
      (Format.binary64.exponent w) := by
    rw [reading, hbits, Format.read_eq negative hw]
  have hshort : Format.binary64.mantissa w < 2 ^ 53 := Format.mantissa_lt _ w
  have hlowest : -1074 ≤ Format.binary64.exponent w := Format.lowest_le_exponent _ w
  have hfraction : fraction x = ofRatio negative
      ((ratioOf (Format.binary64.mantissa w) (Format.binary64.exponent w)).1 %
        (ratioOf (Format.binary64.mantissa w) (Format.binary64.exponent w)).2)
      (ratioOf (Format.binary64.mantissa w) (Format.binary64.exponent w)).2 := by
    rw [fraction, hread]
  rw [ratioOf, scaleRatio] at hfraction
  split at hfraction
  · rw [Nat.mod_one] at hfraction
    exact ⟨negative, 0, 0, Nat.zero_le _, Nat.one_pos,
      hfraction ▸ value?_ofRatio_twoPow negative (n := 0) (by decide) (Nat.zero_le _)⟩
  · rw [Nat.one_mul] at hfraction
    have hless := Nat.mod_lt (Format.binary64.mantissa w)
      (Nat.two_pow_pos (-Format.binary64.exponent w).toNat)
    have hle := Nat.mod_le (Format.binary64.mantissa w)
      (2 ^ (-Format.binary64.exponent w).toNat)
    refine ⟨negative, _, (-Format.binary64.exponent w).toNat, by omega, hless, ?_⟩
    rw [hfraction]
    exact value?_ofRatio_twoPow negative (hle.trans_lt hshort) (by omega)

/-! ## Remainders by one -/

/-- The least positive double. -/
theorem value?_least : value? 5e-324 = some (2 ^ (-1074 : ℤ)) := by
  have hread : reading 5e-324 = .finite false 1 (-1074) := by decide +kernel
  rw [value?_of_reading hread, Nat.cast_one, one_mul]
  rfl

/-- What is left to a full turn is at least the least positive double. -/
theorem least_le_one_sub {k n : ℕ} (hn : n ≤ 1074) (hk : k < 2 ^ n) :
    (2 : ℚ) ^ (-1074 : ℤ) ≤ 1 - k * 2 ^ (-(n : ℤ)) := by
  have hunit : (2 : ℚ) ^ n * 2 ^ (-(n : ℤ)) = 1 := by
    rw [← zpow_natCast, ← zpow_add₀ two_ne_zero, add_neg_cancel, zpow_zero]
  have hstep : ((k : ℚ) + 1) ≤ 2 ^ n := by exact_mod_cast hk
  calc (2 : ℚ) ^ (-1074 : ℤ) ≤ 2 ^ (-(n : ℤ)) := zpow_le_zpow_right₀ one_le_two (by omega)
    _ = ((k : ℚ) + 1) * 2 ^ (-(n : ℤ)) - k * 2 ^ (-(n : ℤ)) := by ring
    _ ≤ 2 ^ n * 2 ^ (-(n : ℤ)) - k * 2 ^ (-(n : ℤ)) :=
        sub_le_sub_right (mul_le_mul_of_nonneg_right hstep (two_zpow_pos _).le) _
    _ = 1 - k * 2 ^ (-(n : ℤ)) := by rw [hunit]

/-- The remainder of a finite double by one is a number, and its sign bit is clear. -/
theorem value?_modOne (h : value? x = some v) :
    ∃ w, value? (modOne x) = some w ∧ 0 ≤ w ∧ isNegative (modOne x) = false := by
  obtain ⟨negative, k, n, hn, hk, hfraction⟩ := value?_fraction h
  rw [modOne]
  split
  · exact ⟨0, value?_zero, le_rfl, isNegative_of_finite reading_zero⟩
  · rename_i hzero
    rw [beq_zero_iff, hfraction] at hzero
    split
    · -- Below zero: the sum with one is rounded, between the least double and one.
      rename_i hnegative
      rw [lt_iff hfraction value?_zero] at hnegative
      have hsum : signed negative ((k : ℚ) * 2 ^ (-(n : ℤ))) = -(k * 2 ^ (-(n : ℤ))) := by
        cases negative with
        | false => exact absurd hnegative (not_lt.mpr (units_nonneg k _))
        | true => rfl
      rw [hsum] at hfraction hnegative
      have hleast := least_le_one_sub hn hk
      obtain ⟨w, hw, hlow, -⟩ := (IsRounding.add hfraction value?_one).between value?_least
        value?_one (by linarith) (by linarith)
      have hpos : 0 < w := (two_zpow_pos _).trans_le hlow
      exact ⟨w, hw, hpos.le, isNegative_of_pos hw hpos⟩
    · rename_i hnonneg
      rw [lt_iff hfraction value?_zero, not_lt] at hnonneg
      have hpos := lt_of_le_of_ne hnonneg fun heq => hzero (congrArg some heq.symm)
      exact ⟨_, hfraction, hnonneg, isNegative_of_pos hfraction hpos⟩

end Double

open Double

/-! ## Turns of degrees -/

theorem value?_fullTurn : value? 360.0 = some 360 := by
  have hread : reading 360.0 = .finite false 6333186975989760 (-44) := by decide +kernel
  rw [value?_of_reading hread]
  norm_num [signed]

theorem isTurn_turnOfDegrees {degrees : Float} (h : degrees.isFinite = true) :
    IsTurn (turnOfDegrees degrees) := by
  obtain ⟨v, hv⟩ := (isFinite_iff degrees).mp h
  have hquotient : |v / 360| ≤ |v| := by
    rw [abs_div, abs_of_pos (by norm_num : (0 : ℚ) < 360)]
    exact div_le_self (abs_nonneg v) (by norm_num)
  obtain ⟨low, high⟩ := abs_le.mp hquotient
  obtain ⟨q, hq, -, -⟩ := (IsRounding.div hv value?_fullTurn (by norm_num)).between
    (value?_neg (value?_abs hv)) (value?_abs hv) low high
  obtain ⟨w, hw, hnonneg, hsign⟩ := value?_modOne hq
  rw [turnOfDegrees]
  split
  · exact ⟨(le_iff value?_zero value?_zero).mpr le_rfl,
      (lt_iff value?_zero value?_one).mpr one_pos, isNegative_of_finite reading_zero⟩
  · rename_i hfold
    rw [le_iff value?_one hw, not_le] at hfold
    exact ⟨(le_iff value?_zero hw).mpr hnonneg, (lt_iff hw value?_one).mpr hfold, hsign⟩

/-- The remainder of a tiny negative angle rounds to a full turn, which is folded to zero. -/
example : modOne (-1e-20 / 360.0) = 1.0 ∧ turnOfDegrees (-1e-20) = 0.0 := by
  constructor <;> rw [← Float.toBits_inj] <;> decide +kernel

/-! ## Colours of paints -/

namespace Paint

variable {hue saturation lightness alpha : Expr} {c c₁ c₂ : Context} {color : Color}

/-- The hue of a colour comes from the first part of its paint, whatever the other parts are. -/
theorem hue_of_evaluate {h : Value} {degrees : Float} (hhue : hue.evaluate c = .ok (h, c₁))
    (hdegrees : h.toReal = .ok degrees)
    (hcolor : (hsla hue saturation lightness alpha).evaluate c = .ok (color, c₂)) :
    color.hue = turnOfDegrees degrees := by
  obtain ⟨first, hfirst, hcolor⟩ := bind_eq_ok hcolor
  obtain ⟨s, -, hcolor⟩ := bind_eq_ok hcolor
  obtain ⟨l, -, hcolor⟩ := bind_eq_ok hcolor
  obtain ⟨a, -, hcolor⟩ := bind_eq_ok hcolor
  obtain ⟨x, hx, hcolor⟩ := bind_eq_ok hcolor
  obtain ⟨saturation, -, hcolor⟩ := bind_eq_ok hcolor
  obtain ⟨lightness, -, hcolor⟩ := bind_eq_ok hcolor
  obtain ⟨alpha, -, hcolor⟩ := bind_eq_ok hcolor
  cases hcolor
  rw [hhue] at hfirst
  cases hfirst
  rw [hdegrees] at hx
  cases hx
  rfl

/-- A paint has a colour where its hue can be evaluated, and then its other parts in order. -/
theorem exists_color {h : Value} {values : List Value} (hc : c.memo.IsReal)
    (hhue : hue.evaluate c = .ok (h, c₁))
    (hrest : Expr.inOrder [saturation, lightness, alpha] c₁ = .ok (values, c₂)) :
    ∃ color, (hsla hue saturation lightness alpha).evaluate c = .ok (color, c₂) := by
  obtain ⟨⟨degrees, rfl⟩, hc₁⟩ := Expr.isReal_of_evaluate hue hc hhue
  have hreal := (Expr.isReal_of_inOrder _ hc₁ hrest).1
  obtain ⟨s, _, d₂, hs, h₂, rfl⟩ := Expr.exists_of_inOrder_cons hrest
  obtain ⟨l, _, d₃, hl, h₃, rfl⟩ := Expr.exists_of_inOrder_cons h₂
  obtain ⟨a, _, d₄, ha, h₄, rfl⟩ := Expr.exists_of_inOrder_cons h₃
  cases h₄
  simp only [List.forall_mem_cons] at hreal
  obtain ⟨⟨x, rfl⟩, ⟨y, rfl⟩, ⟨z, rfl⟩, -⟩ := hreal
  refine ⟨.ofDegrees degrees x y z, ?_⟩
  simp only [evaluate, hhue, hs, hl, ha, ok_bind, Value.toReal, Number.toReal, pure, Except.pure]

/-- Every finite number of degrees is stored as a part of a full turn: by colours that are given the
degrees, and by the colour of each paint whose hue is finite where it is evaluated.  And such a
paint has a colour as soon as its other three parts can be evaluated after the hue. -/
theorem isTurn_hue :
    (∀ degrees saturation lightness alpha : Float, degrees.isFinite = true →
      IsTurn (Color.ofDegrees degrees saturation lightness alpha).hue) ∧
    ∀ (hue saturation lightness alpha : Expr) (c c₁ : Context) (h : Value) (degrees : Float),
      hue.evaluate c = .ok (h, c₁) → h.toReal = .ok degrees → degrees.isFinite = true →
      (∀ color c₂, (hsla hue saturation lightness alpha).evaluate c = .ok (color, c₂) →
        IsTurn color.hue) ∧
      (c.memo.IsReal → ∀ values c₂,
        Expr.inOrder [saturation, lightness, alpha] c₁ = .ok (values, c₂) →
        ∃ color, (hsla hue saturation lightness alpha).evaluate c = .ok (color, c₂) ∧
          IsTurn color.hue) := by
  refine ⟨fun degrees _ _ _ h => isTurn_turnOfDegrees h, ?_⟩
  intro hue saturation lightness alpha c c₁ h degrees hhue hdegrees hfinite
  have hturn {color : Color} {c₂ : Context}
      (hcolor : (hsla hue saturation lightness alpha).evaluate c = .ok (color, c₂)) :
      IsTurn color.hue := by
    rw [hue_of_evaluate hhue hdegrees hcolor]
    exact isTurn_turnOfDegrees hfinite
  refine ⟨fun color c₂ hcolor => hturn hcolor, fun hc values c₂ hvalues => ?_⟩
  obtain ⟨color, hcolor⟩ := exists_color hc hhue hvalues
  exact ⟨color, hcolor, hturn hcolor⟩

/-- The least negative double, and a paint whose hue is far below zero, before two draws. -/
theorem isTurn_hue_negative :
    IsTurn (Color.ofDegrees (-5e-324) 1.0 0.5 1.0).hue ∧
    let hue : Expr := .combined .sub (.ofReal (-1e300)) (.ofReal 1.0)
    let drawn : Expr := .random (.number (.real 0.0)) (.number (.real 1.0))
    ∃ color c, (hsla hue drawn drawn (.ofReal 1.0)).evaluate (.fresh (.ofSeed 1)) = .ok (color, c) ∧
      IsTurn color.hue := by
  refine ⟨isTurn_hue.1 _ _ _ _ (by decide +kernel), ?_⟩
  intro hue drawn
  have hmemo : (Context.fresh (.ofSeed 1)).memo.IsReal := Memo.isReal_empty
  obtain ⟨-, h⟩ := isTurn_hue.2 hue drawn drawn (.ofReal 1.0) (.fresh (.ofSeed 1))
    (.fresh (.ofSeed 1)) _ _ rfl rfl (by decide +kernel)
  obtain ⟨color, hcolor⟩ := h hmemo _ _ rfl
  exact ⟨color, _, hcolor⟩

end Paint
end SeededSketch
