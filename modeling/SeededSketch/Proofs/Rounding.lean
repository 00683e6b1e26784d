import Mathlib
import SeededSketch.Number.Format

/-!
# Rounding to a format

`Format.round` computes with quotients of naturals.  Here it is described by the rational number
that the quotient stands for.  `IsNearest` says which natural a rational is rounded to, a tie going
to the even one, and `IsNearestInt` which integer; `Format.place` is the weight of the last place
that a number of its size has in a format; and `round_eq` puts the first and the last together.

Below infinity, the words without a sign are in the order of the numbers that they denote
(`value_le_iff`).  Rounding keeps the order (`round_mono`) and leaves the numbers of the format
alone (`round_value`).  So it never carries a number past one that the format has, which is all that
most arguments about rounded results need.
-/

namespace SeededSketch

/-! ## The nearest integer -/

/-- The integer `k` is nearest to `v`; where there are two nearest ones, it is the even one. -/
structure IsNearestInt (v : ℚ) (k : ℤ) : Prop where
  near : |v - k| ≤ 1 / 2
  even : |v - k| = 1 / 2 → Even k

namespace IsNearestInt

variable {v w : ℚ} {k l : ℤ}

theorem mono (hk : IsNearestInt v k) (hl : IsNearestInt w l) (h : v ≤ w) : k ≤ l := by
  by_contra hlt
  have hstep : (l : ℚ) + 1 ≤ k := by exact_mod_cast Int.not_le.mp hlt
  have hlower := (abs_sub_le_iff.mp hk.near).2
  have hupper := (abs_sub_le_iff.mp hl.near).1
  -- Only a tie between neighbours is left, and they cannot both be even.
  have hv : v - k = -(1 / 2) := by linarith
  have hw : w - l = 1 / 2 := by linarith
  have hnext : k = l + 1 := by
    have hcast : (k : ℚ) = l + 1 := by linarith
    exact_mod_cast hcast
  have hkeven := hk.even (by rw [hv, abs_neg, abs_of_pos one_half_pos])
  have hleven := hl.even (by rw [hw, abs_of_pos one_half_pos])
  rw [hnext, Int.even_add_one] at hkeven
  exact hkeven hleven

theorem unique (hk : IsNearestInt v k) (hl : IsNearestInt v l) : k = l :=
  (hk.mono hl le_rfl).antisymm (hl.mono hk le_rfl)

theorem intCast (k : ℤ) : IsNearestInt k k := by
  refine ⟨by rw [sub_self, abs_zero]; exact one_half_pos.le, fun h => ?_⟩
  rw [sub_self, abs_zero] at h
  exact absurd h one_half_pos.ne

theorem neg (h : IsNearestInt v k) : IsNearestInt (-v) (-k) := by
  have hdistance : |-v - (-k : ℤ)| = |v - k| := by
    rw [Int.cast_neg, neg_sub_neg, abs_sub_comm]
  exact ⟨hdistance.trans_le h.near, fun htie => (h.even (hdistance.symm.trans htie)).neg⟩

end IsNearestInt

/-! ## The nearest natural -/

/-- The natural `k` is nearest to `v`; where there are two nearest ones, it is the even one. -/
structure IsNearest (v : ℚ) (k : ℕ) : Prop where
  lower : (k : ℚ) - 1 / 2 ≤ v
  upper : v ≤ k + 1 / 2
  even : v = k - 1 / 2 ∨ v = k + 1 / 2 → k % 2 = 0

namespace IsNearest

variable {v w : ℚ} {k l : ℕ}

theorem isNearestInt (h : IsNearest v k) : IsNearestInt v k := by
  have hlower := h.lower
  have hupper := h.upper
  rw [← Int.cast_natCast k] at hlower hupper
  refine ⟨abs_sub_le_iff.mpr ⟨by linarith, by linarith⟩, fun htie => ?_⟩
  refine (Int.even_coe_nat k).mpr (Nat.even_iff.mpr (h.even ?_))
  rw [← Int.cast_natCast k]
  rcases eq_or_eq_neg_of_abs_eq htie with hhigh | hlow
  · exact .inr (by linarith)
  · exact .inl (by linarith)

theorem mono (hk : IsNearest v k) (hl : IsNearest w l) (h : v ≤ w) : k ≤ l :=
  Int.ofNat_le.mp (hk.isNearestInt.mono hl.isNearestInt h)

theorem unique (hk : IsNearest v k) (hl : IsNearest v l) : k = l :=
  Nat.le_antisymm (hk.mono hl le_rfl) (hl.mono hk le_rfl)

theorem natCast (k : ℕ) : IsNearest k k := by
  refine ⟨by linarith, by linarith, fun h => ?_⟩
  rcases h with h | h <;> linarith

theorem le_natCast (hk : IsNearest v k) (h : v ≤ l) : k ≤ l := hk.mono (natCast l) h

theorem natCast_le (hk : IsNearest v k) (h : l ≤ v) : l ≤ k := (natCast l).mono hk h

end IsNearest

theorem isNearest_roundDiv (num : ℕ) {den : ℕ} (hden : 0 < den) :
    IsNearest (num / den) (roundDiv num den) := by
  have hd : (0 : ℚ) < den := by exact_mod_cast hden
  have hsplit : (num : ℚ) / den = (num / den : ℕ) + (num % den : ℕ) / den := by
    rw [eq_comm, ← sub_eq_zero]
    field_simp
    have h : (den : ℚ) * (num / den : ℕ) + (num % den : ℕ) = num := by
      exact_mod_cast Nat.div_add_mod num den
    linarith
  have hlt : ((num % den : ℕ) : ℚ) / den < 1 := by
    rw [div_lt_one hd]
    exact_mod_cast Nat.mod_lt num hden
  have hnonneg : (0 : ℚ) ≤ (num % den : ℕ) / den := by positivity
  have hhalf : den < 2 * (num % den) ↔ 1 / 2 < ((num % den : ℕ) : ℚ) / den := by
    rw [div_lt_div_iff₀ two_pos hd, one_mul, mul_comm]
    exact_mod_cast Iff.rfl
  have htie : 2 * (num % den) = den ↔ ((num % den : ℕ) : ℚ) / den = 1 / 2 := by
    rw [div_eq_div_iff hd.ne' two_ne_zero, one_mul, mul_comm]
    exact_mod_cast Iff.rfl
  rw [hsplit, roundDiv]
  generalize ((num % den : ℕ) : ℚ) / den = fraction at *
  generalize num / den = quotient at *
  split
  · rename_i hup
    have hle : 1 / 2 ≤ fraction := by
      rcases hup with h | h
      · exact (hhalf.mp h).le
      · exact (htie.mp h.1).ge
    have hnext : ((quotient + 1 : ℕ) : ℚ) = quotient + 1 := Nat.cast_succ quotient
    refine ⟨by rw [hnext]; linarith, by rw [hnext]; linarith, fun h => ?_⟩
    rw [hnext] at h
    have hfraction : fraction = 1 / 2 := by rcases h with h | h <;> linarith
    rcases hup with hup | hup
    · rw [hhalf] at hup
      linarith
    · omega
  · rename_i hdown
    rw [not_or, not_and] at hdown
    have hle : fraction ≤ 1 / 2 := not_lt.mp (hhalf.not.mp hdown.1)
    refine ⟨by linarith, by linarith, fun h => ?_⟩
    have hfraction : fraction = 1 / 2 := by rcases h with h | h <;> linarith
    have hodd := hdown.2 (htie.mpr hfraction)
    omega

/-! ## Quotients and powers of two -/

theorem two_zpow_pos (n : ℤ) : (0 : ℚ) < 2 ^ n := zpow_pos two_pos n

/-- A number of units is not negative. -/
theorem units_nonneg (m : ℕ) (e : ℤ) : (0 : ℚ) ≤ m * 2 ^ e :=
  mul_nonneg (Nat.cast_nonneg m) (two_zpow_pos e).le

theorem units_pos {m : ℕ} (hm : 0 < m) (e : ℤ) : (0 : ℚ) < m * 2 ^ e :=
  mul_pos (by exact_mod_cast hm) (two_zpow_pos e)

theorem mul_two_zpow_mul_neg (v : ℚ) (e : ℤ) : v * 2 ^ e * 2 ^ (-e) = v := by
  rw [mul_assoc, ← zpow_add₀ two_ne_zero, add_neg_cancel, zpow_zero, mul_one]

theorem mul_two_zpow_neg_mul (v : ℚ) (e : ℤ) : v * 2 ^ (-e) * 2 ^ e = v := by
  rw [mul_assoc, ← zpow_add₀ two_ne_zero, neg_add_cancel, zpow_zero, mul_one]

theorem scaleRatio_den_pos (num : ℕ) {den : ℕ} (h : 0 < den) (shift : ℤ) :
    0 < (scaleRatio num den shift).2 := by
  unfold scaleRatio
  split
  · exact h
  · exact Nat.mul_pos h (Nat.two_pow_pos _)

theorem scaleRatio_eq (num den : ℕ) (shift : ℤ) :
    ((scaleRatio num den shift).1 : ℚ) / (scaleRatio num den shift).2 = num / den * 2 ^ shift := by
  have hcast (n : ℕ) : ((twoPow n : ℕ) : ℚ) = 2 ^ n := Nat.cast_pow 2 n
  unfold scaleRatio
  split
  · rename_i h
    obtain ⟨n, rfl⟩ := Int.eq_ofNat_of_zero_le h
    rw [Nat.cast_mul, Int.toNat_natCast, hcast, zpow_natCast, mul_div_right_comm]
  · rename_i h
    obtain ⟨n, hn⟩ := Int.eq_ofNat_of_zero_le (show 0 ≤ -shift by omega)
    rw [Nat.cast_mul, hn, Int.toNat_natCast, hcast, show shift = -(n : ℤ) by omega, zpow_neg,
      zpow_natCast, ← div_div, ← div_eq_mul_inv]

theorem ratioOf_eq (mantissa : ℕ) (exponent : ℤ) :
    ((ratioOf mantissa exponent).1 : ℚ) / (ratioOf mantissa exponent).2 =
      mantissa * 2 ^ exponent := by
  rw [ratioOf, scaleRatio_eq, Nat.cast_one, div_one]

theorem ratioOf_den_pos (mantissa : ℕ) (exponent : ℤ) : 0 < (ratioOf mantissa exponent).2 :=
  scaleRatio_den_pos mantissa one_pos exponent

theorem floorLog2_eq {num den : ℕ} (hnum : 0 < num) (hden : 0 < den) :
    floorLog2 num den = Int.log 2 ((num : ℚ) / den) := by
  have hn : (0 : ℚ) < num := by exact_mod_cast hnum
  have hd : (0 : ℚ) < den := by exact_mod_cast hden
  have hv : (0 : ℚ) < num / den := div_pos hn hd
  have hnumLow : (2 : ℚ) ^ (num.log2 : ℤ) ≤ num := by
    rw [zpow_natCast]
    exact_mod_cast Nat.log2_self_le hnum.ne'
  have hnumHigh : (num : ℚ) < 2 ^ ((num.log2 : ℤ) + 1) := by
    exact_mod_cast Nat.lt_log2_self (n := num)
  have hdenLow : (2 : ℚ) ^ (den.log2 : ℤ) ≤ den := by
    rw [zpow_natCast]
    exact_mod_cast Nat.log2_self_le hden.ne'
  have hdenHigh : (den : ℚ) < 2 ^ ((den.log2 : ℤ) + 1) := by
    exact_mod_cast Nat.lt_log2_self (n := den)
  have hlow : (2 : ℚ) ^ ((num.log2 : ℤ) - den.log2 - 1) ≤ num / den := by
    rw [le_div_iff₀ hd]
    calc (2 : ℚ) ^ ((num.log2 : ℤ) - den.log2 - 1) * den
        ≤ 2 ^ ((num.log2 : ℤ) - den.log2 - 1) * 2 ^ ((den.log2 : ℤ) + 1) :=
          mul_le_mul_of_nonneg_left hdenHigh.le (two_zpow_pos _).le
      _ = 2 ^ (num.log2 : ℤ) := by
          rw [← zpow_add₀ two_ne_zero]
          congr 1
          ring
      _ ≤ num := hnumLow
  have hhigh : (num : ℚ) / den < 2 ^ ((num.log2 : ℤ) - den.log2 + 1) := by
    rw [div_lt_iff₀ hd]
    calc (num : ℚ) < 2 ^ ((num.log2 : ℤ) + 1) := hnumHigh
      _ = 2 ^ ((num.log2 : ℤ) - den.log2 + 1) * 2 ^ (den.log2 : ℤ) := by
          rw [← zpow_add₀ two_ne_zero]
          congr 1
          ring
      _ ≤ 2 ^ ((num.log2 : ℤ) - den.log2 + 1) * den :=
          mul_le_mul_of_nonneg_left hdenLow (two_zpow_pos _).le
  have hlogLow := (Int.zpow_le_iff_le_log (b := 2) one_lt_two hv).mp hlow
  have hlogHigh := (Int.lt_zpow_iff_log_lt (b := 2) one_lt_two hv).mp hhigh
  -- The two are next to each other, and comparing with the power between them decides.
  have hscaled := scaleRatio_eq num den (-((num.log2 : ℤ) - den.log2))
  have hpos : (0 : ℚ) < (scaleRatio num den (-((num.log2 : ℤ) - den.log2))).2 := by
    exact_mod_cast scaleRatio_den_pos num hden _
  have hbelow : (scaleRatio num den (-((num.log2 : ℤ) - den.log2))).1 <
      (scaleRatio num den (-((num.log2 : ℤ) - den.log2))).2 ↔
        Int.log 2 ((num : ℚ) / den) < (num.log2 : ℤ) - den.log2 := by
    rw [← Int.lt_zpow_iff_log_lt (b := 2) one_lt_two hv, ← Nat.cast_lt (α := ℚ),
      ← div_lt_one hpos, hscaled, zpow_neg, ← div_eq_mul_inv, div_lt_one (two_zpow_pos _)]
    rfl
  unfold floorLog2
  dsimp only
  split
  · rename_i h
    have hlt := hbelow.mp h
    omega
  · rename_i h
    have hle := hbelow.not.mp h
    omega

namespace Format

variable (f : Format)

/-! ## Rounding by the number -/

/-- The weight of the last place of a number as large as `v`. -/
def place (v : ℚ) : ℤ := max f.lowest (Int.log 2 v - f.fractionBits)

variable {f}

theorem lowest_le_place (v : ℚ) : f.lowest ≤ f.place v := le_max_left _ _

theorem place_mono {v w : ℚ} (hv : 0 < v) (h : v ≤ w) : f.place v ≤ f.place w := by
  have hlog := Int.log_mono_right (b := 2) hv h
  unfold place
  omega

theorem round_eq {num den r : ℕ} (hnum : 0 < num) (hden : 0 < den)
    (hr : IsNearest (num / den * 2 ^ (-f.place (num / den))) r) :
    f.round num den = min f.infinity
      ((f.place (num / den) - f.lowest).toNat * 2 ^ f.fractionBits + r) := by
  have hplace : max f.lowest (floorLog2 num den - f.fractionBits) = f.place (num / den) := by
    rw [floorLog2_eq hnum hden, place]
  have hnearest := isNearest_roundDiv (scaleRatio num den (-f.place (num / den))).1
    (scaleRatio_den_pos num hden (-f.place (num / den)))
  rw [scaleRatio_eq] at hnearest
  rw [round, if_neg hnum.ne']
  dsimp only
  rw [hplace, hnearest.unique hr]
  rfl

/-- In units of its last place a number has a significand of the full length at most. -/
theorem scaled_lt (v : ℚ) : v * 2 ^ (-f.place v) < 2 ^ (f.fractionBits + 1) := by
  have hlog : v < 2 ^ (Int.log 2 v + 1) := by
    exact_mod_cast Int.lt_zpow_succ_log_self (b := 2) one_lt_two v
  have hle : Int.log 2 v + 1 ≤ f.place v + (f.fractionBits + 1 : ℕ) := by
    unfold place
    push_cast
    omega
  rw [zpow_neg, ← div_eq_mul_inv, div_lt_iff₀ (two_zpow_pos _), mul_comm, ← zpow_natCast,
    ← zpow_add₀ two_ne_zero]
  exact hlog.trans_le (zpow_le_zpow_right₀ one_le_two hle)

/-- Above the lowest place the significand has the full length. -/
theorem le_scaled {v : ℚ} (hv : 0 < v) (h : f.lowest < f.place v) :
    2 ^ f.fractionBits ≤ v * 2 ^ (-f.place v) := by
  have hlog : (2 : ℚ) ^ Int.log 2 v ≤ v := by
    exact_mod_cast Int.zpow_log_le_self (b := 2) one_lt_two hv
  have hle : f.place v + (f.fractionBits : ℤ) ≤ Int.log 2 v := by
    unfold place at h ⊢
    omega
  rw [zpow_neg, ← div_eq_mul_inv, le_div_iff₀ (two_zpow_pos _), mul_comm, ← zpow_natCast,
    ← zpow_add₀ two_ne_zero]
  exact (zpow_le_zpow_right₀ one_le_two hle).trans hlog

theorem exists_isNearest {v : ℚ} (hv : 0 ≤ v) : ∃ r, IsNearest v r := by
  have hnearest := isNearest_roundDiv v.num.toNat v.den_pos
  have hvalue : ((v.num.toNat : ℕ) : ℚ) / v.den = v := by
    have hnum : ((v.num.toNat : ℕ) : ℚ) = v.num := by
      exact_mod_cast Int.toNat_of_nonneg (Rat.num_nonneg.mpr hv)
    rw [hnum, Rat.num_div_den]
  rw [hvalue] at hnearest
  exact ⟨_, hnearest⟩

/-- Rounding keeps the order of numbers. -/
theorem round_mono {num₁ den₁ num₂ den₂ : ℕ} (hden₁ : 0 < den₁) (hden₂ : 0 < den₂)
    (h : (num₁ : ℚ) / den₁ ≤ num₂ / den₂) : f.round num₁ den₁ ≤ f.round num₂ den₂ := by
  by_cases hzero : num₁ = 0
  · rw [hzero, round, if_pos rfl]
    exact Nat.zero_le _
  have hnum₁ : 0 < num₁ := Nat.pos_of_ne_zero hzero
  have hv₁ : (0 : ℚ) < num₁ / den₁ := by positivity
  have hv₂ : (0 : ℚ) < num₂ / den₂ := hv₁.trans_le h
  have hnum₂ : 0 < num₂ := by
    rcases Nat.eq_zero_or_pos num₂ with h₂ | h₂
    · rw [h₂, Nat.cast_zero, zero_div] at hv₂
      exact absurd hv₂ (lt_irrefl 0)
    · exact h₂
  obtain ⟨r₁, hr₁⟩ := exists_isNearest (mul_pos hv₁ (two_zpow_pos (-f.place (num₁ / den₁)))).le
  obtain ⟨r₂, hr₂⟩ := exists_isNearest (mul_pos hv₂ (two_zpow_pos (-f.place (num₂ / den₂)))).le
  rw [round_eq hnum₁ hden₁ hr₁, round_eq hnum₂ hden₂ hr₂]
  have hlowest := f.lowest_le_place (num₁ / den₁)
  rcases (place_mono (f := f) hv₁ h).eq_or_lt with hplace | hplace
  · -- The same place: the significands are in order.
    rw [hplace] at hr₁ ⊢
    have hr : r₁ ≤ r₂ := hr₁.mono hr₂ (mul_le_mul_of_nonneg_right h (two_zpow_pos _).le)
    exact min_le_min_left _ (Nat.add_le_add_left hr _)
  · -- A higher place: a carry of the first only reaches the full significand of the second.
    have hhigh : r₁ ≤ 2 ^ (f.fractionBits + 1) :=
      hr₁.le_natCast (by exact_mod_cast (scaled_lt (f := f) (num₁ / den₁ : ℚ)).le)
    have hlow : 2 ^ f.fractionBits ≤ r₂ :=
      hr₂.natCast_le (by exact_mod_cast le_scaled hv₂ (hlowest.trans_lt hplace))
    obtain ⟨gap, hgap⟩ : ∃ gap, (f.place (num₂ / den₂) - f.lowest).toNat =
        (f.place (num₁ / den₁) - f.lowest).toNat + 1 + gap :=
      Nat.exists_eq_add_of_le (by omega)
    refine min_le_min_left _ ?_
    rw [hgap, Nat.add_mul, Nat.add_mul, Nat.one_mul]
    rw [Nat.pow_succ] at hhigh
    omega

/-! ## The numbers of a format -/

variable (f)

/-- The significand of the number that a word without a sign denotes. -/
def mantissa (w : ℕ) : ℕ :=
  if w / 2 ^ f.fractionBits = 0 then w else w % 2 ^ f.fractionBits + 2 ^ f.fractionBits

/-- The weight of its last place. -/
def exponent (w : ℕ) : ℤ :=
  if w / 2 ^ f.fractionBits = 0 then f.lowest
  else f.lowest + (w / 2 ^ f.fractionBits : ℕ) - 1

/-- The number that a word without a sign denotes. -/
def value (w : ℕ) : ℚ := f.mantissa w * 2 ^ f.exponent w

variable {f} {w : ℕ}

theorem lowest_le_exponent (f : Format) (w : ℕ) : f.lowest ≤ f.exponent w := by
  unfold exponent
  generalize w / 2 ^ f.fractionBits = field
  split <;> omega

theorem mantissa_lt (f : Format) (w : ℕ) : f.mantissa w < 2 ^ (f.fractionBits + 1) := by
  have hpos := Nat.two_pow_pos f.fractionBits
  rw [Nat.pow_succ]
  unfold mantissa
  split
  · rename_i h
    have hlt := (Nat.div_eq_zero_iff_lt hpos).mp h
    omega
  · have hlt := Nat.mod_lt w hpos
    omega

theorem le_mantissa (h : f.lowest < f.exponent w) : 2 ^ f.fractionBits ≤ f.mantissa w := by
  unfold exponent at h
  unfold mantissa
  split
  · rename_i hzero
    rw [if_pos hzero] at h
    exact absurd h (lt_irrefl _)
  · exact Nat.le_add_left _ _

theorem eq_mantissa_add (f : Format) (w : ℕ) :
    w = (f.exponent w - f.lowest).toNat * 2 ^ f.fractionBits + f.mantissa w := by
  have hsplit := Nat.div_add_mod w (2 ^ f.fractionBits)
  unfold exponent mantissa
  split
  · rw [Int.sub_self, Int.toNat_zero, Nat.zero_mul, Nat.zero_add]
  · rename_i h
    obtain ⟨field, hfield⟩ := Nat.exists_eq_succ_of_ne_zero h
    rw [hfield, Nat.mul_succ, Nat.mul_comm] at hsplit
    rw [hfield, show (f.lowest + (field.succ : ℕ) - 1 - f.lowest).toNat = field by omega]
    omega

/-- The word of a sign in front of a word without one. -/
def word (f : Format) (negative : Bool) (w : ℕ) : ℕ := (if negative then f.signBit else 0) + w

theorem roundSigned_eq (f : Format) (negative : Bool) (num den : ℕ) :
    f.roundSigned negative num den = f.word negative (f.round num den) := rfl

/-- The fields of a word without a sign are found again behind a sign. -/
private theorem fields_eq (negative : Bool) (h : w < f.signBit) :
    f.word negative w / f.signBit % 2 = (if negative then 1 else 0) ∧
      f.word negative w / 2 ^ f.fractionBits % 2 ^ f.exponentBits = w / 2 ^ f.fractionBits ∧
      f.word negative w % 2 ^ f.fractionBits = w % 2 ^ f.fractionBits := by
  have hpos := Nat.two_pow_pos f.fractionBits
  have hsign : f.signBit = 2 ^ f.fractionBits * 2 ^ f.exponentBits := Nat.pow_add ..
  have hsignPos : 0 < f.signBit := Nat.two_pow_pos _
  have hfield : w / 2 ^ f.fractionBits < 2 ^ f.exponentBits := by
    rw [Nat.div_lt_iff_lt_mul hpos, Nat.mul_comm, ← hsign]
    exact h
  cases negative with
  | false =>
      rw [word, if_neg Bool.false_ne_true, if_neg Bool.false_ne_true, Nat.zero_add,
        Nat.div_eq_of_lt h, Nat.mod_eq_of_lt hfield]
      exact ⟨rfl, rfl, rfl⟩
  | true =>
      rw [word, if_pos rfl, if_pos rfl, Nat.add_div_left w hsignPos, Nat.div_eq_of_lt h]
      refine ⟨rfl, ?_, ?_⟩
      · rw [hsign, Nat.mul_add_div hpos, Nat.add_mod_left, Nat.mod_eq_of_lt hfield]
      · rw [hsign, Nat.mul_add_mod]

theorem infinity_lt_signBit (f : Format) : f.infinity < f.signBit := by
  have hsign : f.signBit = 2 ^ f.exponentBits * 2 ^ f.fractionBits := by
    rw [Nat.mul_comm]
    exact Nat.pow_add ..
  have hinfinity : f.infinity = (2 ^ f.exponentBits - 1) * 2 ^ f.fractionBits := rfl
  rw [hsign, hinfinity]
  exact Nat.mul_lt_mul_of_pos_right (Nat.sub_lt (Nat.two_pow_pos _) one_pos) (Nat.two_pow_pos _)

private theorem read_def (f : Format) (bits : ℕ) :
    f.read bits =
      if bits / 2 ^ f.fractionBits % 2 ^ f.exponentBits = 2 ^ f.exponentBits - 1 then
        if bits % 2 ^ f.fractionBits = 0 then .infinite (bits / f.signBit % 2 == 1) else .nan
      else if bits / 2 ^ f.fractionBits % 2 ^ f.exponentBits = 0 then
        .finite (bits / f.signBit % 2 == 1) (bits % 2 ^ f.fractionBits) f.lowest
      else .finite (bits / f.signBit % 2 == 1)
        (bits % 2 ^ f.fractionBits + 2 ^ f.fractionBits)
        (f.lowest + (bits / 2 ^ f.fractionBits % 2 ^ f.exponentBits : ℕ) - 1) := rfl

/-- Below infinity a word behind a sign denotes the number of the word with that sign. -/
theorem read_eq (negative : Bool) (h : w < f.infinity) :
    f.read (f.word negative w) = .finite negative (f.mantissa w) (f.exponent w) := by
  have hpos := Nat.two_pow_pos f.fractionBits
  have hinfinity : f.infinity = (2 ^ f.exponentBits - 1) * 2 ^ f.fractionBits := rfl
  have hfield : w / 2 ^ f.fractionBits < 2 ^ f.exponentBits - 1 := by
    rw [Nat.div_lt_iff_lt_mul hpos, ← hinfinity]
    exact h
  obtain ⟨hhigh, hmiddle, hlow⟩ := fields_eq negative (h.trans f.infinity_lt_signBit)
  have hnegative : ((if negative then 1 else 0) == 1) = negative := by cases negative <;> rfl
  rw [read_def, hhigh, hmiddle, hlow, hnegative, if_neg hfield.ne, mantissa, exponent]
  split
  · rename_i hzero
    rw [Nat.mod_eq_of_lt ((Nat.div_eq_zero_iff_lt hpos).mp hzero)]
  · rfl

/-- The word of infinity behind a sign denotes the infinity of that sign. -/
theorem read_infinity (f : Format) (negative : Bool) :
    f.read (f.word negative f.infinity) = .infinite negative := by
  have hpos := Nat.two_pow_pos f.fractionBits
  have hinfinity : f.infinity = (2 ^ f.exponentBits - 1) * 2 ^ f.fractionBits := rfl
  obtain ⟨hhigh, hmiddle, hlow⟩ := fields_eq negative f.infinity_lt_signBit
  have hnegative : ((if negative then 1 else 0) == 1) = negative := by cases negative <;> rfl
  rw [read_def, hhigh, hmiddle, hlow, hnegative, hinfinity, Nat.mul_div_cancel _ hpos,
    if_pos rfl, Nat.mul_mod_left, if_pos rfl]

/-- The weight of a last place is bounded below infinity. -/
theorem exponent_le (h : w < f.infinity) (hbits : 2 ≤ f.exponentBits) :
    f.exponent w ≤ f.lowest + (2 ^ f.exponentBits - 3 : ℕ) := by
  have hfour : 2 ^ 2 ≤ 2 ^ f.exponentBits := Nat.pow_le_pow_right two_pos hbits
  have hfield : w / 2 ^ f.fractionBits < 2 ^ f.exponentBits - 1 :=
    (Nat.div_lt_iff_lt_mul (Nat.two_pow_pos _)).mpr h
  unfold exponent
  split <;> omega

/-- From infinity on a word denotes no finite number. -/
theorem lt_infinity_of_read {negative negative' : Bool} {m : ℕ} {e : ℤ} (h : w < f.signBit)
    (hread : f.read (f.word negative w) = .finite negative' m e) : w < f.infinity := by
  by_contra hge
  have hpos := Nat.two_pow_pos f.fractionBits
  have hinfinity : f.infinity = (2 ^ f.exponentBits - 1) * 2 ^ f.fractionBits := rfl
  have hsign : f.signBit = 2 ^ f.exponentBits * 2 ^ f.fractionBits := by
    rw [Nat.mul_comm]
    exact Nat.pow_add ..
  obtain ⟨hhigh, hmiddle, hlow⟩ := fields_eq negative h
  have hfield : w / 2 ^ f.fractionBits = 2 ^ f.exponentBits - 1 := by
    have hle : 2 ^ f.exponentBits - 1 ≤ w / 2 ^ f.fractionBits := by
      rw [Nat.le_div_iff_mul_le hpos, ← hinfinity]
      exact Nat.le_of_not_lt hge
    have hlt : w / 2 ^ f.fractionBits < 2 ^ f.exponentBits := by
      rw [Nat.div_lt_iff_lt_mul hpos, ← hsign]
      exact h
    omega
  rw [read_def, hmiddle, if_pos hfield] at hread
  split at hread <;> cases hread

/-- A word that denotes a finite number is that of a magnitude behind a sign. -/
theorem exists_word_of_read {bits m : ℕ} {negative : Bool} {e : ℤ} (hbits : bits < 2 * f.signBit)
    (hread : f.read bits = .finite negative m e) :
    ∃ negative' w, w < f.infinity ∧ bits = f.word negative' w := by
  obtain ⟨negative', w, hw, rfl⟩ : ∃ negative' w, w < f.signBit ∧ bits = f.word negative' w := by
    rcases Nat.lt_or_ge bits f.signBit with hlow | hhigh
    · exact ⟨false, bits, hlow, (Nat.zero_add _).symm⟩
    · refine ⟨true, bits - f.signBit, by omega, ?_⟩
      rw [word, if_pos rfl]
      omega
  exact ⟨negative', w, lt_infinity_of_read hw hread, rfl⟩

/-- The numbers of a format are their own roundings. -/
theorem round_value {num den : ℕ} (hden : 0 < den) (h : w < f.infinity)
    (hvalue : (num : ℚ) / den = f.value w) : f.round num den = w := by
  have hmantissa : (0 : ℚ) ≤ f.mantissa w := Nat.cast_nonneg _
  rcases Nat.eq_zero_or_pos num with rfl | hnum
  · have hzero : f.mantissa w = 0 := by
      rw [Nat.cast_zero, zero_div, value, eq_comm, mul_eq_zero] at hvalue
      exact_mod_cast hvalue.resolve_right (two_zpow_pos _).ne'
    have hw := f.eq_mantissa_add w
    have hexponent : ¬f.lowest < f.exponent w := fun hlt => by
      have := le_mantissa hlt
      have := Nat.two_pow_pos f.fractionBits
      omega
    rw [hzero, show (f.exponent w - f.lowest).toNat = 0 by omega] at hw
    rw [round, if_pos rfl, hw]
    omega
  · have hv : (0 : ℚ) < f.value w := by
      rw [← hvalue]
      positivity
    have hpos : 0 < f.mantissa w := by
      rcases Nat.eq_zero_or_pos (f.mantissa w) with hzero | hpos
      · rw [value, hzero, Nat.cast_zero, zero_mul] at hv
        exact absurd hv (lt_irrefl 0)
      · exact hpos
    have hplace : f.place (f.value w) = f.exponent w := by
      have hhigh : f.value w < 2 ^ (f.exponent w + f.fractionBits + 1) := by
        have hlt : (f.mantissa w : ℚ) < 2 ^ (f.fractionBits + 1) := by
          exact_mod_cast f.mantissa_lt w
        rw [value, show f.exponent w + f.fractionBits + 1 =
          ((f.fractionBits + 1 : ℕ) : ℤ) + f.exponent w by push_cast; ring,
          zpow_add₀ two_ne_zero, zpow_natCast]
        exact mul_lt_mul_of_pos_right hlt (two_zpow_pos _)
      have hlogHigh := (Int.lt_zpow_iff_log_lt (b := 2) one_lt_two hv).mp hhigh
      have hlow := f.lowest_le_exponent w
      unfold place
      rcases hlow.eq_or_lt with heq | hlt
      · omega
      · have hfull : (2 : ℚ) ^ (f.exponent w + f.fractionBits) ≤ f.value w := by
          have hle : (2 : ℚ) ^ f.fractionBits ≤ f.mantissa w := by
            exact_mod_cast le_mantissa hlt
          rw [value, add_comm, zpow_add₀ two_ne_zero, zpow_natCast]
          exact mul_le_mul_of_nonneg_right hle (two_zpow_pos _).le
        have hlogLow := (Int.zpow_le_iff_le_log (b := 2) one_lt_two hv).mp hfull
        omega
    have hnearest : IsNearest ((num : ℚ) / den * 2 ^ (-f.place (num / den))) (f.mantissa w) := by
      rw [hvalue, hplace, value, mul_two_zpow_mul_neg]
      exact .natCast _
    rw [round_eq hnum hden hnearest, hvalue, hplace, ← f.eq_mantissa_add w]
    exact min_eq_right h.le

/-- The order of words is the order of the numbers that they denote. -/
theorem value_le_iff {w' : ℕ} (h : w < f.infinity) (h' : w' < f.infinity) :
    f.value w ≤ f.value w' ↔ w ≤ w' := by
  have hround {u : ℕ} (hu : u < f.infinity) :
      f.round (ratioOf (f.mantissa u) (f.exponent u)).1
        (ratioOf (f.mantissa u) (f.exponent u)).2 = u :=
    round_value (ratioOf_den_pos _ _) hu (ratioOf_eq _ _)
  have hmono {u u' : ℕ} (hu : u < f.infinity) (hu' : u' < f.infinity)
      (hle : f.value u ≤ f.value u') : u ≤ u' := by
    rw [← hround hu, ← hround hu']
    refine round_mono (ratioOf_den_pos _ _) (ratioOf_den_pos _ _) ?_
    rw [ratioOf_eq, ratioOf_eq]
    exact hle
  refine ⟨hmono h h', fun hle => ?_⟩
  by_contra hlt
  have heq : w = w' := Nat.le_antisymm hle (hmono h' h (not_le.mp hlt).le)
  exact hlt (heq ▸ le_rfl)

/-- Rounding never carries a number past one of the format. -/
theorem round_le {num den : ℕ} (hden : 0 < den) (h : w < f.infinity)
    (hvalue : (num : ℚ) / den ≤ f.value w) : f.round num den ≤ w := by
  have hw : f.round (ratioOf (f.mantissa w) (f.exponent w)).1
      (ratioOf (f.mantissa w) (f.exponent w)).2 = w :=
    round_value (ratioOf_den_pos _ _) h (ratioOf_eq _ _)
  rw [← hw]
  refine round_mono hden (ratioOf_den_pos _ _) ?_
  rw [ratioOf_eq]
  exact hvalue

/-- Nor below one. -/
theorem le_round {num den : ℕ} (hden : 0 < den) (h : w < f.infinity)
    (hvalue : f.value w ≤ (num : ℚ) / den) : w ≤ f.round num den := by
  have hw : f.round (ratioOf (f.mantissa w) (f.exponent w)).1
      (ratioOf (f.mantissa w) (f.exponent w)).2 = w :=
    round_value (ratioOf_den_pos _ _) h (ratioOf_eq _ _)
  rw [← hw]
  refine round_mono (ratioOf_den_pos _ _) hden ?_
  rw [ratioOf_eq]
  exact hvalue

theorem value_nonneg (f : Format) (w : ℕ) : 0 ≤ f.value w := units_nonneg _ _

end Format
end SeededSketch
