import SeededSketch.Proofs.Reading
import SeededSketch.Proofs.Rounding

/-!
# Rounded arithmetic

`Double.value?` is the rational number that a finite double denotes, and `Double.IsRounding v z`
says that `z` is the double nearest to `v`.  The operations on doubles are described by shifting and
rounding significands; here their outcomes are shown to be roundings of the exact ones
(`IsRounding.sub`, `IsRounding.mul`), and so are the quotients that `Double.ofRatio` makes.

All that is used of a rounding afterwards is `IsRounding.between`: rounding a number that lies
between two doubles gives a double between them, and so a finite one.

Two things stand behind it.  `Stands` says what the two residual bits of a shifted significand mean,
and `toNat_pack_roundWithAccuracy` that rounding such a significand twice and packing the outcome
gives the word of `Format.round`.
-/

namespace SeededSketch

namespace Double

open Float.Model (UnpackedFloat totalExponent)
open Float.Model.UnpackedFloat

/-! ## Shifted significands -/

/-- What a significand with its residual bits stands for: the round bit counts one half, and the
sticky bit tells whether something less than that is left. -/
def Stands (em : ExtendedMantissa) (v : ℚ) : Prop :=
  ∃ rest : ℚ, 0 ≤ rest ∧ rest < 1 / 2 ∧ (em.stickyBit = true ↔ 0 < rest) ∧
    v = em.mantissa + (if em.roundBit then 1 / 2 else 0) + rest

namespace Stands

variable {em : ExtendedMantissa} {v : ℚ}

theorem exact (m : ℕ) : Stands (.ofMantissaAndAccuracy m .exact) m := by
  refine ⟨0, le_rfl, by norm_num, by simp [ExtendedMantissa.ofMantissaAndAccuracy], ?_⟩
  simp [ExtendedMantissa.ofMantissaAndAccuracy]

theorem shiftRightOne (h : Stands em v) : Stands em.shiftRightOne (v / 2) := by
  obtain ⟨rest, hnonneg, hlt, hsticky, rfl⟩ := h
  have hhalf : (em.mantissa : ℚ) / 2 =
      (em.mantissa / 2 : ℕ) + (if em.mantissa % 2 != 0 then 1 / 2 else 0) := by
    have hsplit : (2 : ℚ) * (em.mantissa / 2 : ℕ) + (em.mantissa % 2 : ℕ) = em.mantissa := by
      exact_mod_cast Nat.div_add_mod em.mantissa 2
    rcases Nat.mod_two_eq_zero_or_one em.mantissa with hmod | hmod
    · rw [hmod, Nat.cast_zero] at hsplit
      rw [hmod, if_neg (by decide)]
      linarith
    · rw [hmod, Nat.cast_one] at hsplit
      rw [hmod, if_pos (by decide)]
      linarith
  -- What is left is half of what the two residual bits stood for.
  refine ⟨((if em.roundBit then 1 / 2 else 0) + rest) / 2, ?_, ?_, ?_, ?_⟩
  · split <;> linarith
  · split <;> linarith
  · show (em.roundBit || em.stickyBit) = true ↔ _
    rw [Bool.or_eq_true, hsticky]
    cases em.roundBit with
    | false => simp
    | true => simp only [true_or, if_true, true_iff]; linarith
  · show _ = ((em.mantissa / 2 : ℕ) : ℚ) + (if em.mantissa % 2 != 0 then 1 / 2 else 0) + _
    rw [← hhalf]
    ring

theorem shiftRight (h : Stands em v) (n : ℕ) : Stands (em >>> n) (v / 2 ^ n) := by
  show Stands (n.repeat ExtendedMantissa.shiftRightOne em) _
  induction n with
  | zero => rwa [pow_zero, div_one]
  | succ n ih =>
      rw [pow_succ, ← div_div]
      exact ih.shiftRightOne

/-- The rounded significand is the nearest natural. -/
theorem isNearest (h : Stands em v) : IsNearest v em.roundedMantissa := by
  obtain ⟨m, roundBit, stickyBit⟩ := em
  obtain ⟨rest, hnonneg, hlt, hsticky, rfl⟩ := h
  cases stickyBit with
  | false =>
      have hrest : rest = 0 := by
        by_contra hne
        exact Bool.false_ne_true (hsticky.mpr (lt_of_le_of_ne hnonneg (Ne.symm hne)))
      subst hrest
      cases roundBit with
      | false =>
          rw [if_neg Bool.false_ne_true, add_zero, add_zero]
          exact .natCast m
      | true =>
          -- A tie: the significand is made even.
          show IsNearest ((m : ℚ) + 1 / 2 + 0) (m + m % 2)
          rcases Nat.mod_two_eq_zero_or_one m with hmod | hmod
          · rw [hmod, Nat.add_zero]
            exact ⟨by linarith, by linarith, fun _ => hmod⟩
          · rw [hmod]
            refine ⟨?_, ?_, fun _ => by omega⟩ <;> push_cast <;> linarith
  | true =>
      have hpos : 0 < rest := hsticky.mp rfl
      cases roundBit with
      | false =>
          show IsNearest ((m : ℚ) + 0 + rest) m
          refine ⟨by linarith, by linarith, fun h => ?_⟩
          rcases h with h | h <;> linarith
      | true =>
          show IsNearest ((m : ℚ) + 1 / 2 + rest) (m + 1)
          refine ⟨by push_cast; linarith, by push_cast; linarith, fun h => ?_⟩
          push_cast at h
          rcases h with h | h <;> linarith

/-- The number is between the significand and the next one. -/
theorem bounds (h : Stands em v) : (em.mantissa : ℚ) ≤ v ∧ v < em.mantissa + 1 := by
  obtain ⟨rest, hnonneg, hlt, -, rfl⟩ := h
  constructor <;> split <;> linarith

end Stands

/-! ## Packing a rounded significand -/

/-- The word that a sign puts in front. -/
theorem toNat_toBitVec_mul (s : Sign) :
    s.toBitVec.toNat * 2 ^ 63 = if isMinus s then Format.binary64.signBit else 0 := by
  cases s <;> rfl

/-- The word of a significand in its place, or of infinity if the place is too high for one. -/
theorem toNat_pack_finite (s : Sign) {m : ℕ} (hpos : 0 < m) (hm : m < 2 ^ 53) {e : ℤ}
    (he : -1074 ≤ e) (hfull : -1074 < e → 2 ^ 52 ≤ m) :
    (UnpackedFloat.pack .binary64 (.finite s m e hpos)).toNat =
      (if isMinus s then Format.binary64.signBit else 0) +
        min Format.binary64.infinity ((e + 1074).toNat * 2 ^ 52 + m) := by
  have hinfinity : Format.binary64.infinity = 2047 * 2 ^ 52 := rfl
  rw [← toNat_toBitVec_mul, hinfinity]
  by_cases hlow : m < 2 ^ 52
  · obtain rfl : e = -1074 := by
      by_contra hne
      have hle := hfull (by omega)
      omega
    have hfields : (BitVec.ofNat 52 m).toNat = m := by
      rw [BitVec.toNat_ofNat, Nat.mod_eq_of_lt hlow]
    rw [pack_subnormal s hpos hlow, toNat_packComponents, hfields, BitVec.toNat_ofNat]
    omega
  · obtain ⟨biased, hbiased⟩ := Int.eq_ofNat_of_zero_le (show 0 ≤ e + 1075 by omega)
    obtain rfl : e = biased - (1023 + 52) := by omega
    by_cases hlarge : biased < 2 ^ 11 - 1
    · have hfields : (BitVec.ofNat 52 m).toNat = m - 2 ^ 52 := by
        rw [BitVec.toNat_ofNat]
        omega
      rw [pack_normal s hpos (by omega) hm hlarge, toNat_packComponents, hfields,
        BitVec.toNat_ofNat, Nat.mod_eq_of_lt (by omega)]
      omega
    · have hpack : UnpackedFloat.pack .binary64 (.finite s m (biased - (1023 + 52)) hpos) =
          packComponents .binary64 s (-1#11) 0#52 := by
        rw [UnpackedFloat.pack]
        refine if_pos (show 2 ^ 11 ≤ ((biased : ℤ) - (1023 + 52) + 1023 + 52).toNat + 1 from ?_)
        omega
      rw [hpack, toNat_packComponents]
      have hall : (-1#11).toNat = 2047 := rfl
      have hzero : (0#52).toNat = 0 := rfl
      rw [hall, hzero]
      omega

theorem toNat_pack_zero (s : Sign) : (UnpackedFloat.pack .binary64 (.zero s)).toNat =
    if isMinus s then Format.binary64.signBit else 0 := by
  cases s <;> rfl

theorem log_eq {m : ℕ} (hm : 0 < m) {e : ℤ} {v : ℚ} (hlow : m * 2 ^ e ≤ v)
    (hhigh : v < (m + 1) * 2 ^ e) : Int.log 2 v = m.log2 + e := by
  have hv : 0 < v := (units_pos hm e).trans_le hlow
  have hlogLow : (2 : ℚ) ^ ((m.log2 : ℤ) + e) ≤ v := by
    have hpow : (2 : ℚ) ^ m.log2 ≤ m := by exact_mod_cast Nat.log2_self_le hm.ne'
    rw [zpow_add₀ two_ne_zero, zpow_natCast]
    exact (mul_le_mul_of_nonneg_right hpow (two_zpow_pos e).le).trans hlow
  have hlogHigh : v < 2 ^ ((m.log2 : ℤ) + 1 + e) := by
    have hpow : (m : ℚ) + 1 ≤ 2 ^ ((m.log2 : ℤ) + 1) := by
      exact_mod_cast Nat.lt_log2_self (n := m)
    rw [zpow_add₀ two_ne_zero]
    exact hhigh.trans_le (mul_le_mul_of_nonneg_right hpow (two_zpow_pos e).le)
  have hle := (Int.zpow_le_iff_le_log (b := 2) one_lt_two hv).mp hlogLow
  have hlt := (Int.lt_zpow_iff_log_lt (b := 2) one_lt_two hv).mp hlogHigh
  omega

theorem targetExponent_eq {m : ℕ} (hm : 0 < m) (e : ℤ) :
    Float.Model.Format.binary64.targetExponent (totalExponent m e) =
      Format.binary64.place (m * 2 ^ e) := by
  rw [Format.place, log_eq hm le_rfl (mul_lt_mul_of_pos_right (lt_add_one _) (two_zpow_pos e))]
  show max ((m.log2 : ℤ) + 1 + e - (1 + 52 : ℕ)) (3 - 2 ^ 10 - (1 + 52 : ℕ)) =
    max (-1074) ((m.log2 : ℤ) + e - (52 : ℕ))
  omega

theorem mantissa_ofMantissaAndAccuracy (m : ℕ) (accuracy : Accuracy) :
    (ExtendedMantissa.ofMantissaAndAccuracy m accuracy).mantissa = m := by
  rcases accuracy with _ | (_ | _ | _) <;> rfl

/-- What is left out of a significand does not change its place. -/
theorem targetExponent_of_stands {m : ℕ} {e : ℤ} {accuracy : Accuracy} {v : ℚ} (hv : 0 < v)
    (hstands : Stands (.ofMantissaAndAccuracy m accuracy) (v * 2 ^ (-e)))
    (he : e ≤ Format.binary64.place v) :
    Float.Model.Format.binary64.targetExponent (totalExponent m e) = Format.binary64.place v := by
  obtain ⟨hlow, hhigh⟩ := hstands.bounds
  rw [mantissa_ofMantissaAndAccuracy, zpow_neg, ← div_eq_mul_inv] at hlow hhigh
  rw [le_div_iff₀ (two_zpow_pos e)] at hlow
  rw [div_lt_iff₀ (two_zpow_pos e)] at hhigh
  have hplace : Format.binary64.place v = max (-1074) (Int.log 2 v - 52) := rfl
  have htarget : Float.Model.Format.binary64.targetExponent (totalExponent m e) =
      max (m.log2 + 1 + e - (1 + 52 : ℕ)) (3 - 2 ^ 10 - (1 + 52 : ℕ)) := rfl
  rw [hplace] at he ⊢
  rw [htarget]
  rcases Nat.eq_zero_or_pos m with rfl | hm
  · -- Nothing but a fraction is there, so the place is the lowest one.
    rw [Nat.cast_zero, zero_add, one_mul] at hhigh
    have hlog := (Int.lt_zpow_iff_log_lt (b := 2) one_lt_two hv).mp hhigh
    have hzero : Nat.log2 0 = 0 := rfl
    omega
  · have hlog := log_eq hm hlow hhigh
    omega

theorem shiftToExponent_eq {e target : ℤ} (m : ℕ) (accuracy : Accuracy) (h : e ≤ target) :
    shiftToExponent m e accuracy target =
      (ExtendedMantissa.ofMantissaAndAccuracy m accuracy >>> (target - e).toNat, target) := by
  have hexponent : e + (target - e).toNat = target := by omega
  show (_, e + (target - e).toNat) = _
  rw [hexponent]

/-- A significand that is in its place already is left alone. -/
theorem shiftToExponent_of_le {e target : ℤ} (m : ℕ) (h : target ≤ e) :
    shiftToExponent m e .exact target = (ExtendedMantissa.ofMantissaAndAccuracy m .exact, e) := by
  have hshift : (target - e).toNat = 0 := by omega
  show (ExtendedMantissa.ofMantissaAndAccuracy m .exact >>> (target - e).toNat,
    e + ((target - e).toNat : ℤ)) = _
  rw [hshift]
  exact congrArg (Prod.mk _) (Int.add_zero e)

/-- The number of a significand that needs no more rounding. -/
def settled (s : Sign) (shifted : ExtendedMantissa × ℤ) : UnpackedFloat :=
  if h : shifted.1.mantissa = 0 then .zero s
  else .finite s shifted.1.mantissa shifted.2 (Nat.pos_of_ne_zero h)

/-- The second half of rounding: a significand that has carried is shifted once more. -/
def settle (s : Sign) (r : ℕ) (place : ℤ) : UnpackedFloat :=
  settled s (shiftToTargetExponent .binary64 r place .exact)

/-- A significand that has not carried stays as it is. -/
theorem settle_of_lt (s : Sign) {r : ℕ} (hpos : 0 < r) (hr : r < 2 ^ 53) {place : ℤ}
    (hplace : -1074 ≤ place) : settle s r place = .finite s r place hpos := by
  have hlog : r.log2 < 53 := (Nat.log2_lt hpos.ne').mpr hr
  have htarget : Float.Model.Format.binary64.targetExponent (totalExponent r place) ≤ place := by
    show max ((r.log2 : ℤ) + 1 + place - (1 + 52 : ℕ)) (3 - 2 ^ 10 - (1 + 52 : ℕ)) ≤ place
    omega
  have hshift : shiftToTargetExponent .binary64 r place .exact =
      (ExtendedMantissa.ofMantissaAndAccuracy r .exact, place) := by
    rw [shiftToTargetExponent, shiftToExponent_of_le r htarget]
  rw [settle, hshift]
  exact dif_neg hpos.ne'

/-- One that has carried loses its last bit, which is zero. -/
theorem settle_carried (s : Sign) {place : ℤ} (hplace : -1074 ≤ place) :
    settle s (2 ^ 53) place = .finite s (2 ^ 52) (place + 1) (Nat.two_pow_pos 52) := by
  have hlog : (2 ^ 53 : ℕ).log2 = 53 := Nat.log2_two_pow
  have htarget : Float.Model.Format.binary64.targetExponent (totalExponent (2 ^ 53) place) =
      place + 1 := by
    show max (((2 ^ 53 : ℕ).log2 : ℤ) + 1 + place - (1 + 52 : ℕ)) (3 - 2 ^ 10 - (1 + 52 : ℕ)) = _
    rw [hlog]
    omega
  have hshift : shiftToTargetExponent .binary64 (2 ^ 53) place .exact =
      (ExtendedMantissa.ofMantissaAndAccuracy (2 ^ 53) .exact >>> 1, place + 1) := by
    rw [shiftToTargetExponent, htarget, shiftToExponent_eq _ _ (by omega)]
    congr 3
    omega
  rw [settle, hshift]
  rfl

theorem toNat_pack_settle (s : Sign) {r : ℕ} (hr : r ≤ 2 ^ 53) {place : ℤ}
    (hplace : -1074 ≤ place) (hfull : -1074 < place → 2 ^ 52 ≤ r) :
    (UnpackedFloat.pack .binary64 (settle s r place)).toNat =
      (if isMinus s then Format.binary64.signBit else 0) +
        min Format.binary64.infinity ((place + 1074).toNat * 2 ^ 52 + r) := by
  rcases hr.lt_or_eq with hlt | rfl
  · rcases Nat.eq_zero_or_pos r with rfl | hpos
    · obtain rfl : place = -1074 := by
        by_contra hne
        have hle := hfull (by omega)
        omega
      exact toNat_pack_zero s
    · rw [settle_of_lt s hpos hlt hplace]
      exact toNat_pack_finite s hpos hlt hplace hfull
  · have hword : (place + 1 + 1074).toNat * 2 ^ 52 + 2 ^ 52 =
        (place + 1074).toNat * 2 ^ 52 + 2 ^ 53 := by omega
    rw [settle_carried s hplace,
      toNat_pack_finite s _ (Nat.pow_lt_pow_right one_lt_two (by omega)) (by omega)
        (fun _ => le_rfl), hword]

/-- Rounding to a place, and once more where the first rounding has carried, gives the word that
`Format.round` gives. -/
theorem toNat_pack_roundWithAccuracy (s : Sign) {m : ℕ} {e : ℤ} {accuracy : Accuracy} {v : ℚ}
    (hv : 0 < v) (hstands : Stands (.ofMantissaAndAccuracy m accuracy) (v * 2 ^ (-e)))
    (he : e ≤ Format.binary64.place v) {num den : ℕ} (hden : 0 < den)
    (hratio : (num : ℚ) / den = v) :
    (UnpackedFloat.pack .binary64 (roundWithAccuracy .binary64 s m e accuracy)).toNat =
      Format.binary64.roundSigned (isMinus s) num den := by
  have hnum : 0 < num := by
    rcases Nat.eq_zero_or_pos num with rfl | hnum
    · rw [Nat.cast_zero, zero_div] at hratio
      exact absurd hratio hv.ne
    · exact hnum
  have hlowest := Format.lowest_le_place (f := .binary64) v
  have hfull := Format.le_scaled (f := .binary64) hv
  have hshort := Format.scaled_lt (f := .binary64) v
  have htarget := targetExponent_of_stands hv hstands he
  set place := Format.binary64.place v with hplace
  -- The first shift brings the number to its place.
  have hshifted := hstands.shiftRight (place - e).toNat
  have hscaled : v * 2 ^ (-e) / 2 ^ (place - e).toNat = v * 2 ^ (-place) := by
    have hshift : ((place - e).toNat : ℤ) = place - e := by omega
    rw [div_eq_mul_inv, mul_assoc, ← zpow_natCast, hshift, ← zpow_neg, ← zpow_add₀ two_ne_zero]
    congr 2
    ring
  rw [hscaled] at hshifted
  have hnearest := hshifted.isNearest
  set r := (ExtendedMantissa.ofMantissaAndAccuracy m accuracy >>>
    (place - e).toNat).roundedMantissa with hr
  have hround : Format.binary64.round num den =
      min Format.binary64.infinity ((place + 1074).toNat * 2 ^ 52 + r) := by
    rw [Format.round_eq hnum hden (by rw [hratio]; exact hnearest), hratio, ← hplace]
    rfl
  have hrHigh : r ≤ 2 ^ 53 := hnearest.le_natCast (by exact_mod_cast hshort.le)
  have hrLow (h : -1074 < place) : 2 ^ 52 ≤ r :=
    hnearest.natCast_le (by exact_mod_cast hfull h)
  have hplaceLow : -1074 ≤ place := hlowest
  have hfirst : shiftToTargetExponent .binary64 m e accuracy =
      (ExtendedMantissa.ofMantissaAndAccuracy m accuracy >>> (place - e).toNat, place) := by
    rw [shiftToTargetExponent, htarget, shiftToExponent_eq m accuracy he]
  have hsecond : roundWithAccuracy .binary64 s m e accuracy = settle s r place := by
    rw [roundWithAccuracy, hfirst]
    rfl
  rw [Format.roundSigned, hround, hsecond]
  exact toNat_pack_settle s hrHigh hplaceLow hrLow

/-- The case of a significand that leaves nothing out. -/
theorem toNat_pack_roundExact (s : Sign) {m : ℕ} (hm : 0 < m) {e : ℤ}
    (he : e ≤ Format.binary64.place (m * 2 ^ e)) {num den : ℕ} (hden : 0 < den)
    (hv : (num : ℚ) / den = m * 2 ^ e) :
    (UnpackedFloat.pack .binary64 (roundWithAccuracy .binary64 s m e .exact)).toNat =
      Format.binary64.roundSigned (isMinus s) num den := by
  have hpos := units_pos hm e
  have hstands : Stands (.ofMantissaAndAccuracy m .exact) (m * 2 ^ e * 2 ^ (-e)) := by
    rw [mul_two_zpow_mul_neg]
    exact .exact m
  exact toNat_pack_roundWithAccuracy s hpos hstands he hden hv

/-- Rounding a number in any place, of which `toNat_pack_roundExact` is the case where the place is
low enough. -/
theorem toNat_pack_round (s : Sign) {m : ℕ} (hm : 0 < m) (e : ℤ) {num den : ℕ} (hden : 0 < den)
    (hv : (num : ℚ) / den = m * 2 ^ e) :
    (UnpackedFloat.pack .binary64 (UnpackedFloat.round .binary64 s m e)).toNat =
      Format.binary64.roundSigned (isMinus s) num den := by
  have htarget := targetExponent_eq hm e
  set place := Format.binary64.place ((m : ℚ) * 2 ^ e) with hplace
  have hm' : 0 < m <<< (e - place).toNat := by
    rw [Nat.shiftLeft_eq]
    exact Nat.mul_pos hm (Nat.two_pow_pos _)
  have hvalue : ((m <<< (e - place).toNat : ℕ) : ℚ) * 2 ^ (e - (e - place).toNat) = m * 2 ^ e := by
    rw [Nat.shiftLeft_eq, Nat.cast_mul, Nat.cast_pow, Nat.cast_two, mul_assoc, ← zpow_natCast,
      ← zpow_add₀ two_ne_zero, add_sub_cancel]
  have hround : UnpackedFloat.round .binary64 s m e =
      roundWithAccuracy .binary64 s (m <<< (e - place).toNat) (e - (e - place).toNat) .exact := by
    rw [UnpackedFloat.round, htarget]
    rfl
  rw [hround]
  refine toNat_pack_roundExact s hm' ?_ hden (hv.trans hvalue.symm)
  rw [hvalue, ← hplace]
  omega

/-! ## Exact values -/

/-- A magnitude with a sign. -/
def signed (negative : Bool) (v : ℚ) : ℚ := if negative then -v else v

theorem signed_not (negative : Bool) (v : ℚ) : signed (!negative) v = -signed negative v := by
  cases negative with
  | false => rfl
  | true => exact (neg_neg v).symm

theorem signed_mul (negative negative' : Bool) (v w : ℚ) :
    signed negative v * signed negative' w = signed (negative != negative') (v * w) := by
  cases negative <;> cases negative' <;> simp [signed]

theorem signed_le (negative : Bool) {v : ℚ} (h : 0 ≤ v) : signed negative v ≤ v := by
  cases negative with
  | false => exact le_rfl
  | true => exact (neg_nonpos.mpr h).trans h

theorem abs_signed (negative : Bool) (v : ℚ) : |signed negative v| = |v| := by
  cases negative with
  | false => rfl
  | true => exact abs_neg v

theorem isNearestInt_signed {negative : Bool} {v : ℚ} {n : ℕ} (h : IsNearest v n) :
    IsNearestInt (signed negative v) (if negative then -(n : ℤ) else n) := by
  cases negative with
  | false => exact h.isNearestInt
  | true => exact h.isNearestInt.neg

/-- The number of a finite reading. -/
def valueOf : Reading → Option ℚ
  | .finite negative mantissa exponent => some (signed negative (mantissa * 2 ^ exponent))
  | _ => none

/-- The number that a finite double denotes. -/
def value? (x : Float) : Option ℚ := valueOf (reading x)

theorem finite_of_valueOf {r : Reading} {v : ℚ} (h : valueOf r = some v) :
    ∃ negative m e, r = .finite negative m e ∧ v = signed negative ((m : ℚ) * 2 ^ e) := by
  cases r with
  | nan => cases h
  | infinite => cases h
  | finite negative m e => exact ⟨negative, m, e, rfl, (Option.some.inj h).symm⟩

theorem reading_of_value? {x : Float} {v : ℚ} (h : value? x = some v) :
    ∃ negative m e, reading x = .finite negative m e ∧ v = signed negative ((m : ℚ) * 2 ^ e) :=
  finite_of_valueOf h

theorem value?_of_reading {x : Float} {negative : Bool} {m : ℕ} {e : ℤ}
    (h : reading x = .finite negative m e) :
    value? x = some (signed negative ((m : ℚ) * 2 ^ e)) := by
  rw [value?, h, valueOf]

theorem value?_of_word {x : Float} {negative : Bool} {w : ℕ} (h : w < Format.binary64.infinity)
    (hx : x.toBits.toNat = Format.binary64.word negative w) :
    value? x = some (signed negative (Format.binary64.value w)) := by
  rw [value?, reading, hx, Format.read_eq negative h]
  rfl

/-- A double that denotes a number has the word of the number's sign and magnitude. -/
theorem exists_word {x : Float} {v : ℚ} (h : value? x = some v) :
    ∃ negative w, w < Format.binary64.infinity ∧
      x.toBits.toNat = Format.binary64.word negative w ∧
      v = signed negative (Format.binary64.value w) := by
  obtain ⟨_, _, _, hread, -⟩ := reading_of_value? h
  obtain ⟨negative, w, hw, hbits⟩ := Format.exists_word_of_read x.toBits.toNat_lt hread
  exact ⟨negative, w, hw, hbits, Option.some.inj (h.symm.trans (value?_of_word hw hbits))⟩

theorem isFinite_iff (x : Float) : x.isFinite = true ↔ ∃ v, value? x = some v := by
  have hfinite : x.isFinite = (UnpackedFloat.unpack .binary64 x.toBits.toBitVec).isFinite := rfl
  rw [hfinite, value?, reading, show x.toBits.toNat = x.toBits.toBitVec.toNat from rfl,
    read_eq_readingOf]
  cases UnpackedFloat.unpack .binary64 x.toBits.toBitVec <;>
    simp [UnpackedFloat.isFinite, readingOf, valueOf]

theorem value?_neg {x : Float} {v : ℚ} (h : value? x = some v) : value? (-x) = some (-v) := by
  obtain ⟨negative, m, e, hread, rfl⟩ := reading_of_value? h
  rw [value?, reading_neg, hread, ← signed_not]
  rfl

/-! ## Roundings -/

/-- The double `z` is the one nearest to `v`.  The sign of a zero is left open. -/
def IsRounding (v : ℚ) (z : Float) : Prop :=
  ∃ negative, ∃ num den : ℕ, 0 < den ∧ v = signed negative ((num : ℚ) / den) ∧
    z.toBits.toNat = Format.binary64.roundSigned negative num den

namespace IsRounding

variable {v w a b : ℚ} {x y z : Float}

theorem of_ratio {negative : Bool} {m : ℕ} {e : ℤ} (hv : v = signed negative (m * 2 ^ e))
    (hz : z.toBits.toNat =
      Format.binary64.roundSigned negative (ratioOf m e).1 (ratioOf m e).2) : IsRounding v z := by
  refine ⟨negative, (ratioOf m e).1, (ratioOf m e).2, ratioOf_den_pos m e, ?_, hz⟩
  rw [ratioOf_eq, hv]

/-- A double is its own rounding. -/
theorem of_value? (h : value? x = some v) : IsRounding v x := by
  obtain ⟨negative, w, hw, hbits, rfl⟩ := exists_word h
  refine of_ratio rfl ?_
  rw [Format.roundSigned_eq, Format.round_value (ratioOf_den_pos _ _) hw (ratioOf_eq _ _)]
  exact hbits

/-- Words and numbers with a sign are rounded upwards no further than to a double above them. -/
private theorem signed_round_le {negative negative' : Bool} {num den w : ℕ} (hden : 0 < den)
    (hr : Format.binary64.round num den < Format.binary64.infinity)
    (hw : w < Format.binary64.infinity)
    (h : signed negative ((num : ℚ) / den) ≤ signed negative' (Format.binary64.value w)) :
    signed negative (Format.binary64.value (Format.binary64.round num den)) ≤
      signed negative' (Format.binary64.value w) := by
  have hvalue := Format.binary64.value_nonneg w
  have hround := Format.binary64.value_nonneg (Format.binary64.round num den)
  have hv : (0 : ℚ) ≤ num / den := by positivity
  cases negative with
  | false =>
      have hle : (num : ℚ) / den ≤ Format.binary64.value w := h.trans (signed_le negative' hvalue)
      have hword := (Format.value_le_iff hr hw).mpr (Format.round_le hden hw hle)
      cases negative' with
      | false => exact hword
      | true =>
          -- Both numbers are zero.
          have hzero : Format.binary64.value w = 0 := by
            have hneg : (num : ℚ) / den ≤ -Format.binary64.value w := h
            linarith
          rw [hzero] at hword ⊢
          show Format.binary64.value _ ≤ -0
          linarith
  | true =>
      cases negative' with
      | false => exact (neg_nonpos.mpr hround).trans hvalue
      | true =>
          have hle : Format.binary64.value w ≤ (num : ℚ) / den := neg_le_neg_iff.mp h
          exact neg_le_neg ((Format.value_le_iff hw hr).mpr (Format.le_round hden hw hle))

/-- A finite rounding is the one whose word `Format.round` gives. -/
theorem eq_round (h : IsRounding v z) (hz : value? z = some w) :
    ∃ negative, ∃ num den : ℕ, 0 < den ∧ v = signed negative ((num : ℚ) / den) ∧
      Format.binary64.round num den < Format.binary64.infinity ∧
      w = signed negative (Format.binary64.value (Format.binary64.round num den)) := by
  obtain ⟨negative, num, den, hden, rfl, hbits⟩ := h
  have hfinite : Format.binary64.round num den < Format.binary64.infinity := by
    refine (Format.round_le_infinity _ num den).lt_of_ne fun heq => ?_
    rw [value?, reading, hbits, Format.roundSigned_eq, heq, Format.read_infinity] at hz
    cases hz
  rw [value?_of_word hfinite hbits] at hz
  exact ⟨negative, num, den, hden, rfl, hfinite, (Option.some.inj hz).symm⟩

/-- Rounding never carries a number above a double. -/
theorem le (h : IsRounding v z) (hz : value? z = some w) (hy : value? y = some b) (hvb : v ≤ b) :
    w ≤ b := by
  obtain ⟨negative, num, den, hden, rfl, hfinite, rfl⟩ := h.eq_round hz
  obtain ⟨negativeB, wb, hwb, -, rfl⟩ := exists_word hy
  exact signed_round_le hden hfinite hwb hvb

/-- Nor below one. -/
theorem ge (h : IsRounding v z) (hz : value? z = some w) (hx : value? x = some a) (hav : a ≤ v) :
    a ≤ w := by
  obtain ⟨negative, num, den, hden, rfl, hfinite, rfl⟩ := h.eq_round hz
  obtain ⟨negativeA, wa, hwa, -, rfl⟩ := exists_word hx
  -- The lower bound is the upper one for the other sign.
  have hneg : signed (!negative) ((num : ℚ) / den) ≤
      signed (!negativeA) (Format.binary64.value wa) := by
    rw [signed_not, signed_not]
    exact neg_le_neg hav
  have hle := signed_round_le hden hfinite hwa hneg
  rw [signed_not, signed_not] at hle
  exact neg_le_neg_iff.mp hle

/-- A number between two doubles is rounded to a double between them, which is finite. -/
theorem between (h : IsRounding v z) (hx : value? x = some a) (hy : value? y = some b) (hav : a ≤ v)
    (hvb : v ≤ b) : ∃ w, value? z = some w ∧ a ≤ w ∧ w ≤ b := by
  obtain ⟨w, hw⟩ : ∃ w, value? z = some w := by
    obtain ⟨negative, num, den, hden, rfl, hbits⟩ := h
    obtain ⟨negativeA, wa, hwa, -, rfl⟩ := exists_word hx
    obtain ⟨negativeB, wb, hwb, -, rfl⟩ := exists_word hy
    have hva := Format.binary64.value_nonneg wa
    have hvb' := Format.binary64.value_nonneg wb
    have hfinite : Format.binary64.round num den < Format.binary64.infinity := by
      cases negative with
      | false =>
          have hle : (num : ℚ) / den ≤ Format.binary64.value wb := hvb.trans (signed_le _ hvb')
          exact (Format.round_le hden hwb hle).trans_lt hwb
      | true =>
          have hle : (num : ℚ) / den ≤ Format.binary64.value wa := by
            have hlow := signed_le (!negativeA) hva
            rw [signed_not] at hlow
            have hneg : signed negativeA (Format.binary64.value wa) ≤ -((num : ℚ) / den) := hav
            linarith
          exact (Format.round_le hden hwa hle).trans_lt hwa
    exact ⟨_, value?_of_word hfinite hbits⟩
  exact ⟨w, hw, h.ge hw hx hav, h.le hw hy hvb⟩

end IsRounding

/-! ## Operations -/

/-- The unpacked form of a double that denotes a number. -/
theorem unpack_of_value? {x : Float} {v : ℚ} (h : value? x = some v) :
    (∃ s, UnpackedFloat.unpack .binary64 x.toBits.toBitVec = .zero s ∧ v = 0) ∨
    ∃ s m e hm, UnpackedFloat.unpack .binary64 x.toBits.toBitVec = .finite s m e hm ∧
      v = signed (isMinus s) (m * 2 ^ e) ∧ -1074 ≤ e ∧ (-1074 < e → 2 ^ 52 ≤ m) := by
  obtain ⟨negative, w, hw, hbits, -⟩ := exists_word h
  have hread : Format.binary64.read x.toBits.toNat =
      readingOf (UnpackedFloat.unpack .binary64 x.toBits.toBitVec) := read_eq_readingOf _
  rw [value?, reading, hread] at h
  rw [hbits, Format.read_eq negative hw] at hread
  cases hunpack : UnpackedFloat.unpack .binary64 x.toBits.toBitVec with
  | notANumber =>
      rw [hunpack] at h
      cases h
  | infinity s =>
      rw [hunpack] at h
      cases h
  | zero s =>
      rw [hunpack] at h
      refine .inl ⟨s, rfl, ?_⟩
      rw [← Option.some.inj h, Nat.cast_zero, zero_mul]
      cases s <;> simp [signed, isMinus]
  | finite s m e hm =>
      rw [hunpack] at h hread
      injection hread with hnegative hmantissa hexponent
      refine .inr ⟨s, m, e, hm, rfl, (Option.some.inj h).symm, ?_, fun hlow => ?_⟩
      · rw [← hexponent]
        exact Format.lowest_le_exponent _ w
      · rw [← hmantissa]
        rw [← hexponent] at hlow
        exact Format.le_mantissa hlow

/-- Unpacking and packing again changes no word that denotes a number or an infinity. -/
theorem pack_unpack (b : BitVec Float.Model.Format.binary64.numBits)
    (h : Format.binary64.read b.toNat ≠ .nan) :
    UnpackedFloat.pack .binary64 (UnpackedFloat.unpack .binary64 b) = b := by
  have hneg (s : Sign) : - -s = s := by cases s <;> rfl
  have hsign (s : Sign) : Sign.ofBitVec s.toBitVec = s := by cases s <;> rfl
  have hfields : packComponents .binary64 (Sign.ofBitVec (unpackSign b)) (unpackExponent b)
      (unpackMantissa b) = b := by
    have hbit : (Sign.ofBitVec (unpackSign b)).toBitVec = unpackSign b := by
      generalize unpackSign b = sign
      revert sign
      decide
    apply BitVec.eq_of_toNat_eq
    have hlt : b.toNat < 2 ^ 64 := b.isLt
    rw [toNat_packComponents, hbit, toNat_unpackSign, toNat_unpackExponent, toNat_unpackMantissa]
    omega
  have hnan : unpackExponent b = -1#_ → unpackMantissa b = 0#_ := by
    intro hexponent
    by_contra hmantissa
    refine h ?_
    rw [read_eq_readingOf, UnpackedFloat.unpack, if_pos hexponent, if_neg hmantissa]
    rfl
  -- The sign is changed twice.
  set b' := packComponents .binary64 (-(Sign.ofBitVec (unpackSign b))) (unpackExponent b)
    (unpackMantissa b) with hb'
  have hunpack : UnpackedFloat.unpack .binary64 b = (UnpackedFloat.unpack .binary64 b').neg := by
    rw [hb', unpack_packComponents_neg]
    cases UnpackedFloat.unpack .binary64 b <;> simp only [UnpackedFloat.neg, hneg]
  have hpack := pack_neg_unpack b' (by
    rw [hb', unpackExponent_packComponents, unpackMantissa_packComponents]
    exact hnan)
  rw [hunpack, hpack, hb', unpackSign_packComponents, unpackExponent_packComponents,
    unpackMantissa_packComponents, hsign, hneg, hfields]

namespace IsRounding

variable {v w : ℚ} {x y z : Float}

theorem of_toBits (h : IsRounding v x) (hbits : z.toBits.toNat = x.toBits.toNat) :
    IsRounding v z := by
  obtain ⟨negative, num, den, hden, hv, hx⟩ := h
  exact ⟨negative, num, den, hden, hv, hbits.trans hx⟩

theorem zero {s : Sign}
    (hz : z.toBits.toNat = (UnpackedFloat.pack .binary64 (.zero s)).toNat) : IsRounding 0 z := by
  refine ⟨isMinus s, 0, 1, one_pos, ?_, ?_⟩
  · rw [Nat.cast_zero, zero_div]
    cases s <;> simp [isMinus, signed]
  · rw [hz, toNat_pack_zero]
    rfl

theorem round {s : Sign} {m : ℕ} (hm : 0 < m) {e : ℤ}
    (hz : z.toBits.toNat =
      (UnpackedFloat.pack .binary64 (UnpackedFloat.round .binary64 s m e)).toNat) :
    IsRounding (signed (isMinus s) (m * 2 ^ e)) z := by
  refine of_ratio rfl ?_
  rw [hz, toNat_pack_round s hm e (ratioOf_den_pos m e) (ratioOf_eq m e)]

theorem normalize {m e : ℤ} (hz : z.toBits.toNat =
      (UnpackedFloat.pack .binary64 (UnpackedFloat.normalize .binary64 m e .positive)).toNat) :
    IsRounding (m * 2 ^ e) z := by
  rw [UnpackedFloat.normalize] at hz
  rcases lt_trichotomy m 0 with hm | rfl | hm
  · rw [Int.compare_eq_lt.mpr hm] at hz
    obtain ⟨k, hk⟩ := Int.eq_ofNat_of_zero_le (show 0 ≤ -m by omega)
    obtain rfl : m = -k := by omega
    have h := round (by omega) hz
    rw [neg_neg, Int.toNat_natCast] at h
    rw [Int.cast_neg, Int.cast_natCast, neg_mul]
    exact h
  · rw [Int.cast_zero, zero_mul]
    exact zero hz
  · rw [Int.compare_eq_gt.mpr hm] at hz
    obtain ⟨k, rfl⟩ := Int.eq_ofNat_of_zero_le hm.le
    have h := round (by omega) hz
    rw [Int.toNat_natCast] at h
    rw [Int.cast_natCast]
    exact h

/-- The exact value of a significand that has been brought to a lower place. -/
private theorem decreased (s : Sign) (m : ℕ) {e target : ℤ} (h : target ≤ e) :
    ((s.apply (m <<< (e - target).toNat : ℕ) : ℤ) : ℚ) * 2 ^ target =
      signed (isMinus s) (m * 2 ^ e) := by
  have hvalue : ((m <<< (e - target).toNat : ℕ) : ℚ) * 2 ^ target = m * 2 ^ e := by
    have hshift : ((e - target).toNat : ℤ) + target = e := by omega
    rw [Nat.shiftLeft_eq, Nat.cast_mul, Nat.cast_pow, Nat.cast_two, mul_assoc, ← zpow_natCast,
      ← zpow_add₀ two_ne_zero, hshift]
  cases s with
  | positive => exact hvalue
  | negative =>
      show ((-(m <<< (e - target).toNat : ℕ) : ℤ) : ℚ) * 2 ^ target = -(m * 2 ^ e)
      rw [Int.cast_neg, Int.cast_natCast, neg_mul, hvalue]

/-- A difference of doubles is the rounded difference. -/
theorem sub (hx : value? x = some v) (hy : value? y = some w) : IsRounding (v - w) (x - y) := by
  have hbits : (x - y).toBits.toNat = (UnpackedFloat.pack .binary64
      (UnpackedFloat.sub .binary64 (UnpackedFloat.unpack .binary64 x.toBits.toBitVec)
        (UnpackedFloat.unpack .binary64 y.toBits.toBitVec))).toNat := rfl
  obtain ⟨s, hs, rfl⟩ | ⟨s, m, e, hm, hs, hv, -⟩ := unpack_of_value? hx
  · obtain ⟨s', hs', rfl⟩ | ⟨s', m', e', hm', hs', hw, -⟩ := unpack_of_value? hy
    · rw [hs, hs', UnpackedFloat.sub] at hbits
      rw [sub_zero]
      split at hbits <;> exact zero hbits
    · -- Zero less a number has the word of the other sign.
      rw [hs, hs'] at hbits
      have hneg : (-y).toBits.toNat = (UnpackedFloat.pack .binary64
          (UnpackedFloat.unpack .binary64 y.toBits.toBitVec).neg).toNat := rfl
      rw [hs'] at hneg
      rw [zero_sub]
      exact (of_value? (value?_neg hy)).of_toBits (hbits.trans hneg.symm)
  · obtain ⟨s', hs', rfl⟩ | ⟨s', m', e', hm', hs', hw, -⟩ := unpack_of_value? hy
    · rw [hs'] at hbits
      have hnan : Format.binary64.read x.toBits.toBitVec.toNat ≠ .nan := by
        intro hnan
        rw [value?, reading, show x.toBits.toNat = x.toBits.toBitVec.toNat from rfl, hnan] at hx
        cases hx
      have hsame : (x - y).toBits.toNat = x.toBits.toNat := by
        rw [hbits, hs, show UnpackedFloat.sub .binary64 (.finite s m e hm) (.zero s') =
          .finite s m e hm from rfl, ← hs, pack_unpack _ hnan]
        rfl
      rw [sub_zero]
      exact (of_value? hx).of_toBits hsame
    · rw [hs, hs'] at hbits
      have h := normalize hbits
      rw [Int.cast_sub, sub_mul, decreased s m (min_le_left e e'),
        decreased s' m' (min_le_right e e'), ← hv, ← hw] at h
      exact h

/-- A product of doubles is the rounded product. -/
theorem mul (hx : value? x = some v) (hy : value? y = some w) : IsRounding (v * w) (x * y) := by
  have hbits : (x * y).toBits.toNat = (UnpackedFloat.pack .binary64
      (UnpackedFloat.mul .binary64 (UnpackedFloat.unpack .binary64 x.toBits.toBitVec)
        (UnpackedFloat.unpack .binary64 y.toBits.toBitVec))).toNat := rfl
  obtain ⟨s, hs, rfl⟩ | ⟨s, m, e, hm, hs, hv, hlow, hfull⟩ := unpack_of_value? hx
  · rw [zero_mul]
    obtain ⟨s', hs', -⟩ | ⟨s', m', e', hm', hs', -⟩ := unpack_of_value? hy <;>
      rw [hs, hs'] at hbits <;> exact zero hbits
  · obtain ⟨s', hs', rfl⟩ | ⟨s', m', e', hm', hs', hw, hlow', hfull'⟩ := unpack_of_value? hy
    · rw [hs, hs'] at hbits
      rw [mul_zero]
      exact zero hbits
    · rw [hs, hs'] at hbits
      have hmm : 0 < m * m' := Nat.mul_pos hm hm'
      have hplace : e + e' ≤ Format.binary64.place ((m * m' : ℕ) * 2 ^ (e + e')) := by
        rw [← targetExponent_eq hmm]
        show e + e' ≤ max (((m * m').log2 : ℤ) + 1 + (e + e') - (1 + 52 : ℕ))
          (3 - 2 ^ 10 - (1 + 52 : ℕ))
        by_cases hfullProduct : 2 ^ 52 ≤ m * m'
        · have hlog := (Nat.le_log2 hmm.ne').mpr hfullProduct
          omega
        · -- Neither factor has a full significand, so both are in the lowest place.
          have hm52 : ¬2 ^ 52 ≤ m := fun h => hfullProduct (h.trans (Nat.le_mul_of_pos_right m hm'))
          have hm52' : ¬2 ^ 52 ≤ m' := fun h =>
            hfullProduct (h.trans (Nat.le_mul_of_pos_left m' hm))
          have he : ¬-1074 < e := fun h => hm52 (hfull h)
          have he' : ¬-1074 < e' := fun h => hm52' (hfull' h)
          omega
      have hsign : isMinus (s * s') = (isMinus s != isMinus s') := by
        cases s <;> cases s' <;> rfl
      have hvalue : v * w = signed (isMinus (s * s')) ((m * m' : ℕ) * 2 ^ (e + e')) := by
        rw [hv, hw, hsign, signed_mul, Nat.cast_mul, zpow_add₀ two_ne_zero]
        congr 1
        ring
      refine of_ratio hvalue ?_
      rw [hbits]
      exact toNat_pack_roundExact (s * s') hmm hplace (ratioOf_den_pos _ _) (ratioOf_eq _ _)

end IsRounding

theorem toNat_toBits_ofRatio (negative : Bool) (num den : ℕ) :
    (ofRatio negative num den).toBits.toNat = Format.binary64.roundSigned negative num den := by
  have hle := Format.round_le_infinity .binary64 num den
  have hinfinity : Format.binary64.infinity = 2047 * 2 ^ 52 := rfl
  have hsign : Format.binary64.signBit = 2 ^ 63 := rfl
  have hlt : Format.binary64.roundSigned negative num den < 2 ^ 64 := by
    rw [Format.roundSigned, hsign]
    split <;> omega
  have hword : (UInt64.ofNat (Format.binary64.roundSigned negative num den)).toBitVec.toNat =
      Format.binary64.roundSigned negative num den := UInt64.toNat_ofNat_of_lt' hlt
  have hread : Format.binary64.read
      (UInt64.ofNat (Format.binary64.roundSigned negative num den)).toBitVec.toNat ≠ .nan := by
    rw [hword, Format.roundSigned_eq]
    rcases hle.lt_or_eq with h | h
    · rw [Format.read_eq negative h]
      exact Reading.noConfusion
    · rw [h, Format.read_infinity]
      exact Reading.noConfusion
  have hbits : (ofRatio negative num den).toBits.toNat = (UnpackedFloat.pack .binary64
      (UnpackedFloat.unpack .binary64
        (UInt64.ofNat (Format.binary64.roundSigned negative num den)).toBitVec)).toNat := rfl
  rw [hbits, pack_unpack _ hread, hword]

/-- The double of a quotient is the rounded quotient. -/
theorem isRounding_ofRatio (negative : Bool) (num : ℕ) {den : ℕ} (hden : 0 < den) :
    IsRounding (signed negative ((num : ℚ) / den)) (ofRatio negative num den) :=
  ⟨negative, num, den, hden, rfl, toNat_toBits_ofRatio negative num den⟩

/-! ## What else is read off the exact value -/

theorem reading_zero : reading 0.0 = .finite false 0 (-1074) := by rfl

theorem reading_one : reading 1.0 = .finite false (2 ^ 52) (-52) := by rfl

theorem value?_zero : value? 0.0 = some 0 := by
  rw [value?_of_reading reading_zero, Nat.cast_zero, zero_mul]
  rfl

theorem value?_one : value? 1.0 = some 1 := by
  rw [value?_of_reading reading_one]
  norm_num [signed]

/-- The factors of a finite product are finite. -/
theorem exists_value?_of_mul {x y : Float} (h : (x * y).isFinite = true) :
    (∃ v, value? x = some v) ∧ ∃ w, value? y = some w := by
  rw [← isFinite_iff, ← isFinite_iff]
  have hx : x.isFinite = (UnpackedFloat.unpack .binary64 x.toBits.toBitVec).isFinite := rfl
  have hy : y.isFinite = (UnpackedFloat.unpack .binary64 y.toBits.toBitVec).isFinite := rfl
  have hmul : (x * y).isFinite = (UnpackedFloat.unpack .binary64 (UnpackedFloat.pack .binary64
      (UnpackedFloat.mul .binary64 (UnpackedFloat.unpack .binary64 x.toBits.toBitVec)
        (UnpackedFloat.unpack .binary64 y.toBits.toBitVec)))).isFinite := rfl
  have hnan : (UnpackedFloat.unpack .binary64
      (UnpackedFloat.pack .binary64 .notANumber)).isFinite = false := by decide
  have hinfinity (s : Sign) : (UnpackedFloat.unpack .binary64
      (UnpackedFloat.pack .binary64 (.infinity s))).isFinite = false := by cases s <;> decide
  rw [hmul] at h
  rw [hx, hy]
  generalize UnpackedFloat.unpack .binary64 x.toBits.toBitVec = ux at h
  generalize UnpackedFloat.unpack .binary64 y.toBits.toBitVec = uy at h
  cases ux <;> cases uy <;>
    simp_all [UnpackedFloat.mul, UnpackedFloat.isFinite]

/-- The least integer that is not below a double. -/
theorem ceiling?_eq {x : Float} {v : ℚ} (h : value? x = some v) : ceiling? x = some ⌈v⌉ := by
  obtain ⟨negative, m, e, hread, rfl⟩ := reading_of_value? h
  have hden := ratioOf_den_pos m e
  have hd : (0 : ℚ) < (ratioOf m e).2 := by exact_mod_cast hden
  rw [ceiling?, toIntBy, hread, ← ratioOf_eq]
  dsimp only
  generalize (ratioOf m e).1 = num at *
  generalize (ratioOf m e).2 = den at *
  refine congrArg some (Eq.symm (Int.ceil_eq_iff.mpr ?_))
  cases negative with
  | false =>
      have hlow := Nat.div_mul_le_self (num + den - 1) den
      have hhigh := Nat.lt_div_mul_add hden (a := num + den - 1)
      rw [if_neg Bool.false_ne_true, Int.cast_natCast, signed, if_neg Bool.false_ne_true,
        sub_lt_iff_lt_add, div_add_one hd.ne', lt_div_iff₀ hd, div_le_iff₀ hd]
      exact ⟨by exact_mod_cast (by omega), by exact_mod_cast (by omega)⟩
  | true =>
      have hlow := Nat.div_mul_le_self num den
      have hhigh := Nat.lt_div_mul_add hden (a := num)
      rw [if_pos rfl, Int.cast_neg, Int.cast_natCast, signed, if_pos rfl, neg_le_neg_iff,
        le_div_iff₀ hd, ← neg_add', neg_lt_neg_iff, div_lt_iff₀ hd, add_one_mul]
      exact ⟨by exact_mod_cast hhigh, by exact_mod_cast hlow⟩

/-- A double without its fraction. -/
theorem truncate?_eq {x : Float} {v : ℚ} (h : value? x = some v) :
    truncate? x = some (if 0 ≤ v then ⌊v⌋ else ⌈v⌉) := by
  obtain ⟨negative, m, e, hread, rfl⟩ := reading_of_value? h
  rw [truncate?, toIntBy, hread, ← ratioOf_eq]
  dsimp only
  generalize (ratioOf m e).1 = num
  generalize (ratioOf m e).2 = den
  have hfloor : ⌊(num : ℚ) / den⌋ = (num / den : ℕ) := Rat.floor_natCast_div_natCast num den
  have hnonneg : (0 : ℚ) ≤ num / den := div_nonneg (Nat.cast_nonneg num) (Nat.cast_nonneg den)
  cases negative with
  | false =>
      rw [if_neg Bool.false_ne_true, signed, if_neg Bool.false_ne_true, if_pos hnonneg, hfloor]
  | true =>
      rw [if_pos rfl, signed, if_pos rfl]
      rcases hnonneg.eq_or_lt with hzero | hpos
      · rw [← hzero, Int.floor_zero] at hfloor
        rw [← hzero, neg_zero, if_pos le_rfl, Int.floor_zero, ← hfloor, neg_zero]
      · rw [if_neg (not_le.mpr (neg_lt_zero.mpr hpos)), Int.ceil_neg, hfloor]

/-! ## Comparing with zero -/

theorem unpack_zero :
    UnpackedFloat.unpack .binary64 (0.0 : Float).toBits.toBitVec = .zero .positive := by rfl

theorem zero_lt_iff (x : Float) : 0.0 < x ↔ UnpackedFloat.lt (.zero .positive)
    (UnpackedFloat.unpack .binary64 x.toBits.toBitVec) = true := by
  rw [← unpack_zero]
  exact decide_eq_true_iff

theorem le_zero_iff (x : Float) : x ≤ 0.0 ↔ UnpackedFloat.le
    (UnpackedFloat.unpack .binary64 x.toBits.toBitVec) (.zero .positive) = true := by
  rw [← unpack_zero]
  exact decide_eq_true_iff

/-- What is not refused for being zero or less is positive, unless it is no number. -/
theorem zero_lt_iff_not_le {x : Float} (h : ¬x ≤ 0.0) : 0.0 < x ↔ x.isNaN = false := by
  have hnan : x.isNaN = (UnpackedFloat.unpack .binary64 x.toBits.toBitVec).isNaN := rfl
  rw [le_zero_iff] at h
  rw [zero_lt_iff, hnan]
  cases hu : UnpackedFloat.unpack .binary64 x.toBits.toBitVec with
  | notANumber => decide
  | zero s =>
      rw [hu] at h
      exact absurd rfl h
  | infinity s =>
      rw [hu] at h
      cases s with
      | negative => exact absurd rfl h
      | positive => decide
  | finite s =>
      rw [hu] at h
      cases s with
      | negative => exact absurd rfl h
      | positive => exact iff_of_true rfl rfl

theorem isNaN_of_value? {x : Float} {v : ℚ} (h : value? x = some v) : x.isNaN = false := by
  have hnan : x.isNaN = (UnpackedFloat.unpack .binary64 x.toBits.toBitVec).isNaN := rfl
  rw [hnan]
  obtain ⟨s, hs, -⟩ | ⟨s, m, e, hm, hs, -⟩ := unpack_of_value? h <;> rw [hs] <;> rfl

theorem pos_of_value? {x : Float} {v : ℚ} (h : value? x = some v) (hx : 0.0 < x) : 0 < v := by
  rw [zero_lt_iff] at hx
  obtain ⟨s, hs, -⟩ | ⟨s, m, e, hm, hs, rfl, -⟩ := unpack_of_value? h
  · rw [hs] at hx
    cases hx
  · rw [hs] at hx
    cases s with
    | negative => cases hx
    | positive => exact units_pos hm e

end Double
end SeededSketch
