import Mathlib
import SeededSketch.Number.Double

/-!
# What numbers denote

`Format.read` tells the number that a word denotes, and the operations on doubles are described by
their unpacked form.  `Double.read_eq_readingOf` joins the two: a double denotes what its unpacked
form says.  So what an operation does to unpacked doubles is what it does to the numbers they
denote, provided that packing its outcome changes nothing.

Here that is carried out for the change of sign.  `Single.ofFloat_neg` says that it commutes with
rounding to a single; only where no number is denoted may the words differ.
-/

namespace SeededSketch

/-- The number with the other sign. -/
def Reading.negate : Reading → Reading
  | nan => nan
  | infinite negative => infinite !negative
  | finite negative mantissa exponent => finite (!negative) mantissa exponent

namespace Double

open Float.Model (UnpackedFloat)
open Float.Model.UnpackedFloat

/-- Whether a sign is the negative one. -/
def isMinus : Sign → Bool
  | .negative => true
  | .positive => false

/-- What an unpacked double denotes. -/
def readingOf : UnpackedFloat → Reading
  | .notANumber => .nan
  | .infinity s => .infinite (isMinus s)
  | .zero s => .finite (isMinus s) 0 (-1074)
  | .finite s mantissa exponent _ => .finite (isMinus s) mantissa exponent

theorem isMinus_neg (s : Sign) : isMinus (-s) = !isMinus s := by
  cases s <;> rfl

theorem readingOf_neg (u : UnpackedFloat) : readingOf u.neg = (readingOf u).negate := by
  cases u <;> simp [UnpackedFloat.neg, readingOf, Reading.negate, isMinus_neg]

/-! ## The fields of a word -/

section Fields

variable (b : BitVec Float.Model.Format.binary64.numBits)

theorem toNat_unpackMantissa : (unpackMantissa b).toNat = b.toNat % 2 ^ 52 := by
  simp [unpackMantissa]

theorem toNat_unpackExponent : (unpackExponent b).toNat = b.toNat / 2 ^ 52 % 2 ^ 11 := by
  simp [unpackExponent, Nat.shiftRight_eq_div_pow]

theorem toNat_unpackSign : (unpackSign b).toNat = b.toNat / 2 ^ 63 % 2 := by
  simp [unpackSign, Nat.shiftRight_eq_div_pow]

theorem isMinus_unpackSign :
    isMinus (Sign.ofBitVec (unpackSign b)) = (b.toNat / 2 ^ 63 % 2 == 1) := by
  rw [← toNat_unpackSign]
  generalize unpackSign b = sign
  revert sign
  decide

theorem toNat_one_append {width : Nat} (v : BitVec width) :
    (1#1 ++ v).toNat = v.toNat + 2 ^ width := by
  rw [BitVec.toNat_append, ← Nat.shiftLeft_add_eq_or_of_lt v.isLt, Nat.shiftLeft_eq, Nat.add_comm]
  simp

/-- A word read as a number is the word unpacked. -/
theorem read_eq_readingOf :
    Format.binary64.read b.toNat = readingOf (UnpackedFloat.unpack .binary64 b) := by
  have hone : (-1#11).toNat = 2 ^ 11 - 1 := rfl
  have hmantissa := toNat_unpackMantissa b
  have hexponent := toNat_unpackExponent b
  have hall : unpackExponent b = -1#_ ↔ b.toNat / 2 ^ 52 % 2 ^ 11 = 2 ^ 11 - 1 := by
    rw [← hexponent, ← hone]
    exact BitVec.toNat_inj.symm
  have hzero : unpackExponent b = 0#_ ↔ b.toNat / 2 ^ 52 % 2 ^ 11 = 0 := by
    rw [← hexponent]
    exact BitVec.toNat_inj.symm
  have hfraction : unpackMantissa b = 0#_ ↔ b.toNat % 2 ^ 52 = 0 := by
    rw [← hmantissa]
    exact BitVec.toNat_inj.symm
  have hread : Format.binary64.read b.toNat =
      if b.toNat / 2 ^ 52 % 2 ^ 11 = 2 ^ 11 - 1 then
        if b.toNat % 2 ^ 52 = 0 then .infinite (b.toNat / 2 ^ 63 % 2 == 1) else .nan
      else if b.toNat / 2 ^ 52 % 2 ^ 11 = 0 then
        .finite (b.toNat / 2 ^ 63 % 2 == 1) (b.toNat % 2 ^ 52) (-1074)
      else .finite (b.toNat / 2 ^ 63 % 2 == 1) (b.toNat % 2 ^ 52 + 2 ^ 52)
        (-1074 + (b.toNat / 2 ^ 52 % 2 ^ 11 : Nat) - 1) := rfl
  rw [hread, UnpackedFloat.unpack]
  by_cases h₁ : b.toNat / 2 ^ 52 % 2 ^ 11 = 2 ^ 11 - 1
  · by_cases h₂ : b.toNat % 2 ^ 52 = 0
    · rw [if_pos h₁, if_pos h₂, if_pos (hall.mpr h₁), if_pos (hfraction.mpr h₂), readingOf,
        isMinus_unpackSign]
    · rw [if_pos h₁, if_neg h₂, if_pos (hall.mpr h₁), if_neg (hfraction.not.mpr h₂), readingOf]
  · rw [if_neg h₁, if_neg (hall.not.mpr h₁)]
    by_cases h₂ : b.toNat / 2 ^ 52 % 2 ^ 11 = 0
    · rw [if_pos h₂, if_pos (hzero.mpr h₂)]
      by_cases h₃ : b.toNat % 2 ^ 52 = 0
      · rw [dif_pos (hfraction.mpr h₃), readingOf, isMinus_unpackSign, h₃]
      · rw [dif_neg (hfraction.not.mpr h₃), readingOf, isMinus_unpackSign, hmantissa, hexponent, h₂]
        rfl
    · rw [if_neg h₂, if_neg (hzero.not.mpr h₂), readingOf, isMinus_unpackSign, hexponent,
        toNat_one_append, hmantissa]
      show Reading.finite _ _ (-1074 + ((b.toNat / 2 ^ 52 % 2 ^ 11 : Nat) : Int) - 1) =
        .finite _ _ ((b.toNat / 2 ^ 52 % 2 ^ 11 : Nat) - (1023 + 52))
      congr 1
      omega

/-! ## Packing again with the other sign -/

theorem toNat_packComponents (s : Sign) (exponent : BitVec 11) (mantissa : BitVec 52) :
    (packComponents .binary64 s exponent mantissa).toNat =
      (s.toBitVec.toNat * 2 ^ 11 + exponent.toNat) * 2 ^ 52 + mantissa.toNat := by
  show (s.toBitVec ++ exponent ++ mantissa).toNat = _
  rw [BitVec.toNat_append, ← Nat.shiftLeft_add_eq_or_of_lt mantissa.isLt, Nat.shiftLeft_eq,
    BitVec.toNat_append, ← Nat.shiftLeft_add_eq_or_of_lt exponent.isLt, Nat.shiftLeft_eq]

theorem unpackSign_packComponents (s : Sign) (exponent : BitVec 11) (mantissa : BitVec 52) :
    unpackSign (packComponents .binary64 s exponent mantissa) = s.toBitVec := by
  apply BitVec.eq_of_toNat_eq
  rw [toNat_unpackSign, toNat_packComponents]
  have hsign := s.toBitVec.isLt
  have hexponent := exponent.isLt
  have hmantissa := mantissa.isLt
  omega

theorem pack_subnormal (s : Sign) {m : Nat} (hpos : 0 < m) (hm : m < 2 ^ 52) :
    UnpackedFloat.pack .binary64 (.finite s m (-1074) hpos) =
      packComponents .binary64 s 0#_ (BitVec.ofNat _ m) := by
  have hlog : m.log2 < 52 := (Nat.log2_lt (by omega)).mpr hm
  rw [UnpackedFloat.pack, if_neg (by decide)]
  exact if_neg (show ¬m.log2 + 1 = 53 by omega)

theorem pack_normal (s : Sign) {m e : Nat} (hpos : 0 < m) (hlow : 2 ^ 52 ≤ m) (hhigh : m < 2 ^ 53)
    (he : e < 2 ^ 11 - 1) :
    UnpackedFloat.pack .binary64 (.finite s m (e - (1023 + 52)) hpos) =
      packComponents .binary64 s (BitVec.ofNat _ e) (BitVec.ofNat _ m) := by
  have hlog : m.log2 = 52 := (Nat.log2_eq_iff (by omega)).mpr ⟨hlow, hhigh⟩
  have hbiased : ((e : Int) - (1023 + 52) + 1023 + 52).toNat = e := by omega
  rw [UnpackedFloat.pack]
  show (if 2 ^ 11 ≤ ((e : Int) - (1023 + 52) + 1023 + 52).toNat + 1 then _
    else if m.log2 + 1 = 53 then
      packComponents .binary64 s (BitVec.ofNat _ ((e : Int) - (1023 + 52) + 1023 + 52).toNat) _
    else _) = _
  rw [hbiased, if_neg (by omega), if_pos (by omega)]

/-- Unless it denotes no number, a word that is unpacked and packed with the other sign has its
other fields again. -/
theorem pack_neg_unpack (h : unpackExponent b = -1#_ → unpackMantissa b = 0#_) :
    UnpackedFloat.pack .binary64 (UnpackedFloat.unpack .binary64 b).neg =
      packComponents .binary64 (-(Sign.ofBitVec (unpackSign b))) (unpackExponent b)
        (unpackMantissa b) := by
  rw [UnpackedFloat.unpack]
  by_cases h₁ : unpackExponent b = -1#_
  · rw [if_pos h₁, if_pos (h h₁), h₁, h h₁]
    rfl
  · rw [if_neg h₁]
    by_cases h₂ : unpackExponent b = 0#_
    · rw [if_pos h₂]
      by_cases h₃ : unpackMantissa b = 0#_
      · rw [dif_pos h₃, h₂, h₃]
        rfl
      · rw [dif_neg h₃, h₂]
        refine (pack_subnormal _ _ (unpackMantissa b).isLt).trans ?_
        rw [BitVec.ofNat_toNat, BitVec.setWidth_eq]
    · rw [if_neg h₂]
      have hexponent : (unpackExponent b).toNat < 2 ^ 11 - 1 := by
        have hlt := (unpackExponent b).isLt
        have hne : (unpackExponent b).toNat ≠ 2 ^ 11 - 1 := fun he => h₁ (BitVec.eq_of_toNat_eq he)
        change _ < 2 ^ 11 at hlt
        omega
      have hmantissa : (1#1 ++ unpackMantissa b).toNat = (unpackMantissa b).toNat + 2 ^ 52 :=
        toNat_one_append _
      have hlt : (unpackMantissa b).toNat < 2 ^ 52 := (unpackMantissa b).isLt
      have hfraction : BitVec.ofNat 52 ((unpackMantissa b).toNat + 2 ^ 52) = unpackMantissa b := by
        apply BitVec.eq_of_toNat_eq
        rw [BitVec.toNat_ofNat, Nat.add_mod_right, Nat.mod_eq_of_lt hlt]
      refine (pack_normal _ _ (by omega) (by omega) hexponent).trans ?_
      rw [hmantissa, hfraction, BitVec.ofNat_toNat, BitVec.setWidth_eq]

/-- A word with the other sign in front of its fields is unpacked to what has the other sign. -/
theorem unpack_packComponents_neg :
    UnpackedFloat.unpack .binary64 (packComponents .binary64 (-(Sign.ofBitVec (unpackSign b)))
        (unpackExponent b) (unpackMantissa b)) =
      (UnpackedFloat.unpack .binary64 b).neg := by
  have hsign (s : Sign) : Sign.ofBitVec s.toBitVec = s := by
    cases s <;> rfl
  unfold UnpackedFloat.unpack
  simp only [unpackExponent_packComponents, unpackMantissa_packComponents,
    unpackSign_packComponents, hsign]
  by_cases h₁ : unpackExponent b = -1#_
  · rw [if_pos h₁, if_pos h₁]
    by_cases h₂ : unpackMantissa b = 0#_
    · rw [if_pos h₂, if_pos h₂, UnpackedFloat.neg]
    · rw [if_neg h₂, if_neg h₂, UnpackedFloat.neg]
  · rw [if_neg h₁, if_neg h₁]
    by_cases h₂ : unpackExponent b = 0#_
    · rw [if_pos h₂, if_pos h₂]
      by_cases h₃ : unpackMantissa b = 0#_
      · rw [dif_pos h₃, dif_pos h₃, UnpackedFloat.neg]
      · rw [dif_neg h₃, dif_neg h₃, UnpackedFloat.neg]
    · rw [if_neg h₂, if_neg h₂, UnpackedFloat.neg]

/-- Packing and unpacking again changes nothing about a double that has been given the other
sign. -/
theorem unpack_pack_neg :
    UnpackedFloat.unpack .binary64
        (UnpackedFloat.pack .binary64 (UnpackedFloat.unpack .binary64 b).neg) =
      (UnpackedFloat.unpack .binary64 b).neg := by
  by_cases h : unpackExponent b = -1#_ ∧ unpackMantissa b ≠ 0#_
  · rw [show UnpackedFloat.unpack .binary64 b = .notANumber by
      rw [UnpackedFloat.unpack, if_pos h.1, if_neg h.2]]
    rfl
  · rw [pack_neg_unpack b (by rwa [not_and_not_right] at h), unpack_packComponents_neg]

end Fields

/-- The number of the other sign. -/
theorem reading_neg (x : Float) : reading (-x) = (reading x).negate := by
  have hbits : (-x).toBits.toNat = (UnpackedFloat.pack .binary64
      (UnpackedFloat.unpack .binary64 x.toBits.toBitVec).neg).toNat := rfl
  rw [reading, hbits, read_eq_readingOf, unpack_pack_neg, readingOf_neg, ← read_eq_readingOf]
  rfl

end Double

/-! ## Singles -/

theorem Format.round_le_infinity (f : Format) (num den : Nat) : f.round num den ≤ f.infinity := by
  rw [round]
  split
  · exact Nat.zero_le _
  · exact Nat.min_le_left _ _

namespace Single

/-- The two singles are the same one, or neither denotes a number. -/
def Same (s t : Single) : Prop := s = t ∨ s.reading = .nan ∧ t.reading = .nan

theorem Same.refl (s : Single) : s.Same s := .inl rfl

theorem Same.symm {s t : Single} (h : s.Same t) : t.Same s := by
  rcases h with rfl | ⟨hs, ht⟩
  · exact .inl rfl
  · exact .inr ⟨ht, hs⟩

theorem Same.toFloat_eq {s t : Single} (h : s.Same t) : s.toFloat = t.toFloat := by
  rcases h with rfl | ⟨hs, ht⟩
  · rfl
  · rw [toFloat, toFloat, hs, ht]

theorem toNat_bits_neg (s : Single) :
    (-s).bits.toNat = if s.bits.toNat < 2 ^ 31 then 2 ^ 31 + s.bits.toNat
      else s.bits.toNat - 2 ^ 31 := by
  have hlow : (s.bits.toNat ^^^ 2 ^ 31) % 2 ^ 31 = s.bits.toNat % 2 ^ 31 := by
    rw [Nat.xor_mod_two_pow, Nat.mod_self, Nat.xor_zero]
  have hhigh : (s.bits.toNat ^^^ 2 ^ 31) / 2 ^ 31 = s.bits.toNat / 2 ^ 31 ^^^ 1 := by
    rw [Nat.xor_div_two_pow, Nat.div_self (Nat.two_pow_pos 31)]
  have hbits : (-s).bits.toNat = s.bits.toNat ^^^ 2 ^ 31 := UInt32.toNat_xor _ _
  have hlt := s.bits.toNat_lt
  rw [hbits]
  split
  · rw [show s.bits.toNat / 2 ^ 31 = 0 by omega, Nat.zero_xor] at hhigh
    omega
  · rw [show s.bits.toNat / 2 ^ 31 = 1 by omega, Nat.xor_self] at hhigh
    omega

theorem toNat_bits_ofRatio (negative : Bool) (num den : Nat) :
    (ofRatio negative num den).bits.toNat =
      (if negative then 2 ^ 31 else 0) + Format.binary32.round num den := by
  have hround : Format.binary32.round num den < 2 ^ 31 :=
    Nat.lt_of_le_of_lt (Format.round_le_infinity _ _ _) (by decide)
  refine UInt32.toNat_ofNat_of_lt' ?_
  show (if negative then 2 ^ 31 else 0) + Format.binary32.round num den < 2 ^ 32
  cases negative <;> simp <;> omega

theorem ofRatio_not (negative : Bool) (num den : Nat) :
    ofRatio (!negative) num den = -ofRatio negative num den := by
  have hround : Format.binary32.round num den < 2 ^ 31 :=
    Nat.lt_of_le_of_lt (Format.round_le_infinity _ _ _) (by decide)
  have hword : (ofRatio (!negative) num den).bits = (-ofRatio negative num den).bits := by
    apply UInt32.toNat_inj.mp
    rw [toNat_bits_neg, toNat_bits_ofRatio, toNat_bits_ofRatio]
    cases negative with
    | false =>
        rw [Bool.not_false, if_pos rfl, if_neg Bool.false_ne_true, Nat.zero_add, if_pos hround]
    | true =>
        have hsigned : ¬2 ^ 31 + Format.binary32.round num den < 2 ^ 31 := by omega
        rw [Bool.not_true, if_neg Bool.false_ne_true, if_pos rfl, if_neg hsigned, Nat.zero_add,
          Nat.add_sub_cancel_left]
  exact congrArg mk hword

/-- Rounding a double of the other sign gives the single of the other sign. -/
theorem ofFloat_neg (x : Float) : (ofFloat (-x)).Same (-(ofFloat x)) := by
  rw [ofFloat, ofFloat, Double.reading_neg]
  cases Double.reading x with
  | nan => exact .inr ⟨rfl, rfl⟩
  | infinite negative => cases negative <;> exact .inl rfl
  | finite negative mantissa exponent => exact .inl (ofRatio_not ..)

end Single
end SeededSketch
