import SeededSketch.Proofs.Order
import SeededSketch.Proofs.Thousandths
import SeededSketch.Svg

/-!
# The attributes of a colour

A colour is four doubles, any four.  Between them and the two attributes of a polygon stand the
conversion from hue to red, green and blue, which may give anything, and then a channel is brought
into the unit interval (`exists_value?_clampUnit`), multiplied and rounded.  Neither rounding leads
out of the range, because the ends of the range are doubles and integers themselves.  So every level
is one from 0 to 255 and has two hexadecimal digits, and the opacity is a number of thousandths from
0 to 1000.

`Rgb8.read?` is what the digits of a fill stand for, read without regard to how they were written.
-/

namespace SeededSketch

namespace Double

variable {x : Float} {v : ℚ}

theorem value?_255 : value? 255.0 = some 255 := by
  have hread : reading 255.0 = .finite false (255 * 2 ^ 45) (-45) := by decide +kernel
  rw [value?_of_reading hread]
  norm_num [signed]

/-- The integer nearest to a double. -/
theorem exists_nearest? (h : value? x = some v) : ∃ k, nearest? x = some k ∧ IsNearestInt v k := by
  obtain ⟨negative, m, e, hread, rfl⟩ := reading_of_value? h
  have hnearest := isNearest_roundDiv (ratioOf m e).1 (ratioOf_den_pos m e)
  rw [ratioOf_eq] at hnearest
  rw [nearest?, toIntBy, hread]
  exact ⟨_, rfl, isNearestInt_signed hnearest⟩

theorem exists_value?_finiteOrZero (x : Float) : ∃ v, value? (finiteOrZero x) = some v := by
  rw [finiteOrZero]
  split
  · rename_i hfinite
    exact (isFinite_iff x).mp hfinite
  · exact ⟨0, value?_zero⟩

/-- Whatever a double is, it is brought into the unit interval. -/
theorem exists_value?_clampUnit (x : Float) :
    ∃ v, value? (clampUnit (finiteOrZero x)) = some v ∧ 0 ≤ v ∧ v ≤ 1 := by
  obtain ⟨v, hv⟩ := exists_value?_finiteOrZero x
  rw [clampUnit]
  split
  · exact ⟨0, value?_zero, le_rfl, zero_le_one⟩
  · rename_i hlow
    split
    · exact ⟨1, value?_one, zero_le_one, le_rfl⟩
    · rename_i hhigh
      rw [lt_iff hv value?_zero, not_lt] at hlow
      rw [lt_iff value?_one hv, not_lt] at hhigh
      exact ⟨v, hv, hlow, hhigh⟩

end Double

open Double

/-! ## Levels -/

namespace Rgb

/-- The level of a channel: the integer nearest to its part of 255, which is one from 0 to 255. -/
def IsLevel (x : Float) (n : ℕ) : Prop :=
  nearest? (clampUnit (finiteOrZero x) * 255.0) = some (n : ℤ) ∧ n ≤ 255

theorem isLevel_level (x : Float) : IsLevel x (level x) := by
  obtain ⟨v, hv, hnonneg, hle⟩ := exists_value?_clampUnit x
  obtain ⟨w, hw, hwNonneg, hwLe⟩ := (IsRounding.mul hv value?_255).between value?_zero value?_255
    (by positivity) (by linarith)
  obtain ⟨k, hk, hnearest⟩ := exists_nearest? hw
  have hlow : 0 ≤ k := (IsNearestInt.intCast 0).mono hnearest (by exact_mod_cast hwNonneg)
  have hhigh : k ≤ 255 := hnearest.mono (IsNearestInt.intCast 255) (by exact_mod_cast hwLe)
  have hlevel : (level x : ℤ) = k := by
    rw [level, hk, Option.getD_some, Int.toNat_of_nonneg hlow]
  exact ⟨by rw [hlevel, hk], by omega⟩

end Rgb

/-! ## Hexadecimal digits -/

namespace Rgb8

/-- The capital hexadecimal digits. -/
def capitals : List Char := "0123456789ABCDEF".toList

/-- The number that two hexadecimal digits stand for. -/
def readPair? (high low : Char) : Option ℕ := do
  return 16 * (← Text.digitIn? 16 high) + (← Text.digitIn? 16 low)

/-- The levels that a fill stands for: a number sign and two digits for each level. -/
def read? : List Char → Option Rgb8
  | ['#', red, red', green, green', blue, blue'] => do
    return ⟨← readPair? red red', ← readPair? green green', ← readPair? blue blue'⟩
  | _ => none

theorem hexDigits_two {n : ℕ} (h : n < 256) :
    Text.hexDigits 2 n = [Nat.digitChar (n / 16), Nat.digitChar (n % 16)] := by
  rw [Text.hexDigits]
  by_cases hsmall : n < 16
  · rw [Nat.toDigits_of_lt_base hsmall, Nat.div_eq_of_lt hsmall, Nat.mod_eq_of_lt hsmall]
    rfl
  · rw [Nat.toDigits_of_base_le (by decide) (Nat.le_of_not_lt hsmall),
      Nat.toDigits_of_lt_base (show n / 16 < 16 by omega)]
    rfl

theorem capital_digit : ∀ k < 16, (Nat.digitChar k).toUpper ∈ capitals ∧
    Text.digitIn? 16 (Nat.digitChar k).toUpper = some k := by
  decide

/-- A level is written with two capital digits, from which it is read. -/
theorem hexPair_eq {n : ℕ} (h : n ≤ 255) : ∃ high low, hexPair n = [high, low] ∧
    high ∈ capitals ∧ low ∈ capitals ∧ readPair? high low = some n := by
  obtain ⟨hhigh, hreadHigh⟩ := capital_digit (n / 16) (by omega)
  obtain ⟨hlow, hreadLow⟩ := capital_digit (n % 16) (by omega)
  refine ⟨_, _, by rw [hexPair, hexDigits_two (by omega)]; rfl, hhigh, hlow, ?_⟩
  rw [readPair?, hreadHigh, hreadLow]
  exact congrArg some (Nat.div_add_mod n 16)

theorem hex_spec {c : Rgb8} (hred : c.red ≤ 255) (hgreen : c.green ≤ 255) (hblue : c.blue ≤ 255) :
    (∃ digits, c.hex.toList = '#' :: digits ∧ digits.length = 6 ∧ ∀ d ∈ digits, d ∈ capitals) ∧
      read? c.hex.toList = some c := by
  obtain ⟨r, r', hr, hrMem, hrMem', hrRead⟩ := hexPair_eq hred
  obtain ⟨g, g', hg, hgMem, hgMem', hgRead⟩ := hexPair_eq hgreen
  obtain ⟨b, b', hb, hbMem, hbMem', hbRead⟩ := hexPair_eq hblue
  have hhex : c.hex.toList = ['#', r, r', g, g', b, b'] := by
    rw [hex, String.toList_ofList, hr, hg, hb]
    rfl
  rw [hhex]
  refine ⟨⟨_, rfl, rfl, ?_⟩, ?_⟩
  · simp only [List.forall_mem_cons]
    exact ⟨hrMem, hrMem', hgMem, hgMem', hbMem, hbMem', fun d hd => absurd hd List.not_mem_nil⟩
  · rw [read?, hrRead, hgRead, hbRead]
    rfl

end Rgb8

/-! ## The attributes -/

namespace Color

/-- The opacity is written as one, or as three places behind a zero. -/
theorem opacity_eq (c : Color) : c.opacity = "1.000" ∨ ∃ fraction : List Char,
    fraction.length = 3 ∧ (∀ d ∈ fraction, d.isDigit = true) ∧
      c.opacity.toList = '0' :: '.' :: fraction := by
  obtain ⟨v, hv, hnonneg, hle⟩ := exists_value?_clampUnit c.alpha
  obtain ⟨k, hk, htext⟩ := Decimal.exists_thousandths hv
  have hlow : 0 ≤ k := (IsNearestInt.intCast 0).mono hk (by norm_num; linarith)
  have hhigh : k ≤ 1000 := hk.mono (IsNearestInt.intCast 1000) (by norm_num; linarith)
  rw [opacity, htext]
  rcases hhigh.eq_or_lt with rfl | hlt
  · left
    decide
  · right
    refine ⟨Decimal.padded 3 (k.natAbs % 1000), ?_, fun d => Decimal.isDigit_of_mem_padded, ?_⟩
    · exact Decimal.length_padded (by decide) (Nat.mod_lt _ (by decide))
    · have hwhole : k.natAbs / 1000 = 0 := by omega
      rw [Decimal.toList_ofThousandths_int, if_neg (Int.not_lt.mpr hlow), hwhole]
      rfl

/-- The attributes of a polygon are well formed, whatever its colour is. -/
theorem attributes_wellFormed (c : Color) :
    (∀ fill width height vertices p, fill.settle = .ok c →
        Svg.polygon width height vertices fill = .ok p →
        p.fill.hex = c.hex ∧ p.opacity = c.opacity) ∧
      (∃ digits, c.hex.toList = '#' :: digits ∧ digits.length = 6 ∧
        ∀ d ∈ digits, d ∈ Rgb8.capitals) ∧
      Rgb8.read? c.hex.toList = some c.toRgb.toRgb8 ∧
      Rgb.IsLevel c.toRgb.red c.toRgb.toRgb8.red ∧
      Rgb.IsLevel c.toRgb.green c.toRgb.toRgb8.green ∧
      Rgb.IsLevel c.toRgb.blue c.toRgb.toRgb8.blue ∧
      (c.opacity = "1.000" ∨ ∃ fraction : List Char, fraction.length = 3 ∧
        (∀ d ∈ fraction, d.isDigit = true) ∧ c.opacity.toList = '0' :: '.' :: fraction) := by
  have hred := Rgb.isLevel_level c.toRgb.red
  have hgreen := Rgb.isLevel_level c.toRgb.green
  have hblue := Rgb.isLevel_level c.toRgb.blue
  obtain ⟨hdigits, hread⟩ := Rgb8.hex_spec (c := c.toRgb.toRgb8) hred.2 hgreen.2 hblue.2
  refine ⟨fun fill width height vertices p hfill h => ?_, hdigits, hread, hred, hgreen, hblue,
    opacity_eq c⟩
  obtain ⟨center, -, h⟩ := bind_eq_ok h
  obtain ⟨color, hcolor, h⟩ := bind_eq_ok h
  cases hfill.symm.trans hcolor
  cases h
  exact ⟨rfl, rfl⟩

example : (⟨Double.nan, Double.infinity, 2.0, -1.0⟩ : Color).hex = "#FFFFFF" ∧
    (⟨Double.nan, Double.infinity, 2.0, -1.0⟩ : Color).opacity = "0.000" := by decide +kernel

end Color
end SeededSketch
