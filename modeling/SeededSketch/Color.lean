import SeededSketch.Value.Arithmetic

/-!
# Colours

A colour is given by hue, saturation, lightness and alpha, as doubles that are kept as they come.
Only when a colour is shown are its parts brought into range: what is not finite counts as zero,
and saturation, lightness and alpha are clamped to the unit interval. Showing a colour gives red,
green and blue between zero and one, then whole numbers up to 255, and the text of an attribute.
-/

namespace SeededSketch

/-- A colour; the hue is in turns. -/
structure Color where
  hue : Float
  saturation : Float
  lightness : Float
  alpha : Float

/-- Red, green and blue between zero and one. -/
structure Rgb where
  red : Float
  green : Float
  blue : Float

/-- Red, green and blue from 0 to 255. -/
structure Rgb8 where
  red : Nat
  green : Nat
  blue : Nat
  deriving DecidableEq, Repr

/-- Degrees as a part of a full turn, at least zero and less than one. The remainder of a tiny
negative angle rounds to a full turn and is folded to zero. -/
def turnOfDegrees (degrees : Float) : Float :=
  let turn := Double.modOne (degrees / 360.0)
  if 1.0 ≤ turn then 0.0 else turn

/-- One channel of a colour on the circle of hues, between the levels `low` and `high`: it rises
in the first sixth of the circle, stays up to one half, falls up to two thirds and stays low. -/
def hueLevel (low high hue : Float) : Float :=
  let turn := Double.modOne hue
  if turn < 1.0 / 6.0 then low + (high - low) * turn * 6.0
  else if turn < 0.5 then high
  else if turn < 2.0 / 3.0 then low + (high - low) * (2.0 / 3.0 - turn) * 6.0
  else low

namespace Rgb

/-- The colour of a hue, a lightness and a saturation. -/
def ofHls (hue lightness saturation : Float) : Rgb :=
  if saturation == 0.0 then ⟨lightness, lightness, lightness⟩
  else
    let high :=
      if lightness ≤ 0.5 then lightness * (1.0 + saturation)
      else lightness + saturation - lightness * saturation
    let low := 2.0 * lightness - high
    ⟨hueLevel low high (hue + 1.0 / 3.0), hueLevel low high hue,
      hueLevel low high (hue - 1.0 / 3.0)⟩

/-- The level from 0 to 255 nearest to a part of one, a tie going to the even level. -/
def level (x : Float) : Nat :=
  ((Double.nearest? (Double.clampUnit (Double.finiteOrZero x) * 255.0)).getD 0).toNat

def toRgb8 (c : Rgb) : Rgb8 := ⟨level c.red, level c.green, level c.blue⟩

/-- A colour from a value with three items. -/
def ofValue (v : Value) : Except Fault Rgb := do
  match ← v.unpack 3 with
  | [r, g, b] =>
    let red ← r.toReal
    let green ← g.toReal
    let blue ← b.toReal
    return ⟨red, green, blue⟩
  | _ => .error (.notIterable v)

end Rgb

namespace Rgb8

/-- Two hexadecimal digits in capitals. -/
def hexPair (n : Nat) : List Char := (Text.hexDigits 2 n).map Char.toUpper

/-- The number sign and six hexadecimal digits. -/
def hex (c : Rgb8) : String :=
  .ofList ('#' :: hexPair c.red ++ hexPair c.green ++ hexPair c.blue)

end Rgb8

namespace Color

def ofDegrees (degrees saturation lightness alpha : Float) : Color :=
  ⟨turnOfDegrees degrees, saturation, lightness, alpha⟩

def hueDegrees (c : Color) : Float := c.hue * 360.0

/-- The colour as it is shown. -/
def toRgb (c : Color) : Rgb :=
  Rgb.ofHls (Double.finiteOrZero c.hue) (Double.clampUnit (Double.finiteOrZero c.lightness))
    (Double.clampUnit (Double.finiteOrZero c.saturation))

/-- The text of the colour's attribute. -/
def hex (c : Color) : String := c.toRgb.toRgb8.hex

/-- The text of the opacity attribute. -/
def opacity (c : Color) : String :=
  Decimal.threePlaces (Double.clampUnit (Double.finiteOrZero c.alpha))

end Color

/-- What fills a rectangle: a colour, or four values that are taken for one when they are used. -/
inductive Fill where
  | color (c : Color)
  | raw (hue saturation lightness alpha : Value)

namespace Fill

/-- The colour that a fill is used as. -/
def settle : Fill → Except Fault Color
  | color c => .ok c
  | raw h s l a => do
    let hue ← h.toReal
    let saturation ← s.toReal
    let lightness ← l.toReal
    let alpha ← a.toReal
    return ⟨hue, saturation, lightness, alpha⟩

/-- The hue in degrees, by the arithmetic of values. -/
def hueDegrees : Fill → Except Fault Value
  | color c => .ok (.number (.real c.hueDegrees))
  | raw h _ _ _ => h.mul (.number (.real 360.0))

/-- The fill of four values, the hue in degrees. -/
def ofDegrees (h s l a : Value) : Except Fault Fill := do
  let degrees ← h.toReal
  let saturation ← s.toReal
  let lightness ← l.toReal
  let alpha ← a.toReal
  return .color (.ofDegrees degrees saturation lightness alpha)

end Fill
end SeededSketch
