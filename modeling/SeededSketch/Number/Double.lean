import SeededSketch.Number.Format

/-!
# Doubles and singles

Operations on `Float` that need its exact value: reading the bits, rounding a quotient or an
integer to the nearest double, rounding a double to an integer, and the remainder on division
by one. Each goes through `Format.read` and `Format.round`, because the corresponding functions
of `Float` are opaque.

Coordinates are stored in binary32 and computed in binary64. `Single` is the stored word;
`Single.ofFloat` rounds a double to it and `Single.toFloat` gives it back without rounding.
-/

namespace SeededSketch

namespace Double

/-- What `x` denotes. -/
def reading (x : Float) : Reading := Format.binary64.read x.toBits.toNat

/-- The double nearest to `± num / den`. -/
def ofRatio (negative : Bool) (num den : Nat) : Float :=
  .ofBits (.ofNat (Format.binary64.roundSigned negative num den))

def infinity : Float := .ofBits 0x7ff0000000000000

def nan : Float := .ofBits 0x7ff8000000000000

/-- The double nearest to an integer, if the integer is not too large for one. -/
def ofInt? (n : Int) : Option Float :=
  let x := ofRatio (decide (n < 0)) n.natAbs 1
  if x.isInf then none else some x

/-- The sign bit of `x`. -/
def isNegative (x : Float) : Bool := x.toBits.toNat / Format.binary64.signBit % 2 == 1

/-- `x` with the sign of `y`. -/
def withSignOf (x y : Float) : Float := if isNegative y then -x.abs else x.abs

/-- An integer near `x`, chosen by `choose` from the sign, numerator and denominator of `x`. -/
def toIntBy (choose : Bool → Nat → Nat → Int) (x : Float) : Option Int :=
  match reading x with
  | .finite negative mantissa exponent =>
    let ratio := ratioOf mantissa exponent
    some (choose negative ratio.1 ratio.2)
  | _ => none

/-- The integer part of `x`, rounded towards zero. -/
def truncate? : Float → Option Int :=
  toIntBy fun negative num den => if negative then -(num / den : Nat) else (num / den : Nat)

/-- The least integer that is not less than `x`. -/
def ceiling? : Float → Option Int :=
  toIntBy fun negative num den =>
    if negative then -(num / den : Nat) else ((num + den - 1) / den : Nat)

/-- The integer nearest to `x`, a tie going to the even one. -/
def nearest? : Float → Option Int :=
  toIntBy fun negative num den => if negative then -(roundDiv num den : Nat) else roundDiv num den

/-- What is left of `x` when its integer part is taken away, with the sign of `x`. No rounding
takes place: the fraction of a double is a double. -/
def fraction (x : Float) : Float :=
  match reading x with
  | .finite negative mantissa exponent =>
    let ratio := ratioOf mantissa exponent
    ofRatio negative (ratio.1 % ratio.2) ratio.2
  | _ => nan

/-- The remainder of `x` on division by one, counted upwards from the integer below `x`. A tiny
negative `x` gives `1.0`, the double nearest to the exact remainder; an infinite one gives no
number. -/
def modOne (x : Float) : Float :=
  let r := fraction x
  if r == 0.0 then 0.0 else if r < 0.0 then r + 1.0 else r

/-- `x`, or zero in place of an infinity or no number. -/
def finiteOrZero (x : Float) : Float := if x.isFinite then x else 0.0

/-- `x` brought into the unit interval: below zero to zero, above one to one. -/
def clampUnit (x : Float) : Float := if x < 0.0 then 0.0 else if 1.0 < x then 1.0 else x

end Double

/-! ## Singles -/

/-- A binary32 word. -/
structure Single where
  bits : UInt32
  deriving DecidableEq, Repr

namespace Single

def zero : Single := ⟨0⟩

def nan : Single := ⟨0x7fc00000⟩

def reading (s : Single) : Reading := Format.binary32.read s.bits.toNat

/-- The single nearest to `± num / den`. -/
def ofRatio (negative : Bool) (num den : Nat) : Single :=
  ⟨.ofNat (Format.binary32.roundSigned negative num den)⟩

/-- The single nearest to an integer, rounded once. -/
def ofInt (n : Int) : Single := ofRatio (decide (n < 0)) n.natAbs 1

private def signedInfinity (negative : Bool) : Single :=
  if negative then ⟨0xff800000⟩ else ⟨0x7f800000⟩

/-- The single nearest to a double. -/
def ofFloat (x : Float) : Single :=
  match Double.reading x with
  | .nan => nan
  | .infinite negative => signedInfinity negative
  | .finite negative mantissa exponent =>
    let ratio := ratioOf mantissa exponent
    ofRatio negative ratio.1 ratio.2

/-- The double that denotes the same number. -/
def toFloat (s : Single) : Float :=
  match s.reading with
  | .nan => Double.nan
  | .infinite negative => if negative then -Double.infinity else Double.infinity
  | .finite negative mantissa exponent =>
    let ratio := ratioOf mantissa exponent
    Double.ofRatio negative ratio.1 ratio.2

/-- The number of the other sign. -/
def neg (s : Single) : Single := ⟨s.bits ^^^ 0x80000000⟩

instance : Neg Single := ⟨neg⟩

end Single

end SeededSketch
