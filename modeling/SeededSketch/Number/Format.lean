/-!
# Binary floating-point formats

A format is given by the widths of its two fields. This module reads a word of a format as the
number it denotes, and rounds an exact quotient of naturals to the nearest number of a format,
a tie going to the even significand. Everything is integer arithmetic, so each result can be
computed by the kernel and reasoned about without the machine's own operations.

The encoding is monotone: below the sign bit, the word of a larger number is the larger word.
`Format.round` therefore produces a word, and overflow is a comparison with `Format.infinity`.
-/

namespace SeededSketch

/-- Two to the power `n`. -/
def twoPow (n : Nat) : Nat := Nat.pow 2 n

/-- Ten to the power `n`. -/
def tenPow (n : Nat) : Nat := Nat.pow 10 n

/-- The integer nearest to `num / den`; a tie goes to the even neighbour. -/
def roundDiv (num den : Nat) : Nat :=
  let quotient := num / den
  let remainder := num % den
  if den < 2 * remainder ∨ (2 * remainder = den ∧ quotient % 2 = 1) then quotient + 1
  else quotient

/-- `num / den * 2 ^ shift`, as a quotient of naturals. -/
def scaleRatio (num den : Nat) (shift : Int) : Nat × Nat :=
  if 0 ≤ shift then (num * twoPow shift.toNat, den) else (num, den * twoPow (-shift).toNat)

/-- The exponent of the greatest power of two that is at most `num / den`, both positive. -/
def floorLog2 (num den : Nat) : Int :=
  let guess : Int := (num.log2 : Int) - den.log2
  let scaled := scaleRatio num den (-guess)
  if scaled.1 < scaled.2 then guess - 1 else guess

/-- The field widths of a binary floating-point format. -/
structure Format where
  fractionBits : Nat
  exponentBits : Nat

/-- What a word of a format denotes: `± mantissa * 2 ^ exponent`, an infinity, or no number. -/
inductive Reading where
  | nan
  | infinite (negative : Bool)
  | finite (negative : Bool) (mantissa : Nat) (exponent : Int)
  deriving DecidableEq, Repr

namespace Format

def binary64 : Format := ⟨52, 11⟩

def binary32 : Format := ⟨23, 8⟩

/-- The weight of the last place of the smallest numbers is `2 ^ lowest`. -/
def lowest (f : Format) : Int := 2 - twoPow (f.exponentBits - 1) - f.fractionBits

/-- The word of positive infinity, the first word that denotes no finite number. -/
def infinity (f : Format) : Nat := (twoPow f.exponentBits - 1) * twoPow f.fractionBits

/-- The word with the sign bit alone. -/
def signBit (f : Format) : Nat := twoPow (f.fractionBits + f.exponentBits)

/-- What the word `bits` denotes. -/
def read (f : Format) (bits : Nat) : Reading :=
  let negative := bits / f.signBit % 2 == 1
  let exponent := bits / twoPow f.fractionBits % twoPow f.exponentBits
  let fraction := bits % twoPow f.fractionBits
  if exponent = twoPow f.exponentBits - 1 then
    if fraction = 0 then .infinite negative else .nan
  else if exponent = 0 then .finite negative fraction f.lowest
  else .finite negative (fraction + twoPow f.fractionBits) (f.lowest + exponent - 1)

/-- The word of the number nearest to `num / den`, without its sign bit: a tie goes to the even
significand, and what is too large for the format goes to infinity.

The last place has the weight that leaves a full significand, but never less than `lowest`.
Counting the weights above `lowest` in steps of a full fraction field makes one sum serve the
subnormal numbers, the normal ones and a significand that rounds up to the next power of two. -/
def round (f : Format) (num den : Nat) : Nat :=
  if num = 0 then 0
  else
    let place := max f.lowest (floorLog2 num den - f.fractionBits)
    let scaled := scaleRatio num den (-place)
    min f.infinity
      ((place - f.lowest).toNat * twoPow f.fractionBits + roundDiv scaled.1 scaled.2)

/-- `round` with a sign bit in front. -/
def roundSigned (f : Format) (negative : Bool) (num den : Nat) : Nat :=
  (if negative then f.signBit else 0) + f.round num den

end Format

/-- The magnitude of a finite number, as a quotient of naturals. -/
def ratioOf (mantissa : Nat) (exponent : Int) : Nat × Nat :=
  scaleRatio mantissa 1 exponent

end SeededSketch
