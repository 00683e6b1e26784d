import SeededSketch.Number.Double

/-!
# Decimal texts of doubles

Two decimal forms. *Fixed places* rounds the exact value of a double to a number of places, a tie
going to the even digit. *Shortest* takes the fewest significant digits that read back as the
same double, and of those the nearest to its exact value.

Shortest digits are found by trial: for one digit, two digits and so on, the double lies between
two neighbours on the grid of that many digits, and each neighbour is rounded to see whether it
reads back. Seventeen digits always suffice.
-/

namespace SeededSketch.Decimal

/-- The most digits that an integer may be written or read with. -/
def maximalDigits : Nat := 4300

/-- The decimal digits of `n`, at least `width` of them, with zeros in front. -/
def padded (width n : Nat) : List Char :=
  let digits := Nat.toDigits 10 n
  List.replicate (width - digits.length) '0' ++ digits

/-- `thousandths / 1000` with three places; the sign is written only of a negative number. -/
def ofThousandths (negative : Bool) (thousandths : Nat) : String :=
  let sign := if negative && thousandths != 0 then "-" else ""
  sign ++ toString (thousandths / 1000) ++ "." ++ .ofList (padded 3 (thousandths % 1000))

/-- `x` with three places. What rounds to zero is written without a sign. -/
def threePlaces (x : Float) : String :=
  match Double.reading x with
  | .nan => "nan"
  | .infinite negative => if negative then "-inf" else "inf"
  | .finite negative mantissa exponent =>
    let ratio := ratioOf mantissa exponent
    ofThousandths negative (roundDiv (ratio.1 * 1000) ratio.2)

/-! ## Shortest digits -/

/-- A positive decimal number `digits * 10 ^ exponent`. -/
structure Scientific where
  digits : Nat
  exponent : Int
  deriving DecidableEq, Repr

/-- `num / den * 10 ^ shift`, as a quotient of naturals. -/
def scaleByTen (num den : Nat) (shift : Int) : Nat × Nat :=
  if 0 ≤ shift then (num * tenPow shift.toNat, den) else (num, den * tenPow (-shift).toNat)

namespace Scientific

def ratio (s : Scientific) : Nat × Nat := scaleByTen s.digits 1 s.exponent

/-- The same number without zeros at the end of its digits; `fuel` bounds their count. -/
def trim : Nat → Scientific → Scientific
  | 0, s => s
  | fuel + 1, s =>
    if s.digits % 10 = 0 then trim fuel ⟨s.digits / 10, s.exponent + 1⟩ else s

end Scientific

/-- The number of digits before the decimal point of `num / den`, both positive; zero or less
counts the zeros behind the point. The scale makes every positive double exceed one. -/
def pointPosition (num den : Nat) : Int :=
  ((Nat.toDigits 10 (num * tenPow 400 / den)).length : Int) - 400

/-- Whether `s` is the exact value `num / den` or rounds to the same double, whose word is
`word`. -/
def readsBack (word : Nat) (s : Scientific) : Bool :=
  Format.binary64.round s.ratio.1 s.ratio.2 == word

/-- The nearer to `num / den` of its two neighbours on the grid of `count` digits, among those
that read back as `word`. -/
def onGrid? (word num den count : Nat) : Option Scientific :=
  let exponent := pointPosition num den - count
  let scaled := scaleByTen num den (-exponent)
  let below : Scientific := ⟨scaled.1 / scaled.2, exponent⟩
  let above : Scientific := ⟨scaled.1 / scaled.2 + 1, exponent⟩
  let nearest : Scientific := ⟨roundDiv scaled.1 scaled.2, exponent⟩
  if readsBack word nearest then some nearest
  else if readsBack word below then some below
  else if readsBack word above then some above
  else none

/-- The shortest digits of the positive number `num / den`, the value of the double with the
word `word`. -/
def shortest (word num den : Nat) : Scientific :=
  let found := (List.range 17).findSome? fun count => onGrid? word num den (count + 1)
  (found.getD ⟨0, 0⟩).trim 20

/-- The digits `digits` with a point after `position` of them, zeros filling the gaps. -/
def positional (digits : List Char) (position : Int) : List Char :=
  if position ≤ 0 then
    ['0', '.'] ++ List.replicate (-position).toNat '0' ++ digits
  else if (digits.length : Int) ≤ position then
    digits ++ List.replicate (position - digits.length).toNat '0' ++ ['.', '0']
  else digits.take position.toNat ++ ['.'] ++ digits.drop position.toNat

/-- The digits `digits` with a point after the first, and the power of ten. -/
def exponential (digits : List Char) (exponent : Int) : List Char :=
  let fraction := digits.drop 1
  digits.take 1 ++ (if fraction.isEmpty then [] else '.' :: fraction) ++ ['e']
    ++ [if exponent < 0 then '-' else '+'] ++ padded 2 exponent.natAbs

/-- The text of the shortest digits: positional from one ten-thousandth up to sixteen digits
before the point, with a power of ten otherwise. -/
def Scientific.text (s : Scientific) : List Char :=
  let digits := Nat.toDigits 10 s.digits
  let position := (digits.length : Int) + s.exponent
  if -4 < position ∧ position ≤ 16 then positional digits position
  else exponential digits (position - 1)

/-- The shortest text that reads back as `x`. -/
def shortestText (x : Float) : String :=
  match Double.reading x with
  | .nan => "nan"
  | .infinite negative => if negative then "-inf" else "inf"
  | .finite negative mantissa exponent =>
    let sign := if negative then "-" else ""
    let ratio := ratioOf mantissa exponent
    let word := x.toBits.toNat % Format.binary64.signBit
    if mantissa = 0 then sign ++ "0.0"
    else sign ++ .ofList (shortest word ratio.1 ratio.2).text

end SeededSketch.Decimal
