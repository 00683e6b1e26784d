import SeededSketch.Number.Decimal
import SeededSketch.Text.Character

/-!
# Reading numerals

Texts that denote integers and doubles. Blanks may surround a numeral, underscores may stand
between two digits, and the decimal digits of every script are read; a double may also be
infinite or no number. Digits beyond ASCII and wide blanks are first brought to their ASCII
counterparts, so that one grammar remains.
-/

namespace SeededSketch.Text

/-- `s` in ASCII as far as numerals go: blanks become spaces and digits ASCII digits. A text that
is ASCII already keeps its control characters. -/
def asciiNumeral (s : List Char) : List Char :=
  if s.all isAscii then s
  else s.map fun c =>
    if c.toNat < 127 then c
    else if isBlank c then ' '
    else match decimalValue? c with
      | some d => Char.ofNat ('0'.toNat + d)
      | none => '?'

/-- `s` without its underscores, if each stands between two digits. -/
def withoutUnderscores? (s : List Char) : Option (List Char) :=
  let rec go (previous : Char) : List Char → Option (List Char)
    | [] => some []
    | '_' :: rest =>
      match rest with
      | next :: _ => if previous.isDigit && next.isDigit then go '_' rest else none
      | [] => none
    | c :: rest => (go c rest).map (c :: ·)
  go ' ' s

/-- The number that a run of decimal digits denotes. -/
def digitsValue (s : List Char) : Nat := s.foldl (fun n c => 10 * n + (c.toNat - '0'.toNat)) 0

/-- A sign in front of a numeral, and what follows it. -/
def splitSign : List Char → Bool × List Char
  | '-' :: rest => (true, rest)
  | '+' :: rest => (false, rest)
  | rest => (false, rest)

/-- What reading an integer can give. -/
inductive WholeReading where
  | whole (n : Int)
  | tooLong (digits : Nat)
  | malformed
  deriving DecidableEq, Repr

/-- Reads an integer. -/
def readWhole (s : String) : WholeReading :=
  let trimmed := trimBy isAsciiBlank (asciiNumeral s.toList)
  let (negative, rest) := splitSign trimmed
  match withoutUnderscores? rest with
  | none => .malformed
  | some digits =>
    if digits.isEmpty || !digits.all Char.isDigit then .malformed
    else if Decimal.maximalDigits < digits.length then .tooLong digits.length
    else .whole (if negative then -(digitsValue digits : Int) else digitsValue digits)

/-! ## Other bases -/

/-- The value of a digit of a base that is at most sixteen. -/
def digitIn? (base : Nat) (c : Char) : Option Nat :=
  let value :=
    if c.isDigit then c.toNat - '0'.toNat
    else if 'a' ≤ c ∧ c ≤ 'f' then c.toNat - 'a'.toNat + 10
    else if 'A' ≤ c ∧ c ≤ 'F' then c.toNat - 'A'.toNat + 10
    else base
  if value < base then some value else none

/-- The number of digits of a base, most significant first. -/
def valueInBase (base : Nat) (digits : List Nat) : Nat := digits.foldl (fun n d => base * n + d) 0

/-- The letter that marks digits of a base, behind a zero. -/
def baseMark? (base : Nat) : Option Char :=
  if base = 2 then some 'b' else if base = 8 then some 'o' else if base = 16 then some 'x' else none

/-- Digits without the mark of their base, which may be in front of them. -/
def withoutBaseMark (base : Nat) (s : List Char) : List Char :=
  match s with
  | '0' :: mark :: rest => if baseMark? base = some mark.toLower then rest else s
  | s => s

/-- Reads an integer in a base other than ten, without underscores between its digits. -/
def wholeIn? (base : Nat) (s : List Char) : Option Int :=
  let (negative, rest) := splitSign (trimBy isAsciiBlank (asciiNumeral s))
  let digits := withoutBaseMark base rest
  if digits.isEmpty then none
  else (digits.mapM (digitIn? base)).map fun values =>
    if negative then -(valueInBase base values : Int) else valueInBase base values

/-! ## Doubles -/

/-- The double nearest to `± digits * 10 ^ exponent`. Numbers that are out of range for any
double are settled without raising ten to a power. -/
def ofDecimal (negative : Bool) (digits : List Char) (exponent : Int) : Float :=
  let significant := digits.dropWhile (· == '0')
  let magnitude := (significant.length : Int) + exponent
  let x :=
    if significant.isEmpty || magnitude < -400 then 0.0
    else if 400 < magnitude then Double.infinity
    else
      let n := digitsValue significant
      if 0 ≤ exponent then Double.ofRatio false (n * tenPow exponent.toNat) 1
      else Double.ofRatio false n (tenPow (-exponent).toNat)
  if negative then -x else x

/-- The exponent part of a numeral: nothing, or a letter, a sign if there is one, and digits. -/
def exponentValue? : List Char → Option Int
  | [] => some 0
  | c :: rest =>
    if c = 'e' ∨ c = 'E' then
      let (negative, digits) := splitSign rest
      if digits.isEmpty || !digits.all Char.isDigit then none
      else some (if negative then -(digitsValue digits : Int) else digitsValue digits)
    else none

/-- An unsigned decimal numeral with an optional point and an optional exponent. -/
def unsignedReal? (negative : Bool) (s : List Char) : Option Float :=
  let whole := s.takeWhile Char.isDigit
  let afterWhole := s.dropWhile Char.isDigit
  let (fraction, afterFraction) :=
    match afterWhole with
    | '.' :: rest => (rest.takeWhile Char.isDigit, rest.dropWhile Char.isDigit)
    | rest => ([], rest)
  if whole.isEmpty && fraction.isEmpty then none
  else (exponentValue? afterFraction).map fun exponent =>
    ofDecimal negative (whole ++ fraction) (exponent - fraction.length)

/-- Reads a double. -/
def real? (s : String) : Option Float :=
  let trimmed := trimBy isAsciiBlank (asciiNumeral s.toList)
  (withoutUnderscores? trimmed).bind fun plain =>
    let (negative, rest) := splitSign plain
    let word := lowerAscii (.ofList rest)
    if word == "inf" || word == "infinity" then
      some (if negative then -Double.infinity else Double.infinity)
    else if word == "nan" then some Double.nan
    else unsignedReal? negative rest

end SeededSketch.Text
