import SeededSketch.Value.Conversion

/-!
# Arithmetic on numbers

Whole numbers are added, subtracted and multiplied exactly. As soon as a real takes part, a whole
number is first turned into a double, which fails when it is too large. A quotient is always a
double, rounded once from the exact quotient.
-/

namespace SeededSketch.Number

/-- Applies `onWholes` to two whole numbers, and `onReals` to the doubles of any others. -/
def combine (onWholes : Int → Int → Int) (onReals : Float → Float → Float) :
    Number → Number → Except Fault Number
  | .whole m, .whole n => .ok (.whole (onWholes m n))
  | a, b => do
    let x ← a.toReal
    let y ← b.toReal
    return .real (onReals x y)

def add : Number → Number → Except Fault Number := combine (· + ·) (· + ·)

def sub : Number → Number → Except Fault Number := combine (· - ·) (· - ·)

def mul : Number → Number → Except Fault Number := combine (· * ·) (· * ·)

def neg : Number → Number
  | .whole n => .whole (-n)
  | .real x => .real (-x)

def abs : Number → Number
  | .whole n => .whole n.natAbs
  | .real x => .real x.abs

/-- The quotient of two integers, the second not zero. -/
def wholeQuotient (m n : Int) : Except Fault Float :=
  let x := Double.ofRatio (decide (m < 0) != decide (n < 0)) m.natAbs n.natAbs
  if x.isInf then .error .quotientTooLarge else .ok x

/-- The quotient of two numbers, the second not zero. -/
def quotient : Number → Number → Except Fault Float
  | .whole m, .whole n => wholeQuotient m n
  | a, b => do
    let x ← a.toReal
    let y ← b.toReal
    return x / y

/-- The quotient of two doubles, also by zero: zero by zero is no number, anything else by zero
is infinite, with the sign that both signs give together. -/
def realDivision (x y : Float) : Float :=
  if y == 0.0 then
    if x == 0.0 || x.isNaN then Double.nan
    else Double.withSignOf Double.infinity x * Double.withSignOf 1.0 y
  else x / y

/-- The quotient of two numbers, also by zero. -/
def division (a b : Number) : Except Fault Float :=
  if b.eq (.whole 0) then do
    let x ← a.toReal
    let y ← b.toReal
    return realDivision x y
  else a.quotient b

end SeededSketch.Number
