import SeededSketch.Value.Arithmetic

/-!
# Functions on numbers

The functions that expressions apply. A sketch may bring along any function, and such a function
can fail on a double; those of the tables below are total on doubles. A memo may also hold other
values, on which the same formula is computed with the arithmetic of values; the outcome is turned
into a double at the end. That can fail, when the formula makes no sense of a value or the outcome
is too large for a double.
-/

namespace SeededSketch

/-- A function of one number; `onValue` is used where it is no double. -/
structure Unary where
  name : String
  onReal : Float → Except Fault Float
  onValue : Value → Except Fault Value

/-- A function of two numbers; `onValues` is used where not both are doubles. -/
structure Binary where
  name : String
  onReals : Float → Float → Except Fault Float
  onValues : Value → Value → Except Fault Value

def Unary.apply (f : Unary) : Value → Except Fault Float
  | .number (.real x) => f.onReal x
  | v => f.onValue v >>= Value.toReal

def Binary.apply (f : Binary) : Value → Value → Except Fault Float
  | .number (.real x), .number (.real y) => f.onReals x y
  | a, b => f.onValues a b >>= Value.toReal

namespace Value

/-- A whole number as a value. -/
def ofWhole (n : Int) : Value := .number (.whole n)

end Value

namespace Unary

/-- A function that has an outcome for every double. -/
def total (name : String) (onReal : Float → Float) (onValue : Value → Except Fault Value) :
    Unary :=
  ⟨name, fun x => .ok (onReal x), onValue⟩

def neg : Unary := total "neg" (fun x => -x) Value.neg

def abs : Unary := total "abs" Float.abs Value.abs

def double : Unary := total "double" (· * 2.0) fun v => v.mul (.ofWhole 2)

def half : Unary := total "half" (· / 2.0) fun v => v.quotient (.ofWhole 2)

def square : Unary := total "square" (fun x => x * x) fun v => v.mul v

def addHundred : Unary := total "add100" (· + 100.0) fun v => v.add (.ofWhole 100)

def constantSeven : Unary := total "const7" (fun _ => 7.0) fun _ => .ok (.ofWhole 7)

def sign : Unary :=
  total "sign" (fun x => if 0.0 < x then 1.0 else if x < 0.0 then -1.0 else 0.0) fun v => do
    let positive ← v.greater (.ofWhole 0)
    let negative ← v.less (.ofWhole 0)
    return .ofWhole (if positive then 1 else if negative then -1 else 0)

def isPositive : Unary :=
  total "is_pos" (fun x => if 0.0 < x then 1.0 else 0.0) fun v => do
    return .bool (← v.greater (.ofWhole 0))

def all : List Unary :=
  [neg, abs, double, half, square, addHundred, constantSeven, sign, isPositive]

/-- The function of a name. -/
def named? (name : String) : Option Unary := all.find? fun f => f.name == name

end Unary

namespace Binary

/-- A function that has an outcome for every two doubles. -/
def total (name : String) (onReals : Float → Float → Float)
    (onValues : Value → Value → Except Fault Value) : Binary :=
  ⟨name, fun x y => .ok (onReals x y), onValues⟩

def add : Binary := total "add" (· + ·) Value.add

def sub : Binary := total "sub" (· - ·) Value.sub

def mul : Binary := total "mul" (· * ·) Value.mul

def div : Binary := total "div" Number.realDivision Value.division

def first : Binary := total "first" (fun x _ => x) fun a _ => .ok a

def second : Binary := total "second" (fun _ y => y) fun _ b => .ok b

def maximum : Binary :=
  total "max" (fun x y => if x < y then y else x) fun a b => do
    return if ← b.greater a then b else a

def minimum : Binary :=
  total "min" (fun x y => if y < x then y else x) fun a b => do
    return if ← b.less a then b else a

def sumOfSquares : Binary :=
  total "sumsq" (fun x y => x * x + y * y) fun a b => do
    let left ← a.mul a
    let right ← b.mul b
    left.add right

/-- A fifth of the first number's size, and the second. -/
def fifthPlus : Binary :=
  total "absdiv5" (fun x y => x.abs / 5.0 + y) fun a b => do
    let fifth ← (← a.abs).quotient (.ofWhole 5)
    fifth.add b

def lessThan : Binary :=
  total "lt" (fun x y => if x < y then 1.0 else 0.0) fun a b => do return .bool (← a.less b)

def all : List Binary :=
  [add, sub, mul, div, first, second, maximum, minimum, sumOfSquares, fifthPlus, lessThan]

/-- The function of a name. -/
def named? (name : String) : Option Binary := all.find? fun f => f.name == name

end Binary
end SeededSketch
