import SeededSketch.Fault
import SeededSketch.Text.Numeral

/-!
# Converting values

A value is taken as a double or as an integer where one is asked for: numbers, truth values and
texts or bytes that hold a numeral are, everything else is refused. An integer may be too large for
a double; a double loses its fraction on becoming an integer, and must be finite for that.
-/

namespace SeededSketch

/-- The double nearest to an integer. -/
def Number.ofWhole (n : Int) : Except Fault Float :=
  match Double.ofInt? n with
  | some x => .ok x
  | none => .error .tooLargeForReal

def Number.toReal : Number → Except Fault Float
  | whole n => ofWhole n
  | real x => .ok x

/-- The integer that `round?` makes of a double, unless the double is not finite. -/
def wholeBy (round? : Float → Option Int) (x : Float) : Except Fault Int :=
  match round? x with
  | some n => .ok n
  | none => .error (if x.isNaN then .nanToWhole else .infinityToWhole)

namespace Value

/-- The text of bytes that are characters of ASCII. -/
def asciiText? (data : List UInt8) : Option String :=
  if data.all (· < 0x80) then some (.ofList (data.map fun b => Char.ofNat b.toNat)) else none

/-- The numeral that a value holds as a text or as bytes. -/
def numeral? : Value → Option String
  | text s => some s
  | bytes data => asciiText? data
  | _ => none

/-- Whether a value is a text or bytes, so that it could hold a numeral. -/
def holdsText : Value → Bool
  | text _ | broken _ | bytes _ => true
  | _ => false

def toReal : Value → Except Fault Float
  | bool b => .ok (if b then 1.0 else 0.0)
  | number n => n.toReal
  | v =>
    match v.numeral?.bind Text.real? with
    | some x => .ok x
    | none => .error (if v.holdsText then .unreadableReal v else .notReal v)

def toWhole : Value → Except Fault Int
  | bool b => .ok (if b then 1 else 0)
  | number (.whole n) => .ok n
  | number (.real x) => wholeBy Double.truncate? x
  | v =>
    match v.numeral?.map Text.readWhole with
    | some (.whole n) => .ok n
    | some (.tooLong digits) => .error (.numeralTooLong digits)
    | _ => .error (if v.holdsText then .unreadableWhole v else .notWhole v)

/-- A value as a number to compare with zero; `relation` is the comparison asked for. -/
def toComparable (relation : String) : Value → Except Fault Number
  | bool b => .ok (.whole (if b then 1 else 0))
  | number n => .ok n
  | v => .error (.notOrdered relation v (.number (.whole 0)))

/-- The `n` items of a value that has exactly so many. -/
def unpack (n : Nat) (v : Value) : Except Fault (List Value) :=
  match v.items? with
  | none => .error (.notIterable v)
  | some items =>
    if items.length < n then .error (.tooFewItems n items.length)
    else if n < items.length then .error (.tooManyItems n)
    else .ok items

end Value
end SeededSketch
