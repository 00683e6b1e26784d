import SeededSketch.Value.Conversion

/-!
# The random stream

A stream of draws is a 32-bit linear congruential generator whose state is permuted on output.
It is a value: a draw returns the number drawn together with the stream that follows, and the
same stream always gives the same draws.

One draw advances the state twice. The two output words give 26 and 27 bits, which together make
a fraction of 53 bits: exactly as many as a double holds, so the fraction is not rounded.

A stream may begin at any integer; from its second state on the state is a word. Only a first
state far below zero gives no output.
-/

namespace SeededSketch

/-- The increment of every stream that is started from a seed. -/
def defaultIncrement : Int := 1013904223

/-- A stream: the present state, and the increment that stays with it. -/
structure Stream where
  state : Int
  increment : Int := defaultIncrement
  deriving DecidableEq, Repr

namespace Stream

/-- The lowest 32 bits of an integer. -/
def lowWord (n : Int) : UInt32 := UInt32.ofInt n

/-- The stream one state further on. -/
def next (s : Stream) : Stream :=
  { s with state := (lowWord s.state * 1664525 + lowWord s.increment).toNat }

/-- The integer `n` without its lowest `shift` bits. Beyond its length a shift changes nothing. -/
def shiftedRight (n : Int) (shift : Nat) : Int := n >>> min shift (n.natAbs.log2 + 1)

/-- The output word of a state. The bits above the lowest 28 choose how far the state is shifted
onto itself before the multiplication. -/
def output (state : Int) : Except Fault UInt32 :=
  let shift : Int := shiftedRight state 28 + 4
  if shift < 0 then .error .negativeShift
  else
    let word := (lowWord state ^^^ lowWord (shiftedRight state shift.toNat)) * 277803737
    .ok ((word >>> 22) ^^^ word)

/-- The stream of a seed. Only the seed's remainder modulo `2 ^ 32` counts. -/
def ofSeed (seed : Int) : Stream :=
  let warm := next ⟨0, defaultIncrement⟩
  next { warm with state := (lowWord warm.state + lowWord seed).toNat }

/-- The numerator of the fraction that a draw uses, over `2 ^ 53`. -/
def fractionNumerator (s : Stream) : Except Fault Nat := do
  let high ← output s.state
  let low ← output s.next.state
  return (high &&& 0x03ffffff).toNat * twoPow 27 + (low &&& 0x07ffffff).toNat

/-- The fraction that a draw uses, at least zero and less than one. -/
def fraction (s : Stream) : Except Fault Float := do
  return Double.ofRatio false (← s.fractionNumerator) (twoPow 53)

/-- Draws a number from the range that begins at `lo` and is as wide as `lo` and `hi` are apart,
and returns the stream after the draw. -/
def draw (s : Stream) (lo hi : Value) : Except Fault (Float × Stream) := do
  let fraction ← s.fraction
  let upper ← hi.toReal
  let lower ← lo.toReal
  return (fraction * (upper - lower).abs + lower, s.next.next)

end Stream
end SeededSketch
