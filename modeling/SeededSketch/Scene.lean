import SeededSketch.Number.Arithmetic
import SeededSketch.Shape

/-!
# Scenes

A clock counts frames at a fixed rate, apart from real time.

A scene evaluates one shape again and again. Each tick is one pass: it starts from an empty memo
and from the stream that the tick before it left, and adds its form to the history. Stream,
clock and history move together, and only in a tick that succeeds; a run that fails half-way
keeps the ticks it has completed.
-/

namespace SeededSketch

/-! ## Clocks -/

/-- A clock: frames per second, the time of the first frame, and the number of the present
frame. -/
structure Clock where
  rate : Float
  start : Float
  frame : Nat

namespace Clock

/-- A clock at its first frame. The rate must not be zero or less. -/
def build (rate start : Value) : Except Fault Clock := do
  let rate ← rate.toReal
  if rate ≤ 0.0 then .error .rateNotPositive
  else return ⟨rate, ← start.toReal, 0⟩

/-- A clock of a given rate that starts at zero. -/
def ofRate (rate : Float) : Except Fault Clock :=
  build (.number (.real rate)) (.number (.real 0.0))

/-- The clock of a scene that is given none: one frame per second. -/
def standard : Clock := ⟨1.0, 0.0, 0⟩

/-- The time of the present frame in seconds. -/
def time (c : Clock) : Float := c.start + Double.ofRatio false c.frame 1 / c.rate

/-- The clock one frame further on. -/
def tick (c : Clock) : Clock := { c with frame := c.frame + 1 }

/-- The number of frames in a span of seconds, a part of a frame counting as a whole one. A
thousand-millionth of a frame is taken off first, to forgive the rounding of the product. -/
def frames (c : Clock) (seconds : Float) : Except Fault Int :=
  wholeBy Double.ceiling? (seconds * c.rate - 1e-9)

/-- The number of frames in a span of seconds that is given as a value; it must not be negative. -/
def framesFor (c : Clock) (seconds : Value) : Except Fault Int := do
  if (← seconds.toComparable "<").lt (.whole 0) then .error .secondsNegative
  else c.frames (← seconds.toReal)

end Clock

/-! ## Scenes -/

/-- A scene: its shape, the stream for the next tick, the clock, and the forms so far with the
oldest first. -/
structure Scene where
  shape : Shape
  stream : Stream
  clock : Clock
  history : List Form

namespace Scene

/-- A scene before its first tick. -/
def start (shape : Shape) (stream : Stream) (clock : Clock) : Scene := ⟨shape, stream, clock, []⟩

/-- The time of the next tick. -/
def time (s : Scene) : Float := s.clock.time

/-- The scene after a tick that gave `form` and left `stream`. -/
def advance (s : Scene) (form : Form) (stream : Stream) : Scene :=
  { s with stream, clock := s.clock.tick, history := s.history ++ [form] }

/-- One tick, with the form that it adds. -/
def tick (s : Scene) : Scene × Except Fault Form :=
  match s.shape.pass s.stream with
  | .ok (form, stream) => (s.advance form stream, .ok form)
  | .error fault => (s, .error fault)

/-- A number of ticks, with the forms that they add; the first that fails is the last. -/
def ticks : Nat → Scene → Scene × Except Fault (List Form)
  | 0, s => (s, .ok [])
  | n + 1, s =>
    match s.tick with
    | (s₁, .error fault) => (s₁, .error fault)
    | (s₁, .ok form) =>
      match ticks n s₁ with
      | (s₂, .ok forms) => (s₂, .ok (form :: forms))
      | (s₂, .error fault) => (s₂, .error fault)

/-- The number of ticks that a value asks for; it must not be negative. -/
def tickCount (n : Value) : Except Fault Nat := do
  if (← n.toComparable "<").lt (.whole 0) then .error .ticksNegative
  else return (← n.toWhole).toNat

/-- As many ticks as a value asks for. -/
def run (n : Value) (s : Scene) : Scene × Except Fault (List Form) :=
  match tickCount n with
  | .ok count => s.ticks count
  | .error fault => (s, .error fault)

/-- As many ticks as the clock has frames in a span of seconds. -/
def runFor (seconds : Value) (s : Scene) : Scene × Except Fault (List Form) :=
  match s.clock.framesFor seconds with
  | .ok count => s.run (.number (.whole count))
  | .error fault => (s, .error fault)

end Scene

end SeededSketch
