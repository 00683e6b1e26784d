import SeededSketch.Expr
import SeededSketch.Form

/-!
# Shapes

A shape is the recipe of a picture: rectangles, turned, moved and laid over one another, with an
expression wherever a form has a number. A shape is built once and evaluated as often as wanted.
A paint is a colour whose four parts are expressions, the hue in degrees.

As with expressions, the constructors hold what they are given and the builders check it.

A shape is evaluated in the order in which it is written: a rectangle's width, height and paint,
an angle before the child it turns, both distances before the child they move, and the children
of a group from first to last. The parts of a paint are evaluated in the order hue, saturation,
lightness, alpha. Each step starts from the context that the step before it left.
-/

namespace SeededSketch

/-! ## Paints -/

inductive Paint where
  | hsla (hue saturation lightness alpha : Expr)
  | stray (v : Value)

namespace Paint

/-- The value that stands for a paint where its type is all that matters. -/
def asValue : Paint → Value
  | hsla .. => .node .paint
  | stray v => v

/-- The alpha of a paint that is given none. -/
def fullAlpha : Expr := .ofReal 1.0

/-- A paint from four expressions or numbers. -/
def build (hue saturation lightness alpha : Expr) : Except Fault Paint := do
  let h ← hue.lift
  let s ← saturation.lift
  let l ← lightness.lift
  let a ← alpha.lift
  return hsla h s l a

/-- The colour of a paint, and the context after its four parts. -/
def evaluate : Paint → Context → Except Fault (Color × Context)
  | hsla hue saturation lightness alpha, c => do
    let (h, c₁) ← hue.evaluate c
    let (s, c₂) ← saturation.evaluate c₁
    let (l, c₃) ← lightness.evaluate c₂
    let (a, c₄) ← alpha.evaluate c₃
    return (.ofDegrees (← h.toReal) (← s.toReal) (← l.toReal) (← a.toReal), c₄)
  | stray v, _ => .error (.noComponent v "hue")

end Paint

/-! ## Shapes -/

inductive Shape where
  /-- A filled rectangle around the origin. -/
  | rectangle (width height : Expr) (paint : Paint)
  /-- The child, turned about the origin. -/
  | rotate (angle : Expr) (child : Shape)
  /-- The child, moved. -/
  | move (dx dy : Expr) (child : Shape)
  /-- The children, the first at the back. -/
  | group (children : List Shape)
  | stray (v : Value)

namespace Shape

/-- The value that stands for a shape where its type is all that matters. -/
def asValue : Shape → Value
  | rectangle .. => .node .rectangle
  | rotate .. => .node .rotate
  | move .. => .node .move
  | group _ => .node .group
  | stray v => v

/-- A shape as it is; a stray value is refused. -/
def require : Shape → Except Fault Shape
  | stray v => .error (.notShape v)
  | s => .ok s

/-- A rectangle. Its paint is checked before its sides. -/
def buildRectangle (width height : Expr) : Paint → Except Fault Shape
  | .stray v => .error (.notPaint v)
  | paint => do
    let w ← width.lift
    let h ← height.lift
    return rectangle w h paint

def buildRotate (angle : Expr) (child : Shape) : Except Fault Shape := do
  let a ← angle.lift
  let s ← child.require
  return rotate a s

def buildMove (dx dy : Expr) (child : Shape) : Except Fault Shape := do
  let x ← dx.lift
  let y ← dy.lift
  let s ← child.require
  return move x y s

def buildGroup (children : List Shape) : Except Fault Shape := do
  return group (← children.mapM require)

end Shape

/-! ## Evaluation -/

namespace Shape

mutual

/-- The form of a shape, and the context after it. -/
def evaluate : Shape → Context → Except Fault (Form × Context)
  | rectangle width height paint, c => do
    let (w, c₁) ← width.evaluate c
    let (h, c₂) ← height.evaluate c₁
    let (color, c₃) ← paint.evaluate c₂
    return (.rectangle w h (.color color), c₃)
  | rotate angle child, c => do
    let (a, c₁) ← angle.evaluate c
    let (form, c₂) ← child.evaluate c₁
    return (.rotated a form, c₂)
  | move dx dy child, c => do
    let (x, c₁) ← dx.evaluate c
    let (y, c₂) ← dy.evaluate c₁
    let (form, c₃) ← child.evaluate c₂
    return (.translated x y form, c₃)
  | group children, c => do
    let (forms, c₁) ← evaluateAll children c
    return (.stacked forms, c₁)
  | stray v, _ => .error (.unknownShape v)

/-- The forms of several shapes, one after the other. -/
def evaluateAll : List Shape → Context → Except Fault (List Form × Context)
  | [], c => .ok ([], c)
  | shape :: rest, c => do
    let (form, c₁) ← shape.evaluate c
    let (forms, c₂) ← evaluateAll rest c₁
    return (form :: forms, c₂)

end

/-- One pass: evaluation from an empty memo. Only the stream goes on to the next pass. -/
def pass (shape : Shape) (stream : Stream) : Except Fault (Form × Stream) := do
  let (form, c) ← shape.evaluate (.fresh stream)
  return (form, c.stream)

end Shape

end SeededSketch
