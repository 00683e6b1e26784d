import SeededSketch.Mesh

/-!
# Forms

A form is what a shape evaluates to: the same tree with numbers in place of expressions and
colours in place of paints. Lengths are those of a plane with the origin in the middle and the
second axis upwards; angles are in radians, counterclockwise.

A form is laid out from the inside to the outside. A rectangle gives five vertices, the last
being the first again; a turned or moved form gives the vertices of its child, turned or moved;
a stack puts its children's meshes in a row.

Vertices are kept in binary32. Each turn and each move computes in binary64 from the stored
vertices and rounds the outcome back, so rounding happens once for every level of the tree.
-/

namespace SeededSketch

/-- The numbers are held as values, since a form may also be put together by hand; `stray` is a
value where a form belongs. -/
inductive Form where
  | rectangle (width height : Value) (fill : Fill)
  | rotated (angle : Value) (child : Form)
  | translated (dx dy : Value) (child : Form)
  | stacked (children : List Form)
  | stray (v : Value)

/-! ## Realisation -/

namespace Vertex

/-- The sum of three products, added from zero in order. -/
def dot (a₁ b₁ a₂ b₂ a₃ b₃ : Float) : Float := 0.0 + a₁ * b₁ + a₂ * b₂ + a₃ * b₃

/-- The vertex turned by an angle of the given cosine and sine. -/
def rotate (cosine sine : Float) (v : Vertex) : Vertex :=
  let x := v.x.toFloat
  let y := v.y.toFloat
  let z := v.z.toFloat
  ⟨.ofFloat (dot x cosine y (-sine) z 0.0),
    .ofFloat (dot x sine y cosine z 0.0),
    .ofFloat (dot x 0.0 y 0.0 z 1.0)⟩

/-- The vertex moved by two distances. -/
def translate (dx dy : Float) (v : Vertex) : Vertex :=
  ⟨.ofFloat (v.x.toFloat + dx), .ofFloat (v.y.toFloat + dy), .ofFloat (v.z.toFloat + 0.0)⟩

end Vertex

namespace Mesh

/-- The corners of a rectangle around the origin, counterclockwise from the lower left one, which
comes again at the end. -/
def corners (width height : Float) : List Vertex :=
  let right := Single.ofFloat (width / 2.0)
  let top := Single.ofFloat (height / 2.0)
  [⟨-right, -top, .zero⟩, ⟨right, -top, .zero⟩, ⟨right, top, .zero⟩, ⟨-right, top, .zero⟩,
    ⟨-right, -top, .zero⟩]

def ofRectangle (width height : Float) (fill : Fill) : Mesh :=
  ⟨corners width height, [0, 5], [fill]⟩

/-- The mesh turned about the origin; by no angle, it stays as it is. -/
def rotate (angle : Float) (m : Mesh) : Mesh :=
  if m.vertices.isEmpty || angle == 0.0 then m
  else { m with vertices := m.vertices.map (Vertex.rotate angle.cos angle.sin) }

/-- The mesh moved; by no distance, it stays as it is. -/
def translate (dx dy : Float) (m : Mesh) : Mesh :=
  if m.vertices.isEmpty || (dx == 0.0 && dy == 0.0) then m
  else { m with vertices := m.vertices.map (Vertex.translate dx dy) }

end Mesh

namespace Form

mutual

/-- The mesh of a form. A child is laid out before the numbers that turn or move it are read. -/
def realize : Form → Except Fault Mesh
  | rectangle width height fill => do
    let w ← width.toReal
    let h ← height.toReal
    return .ofRectangle w h fill
  | rotated angle child => do
    let mesh ← child.realize
    return mesh.rotate (← angle.toReal)
  | translated dx dy child => do
    let mesh ← child.realize
    let x ← dx.toReal
    let y ← dy.toReal
    return mesh.translate x y
  | stacked children => do
    Mesh.concat (← realizeAll children)
  | stray v => .error (.unknownForm v)

def realizeAll : List Form → Except Fault (List Mesh)
  | [] => .ok []
  | form :: rest => do
    let mesh ← form.realize
    let meshes ← realizeAll rest
    return mesh :: meshes

end

end Form

end SeededSketch
