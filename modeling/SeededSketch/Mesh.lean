import SeededSketch.Color
import SeededSketch.Number.Double

/-!
# Meshes

A mesh is a form laid out in the plane: the vertices of all its polygons in one list, the places
at which one polygon ends and the next begins, and a fill for each polygon. The order is that of
painting, the first polygon at the back.

Places are 32-bit words, and so is the difference of two of them that decides whether they
ascend. `polygons` is the view of a mesh that a picture is made from.
-/

namespace SeededSketch

/-- A point of the plane; the third coordinate is kept beside the other two. -/
structure Vertex where
  x : Single
  y : Single
  z : Single
  deriving DecidableEq, Repr

structure Mesh where
  vertices : List Vertex
  offsets : List Int32
  fills : List Fill

/-- The elements of `l` from the place `start` up to the place `stop`. A place below zero counts
from the end, and a place outside the list is moved to its nearer end. -/
def segment {α : Type} (start stop : Int) (l : List α) : List α :=
  let place (i : Int) : Nat :=
    if i < 0 then (i + l.length).toNat else min i.toNat l.length
  (l.drop (place start)).take (place stop - place start)

namespace Mesh

/-- The mesh without polygons. -/
def empty : Mesh := ⟨[], [0], []⟩

/-- The offsets in pairs of neighbours, one pair for each polygon. -/
def spans (m : Mesh) : List (Int32 × Int32) := m.offsets.zip m.offsets.tail

def polygonCount (m : Mesh) : Nat := m.offsets.length - 1

/-- A mesh from its three parts, if they fit together. -/
def make (vertices : List Vertex) (offsets : List Int32) (fills : List Fill) :
    Except Fault Mesh :=
  let mesh : Mesh := ⟨vertices, offsets, fills⟩
  match offsets.head?, offsets.getLast? with
  | some first, some last =>
    if first ≠ 0 then .error .offsetsStart
    else if last.toInt ≠ vertices.length then .error .offsetsEnd
    else if mesh.spans.any fun span => span.2 - span.1 < 0 then .error .offsetsOrder
    else if fills.length ≠ mesh.polygonCount then .error .fillCount
    else .ok mesh
  | _, _ => .error .offsetsEmpty

/-- The polygons of a mesh with their fills: those of at least three vertices. -/
def polygons (m : Mesh) : List (List Vertex × Fill) :=
  (m.spans.zip m.fills).filterMap fun (span, fill) =>
    if span.2.toInt - span.1.toInt < 3 then none
    else some (segment span.1.toInt span.2.toInt m.vertices, fill)

/-- The place after the last vertex, as the offsets have it. -/
def lastOffset (m : Mesh) : Int := (m.offsets.getLast?.getD 0).toInt

/-- The offsets of several meshes in a row, each mesh's shifted by what is in front of it, without
the zeros at which they begin. -/
def shiftedOffsets (base : Int) : List Mesh → List Int32
  | [] => []
  | m :: rest =>
    m.offsets.tail.map (· + Int32.ofInt base) ++ shiftedOffsets (base + m.lastOffset) rest

/-- Several meshes as one, in their order. -/
def concat : List Mesh → Except Fault Mesh
  | [] => .ok empty
  | [m] => .ok m
  | meshes =>
    make (meshes.flatMap vertices) (0 :: shiftedOffsets 0 meshes) (meshes.flatMap fills)

end Mesh
end SeededSketch
