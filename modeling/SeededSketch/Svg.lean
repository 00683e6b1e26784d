import SeededSketch.Form

/-!
# SVG documents

The pictures that a sketch is written as: a canvas, a background if there is one, and filled
polygons from back to front. `Document.text` is the text of a document, line by line.

`render` goes from forms to a document. The plane's origin comes to the middle of the canvas and
the second axis, which points upwards in the plane, is turned over. Everything that can be wrong
with the canvas, the background or the forms shows there, before any text exists.
-/

namespace SeededSketch.Svg

/-! ## Documents -/

/-- A filled polygon in canvas coordinates: to the right and downwards from the upper left
corner. -/
structure Polygon where
  points : List (Float × Float)
  fill : Rgb8
  opacity : String

/-- A document; the polygons come in the order of painting. -/
structure Document where
  width : Int
  height : Int
  background : Option Rgb8
  polygons : List Polygon

/-- A command letter and the point it goes to. -/
def command (letter : String) (point : Float × Float) : String :=
  letter ++ " " ++ Decimal.threePlaces point.1 ++ " " ++ Decimal.threePlaces point.2

/-- The commands of a closed path through `points`. -/
def commands : List (Float × Float) → List String
  | [] => ["Z"]
  | first :: rest => command "M" first :: rest.map (command "L") ++ ["Z"]

/-- The data of a closed path through `points`. -/
def pathData (points : List (Float × Float)) : String := String.intercalate " " (commands points)

/-- An attribute in double quotes. -/
def attr (name value : String) : String := name ++ "=\"" ++ value ++ "\""

namespace Polygon

def line (p : Polygon) : String :=
  "  <path " ++ attr "d" (pathData p.points) ++ " " ++ attr "fill" p.fill.hex ++ " "
    ++ attr "fill-opacity" p.opacity ++ " />"

end Polygon

namespace Document

private def size (d : Document) : String :=
  attr "width" (toString d.width) ++ " " ++ attr "height" (toString d.height)

def opening (d : Document) : String :=
  "<svg " ++ attr "xmlns" "http://www.w3.org/2000/svg" ++ " "
    ++ attr "viewBox" ("0 0 " ++ toString d.width ++ " " ++ toString d.height) ++ " "
    ++ d.size ++ ">"

def backgroundLine (d : Document) (fill : Rgb8) : String :=
  "  <rect " ++ attr "x" "0" ++ " " ++ attr "y" "0" ++ " " ++ d.size ++ " "
    ++ attr "fill" fill.hex ++ " />"

/-- The lines of a document. -/
def lines (d : Document) : List String :=
  ["<?xml version=\"1.0\" encoding=\"UTF-8\"?>", d.opening]
    ++ (d.background.map d.backgroundLine).toList
    ++ d.polygons.map Polygon.line
    ++ ["</svg>"]

/-- The text of a document, each line ended by a line feed. -/
def text (d : Document) : String := String.join (d.lines.map (· ++ "\n"))

end Document

/-! ## Rendering -/

/-- The middle of a canvas. -/
structure Center where
  x : Float
  y : Float

/-- Half of a length, as a double. -/
def halfOf (n : Int) : Except Fault Float := do
  return (← Number.ofWhole n) / 2.0

def centerOf (width height : Int) : Except Fault Center := do
  let x ← halfOf width
  let y ← halfOf height
  return ⟨x, y⟩

/-- A vertex in canvas coordinates. -/
def Center.place (c : Center) (v : Vertex) : Float × Float :=
  (v.x.toFloat + c.x, c.y - v.y.toFloat)

/-- The polygon of some vertices with a fill on a canvas of the given size. -/
def polygon (width height : Int) (vertices : List Vertex) (fill : Fill) :
    Except Fault Polygon := do
  let center ← centerOf width height
  let color ← fill.settle
  return ⟨vertices.map center.place, color.toRgb.toRgb8, color.opacity⟩

/-- The polygons of a mesh on a canvas of the given size. -/
def polygonsOf (width height : Int) (mesh : Mesh) : Except Fault (List Polygon) :=
  mesh.polygons.mapM fun (vertices, fill) => polygon width height vertices fill

/-- A side of a canvas as a number to compare, which must exceed zero. -/
private def checkSide (side : Value) : Except Fault Unit := do
  if (← side.toComparable "<=").le (.whole 0) then .error .canvasNotPositive else return ()

/-- A side of a canvas as a whole number, which must not be too long to be written. -/
private def sideOf (side : Value) : Except Fault Int := do
  let n ← side.toWhole
  if isWritableWhole n then return n else .error .wholeTooLong

/-- The two sides of a canvas. Both must exceed zero before they are cut to whole numbers. -/
def canvasOf : Value → Except Fault (Int × Int)
  | .null => .error .canvasMissing
  | v => do
    match ← v.unpack 2 with
    | [width, height] =>
      checkSide width
      checkSide height
      let w ← sideOf width
      let h ← sideOf height
      return (w, h)
    | _ => .error (.notIterable v)

/-- The colour of a background, if there is one. -/
def backgroundOf : Value → Except Fault (Option Rgb8)
  | .null => .ok none
  | v => do return some (← Rgb.ofValue v).toRgb8

/-- The document of some forms, the first at the back. -/
def render (forms : List Form) (canvas background : Value) : Except Fault Document := do
  let (width, height) ← canvasOf canvas
  let background ← backgroundOf background
  let mesh ← Mesh.concat (← Form.realizeAll forms)
  return ⟨width, height, background, ← polygonsOf width height mesh⟩

end SeededSketch.Svg
