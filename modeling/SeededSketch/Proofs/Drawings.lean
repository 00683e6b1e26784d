import SeededSketch.Proofs.Builders
import SeededSketch.Proofs.Exporting
import SeededSketch.Proofs.Leaves
import SeededSketch.Proofs.PathData

/-!
# What an export draws

The forms that a shape evaluates to are forms of doubles, so a picture that could be made of them
has one polygon for each of their rectangles, with five corners.  `perform_paths` puts this together
with the text: the `d` attributes in the file of an export are the data of these polygons, and each
of them is path data exactly where the corners of its rectangle have finite coordinates on the
canvas.

Colours are brought to finite numbers before they are written; coordinates are not.  A length that
comes from a division by zero is infinite and is written as it is.
-/

namespace SeededSketch

/-! ## Evaluated forms -/

theorem Paint.isReal_of_evaluate {paint : Paint} {c c₁ : Context} {color : Color}
    (hc : c.memo.IsReal) (h : paint.evaluate c = .ok (color, c₁)) : c₁.memo.IsReal := by
  cases paint with
  | stray v => cases h
  | hsla hue saturation lightness alpha =>
      obtain ⟨r, hr, h⟩ := bind_eq_ok h
      obtain ⟨s, hs, h⟩ := bind_eq_ok h
      obtain ⟨t, ht, h⟩ := bind_eq_ok h
      obtain ⟨u, hu, h⟩ := bind_eq_ok h
      have hmemo := (Expr.isReal_of_evaluate _ (Expr.isReal_of_evaluate _ (Expr.isReal_of_evaluate _
        (Expr.isReal_of_evaluate _ hc hr).2 hs).2 ht).2 hu).2
      obtain ⟨degrees, -, h⟩ := bind_eq_ok h
      obtain ⟨saturation, -, h⟩ := bind_eq_ok h
      obtain ⟨lightness, -, h⟩ := bind_eq_ok h
      obtain ⟨alpha, -, h⟩ := bind_eq_ok h
      cases h
      exact hmemo

namespace Shape

mutual

/-- A shape that could be evaluated has a form of doubles. -/
theorem real_of_evaluate : ∀ (shape : Shape) {c c₁ : Context} {form : Form}, c.memo.IsReal →
    shape.evaluate c = .ok (form, c₁) → form.Real ∧ c₁.memo.IsReal
  | .rectangle width height paint, c, c₁, form, hc, h => by
      obtain ⟨⟨w, c₂⟩, hw, h⟩ := bind_eq_ok h
      obtain ⟨⟨h', c₃⟩, hh, h⟩ := bind_eq_ok h
      obtain ⟨⟨color, c₄⟩, hcolor, h⟩ := bind_eq_ok h
      obtain ⟨⟨x, rfl⟩, hc₂⟩ := Expr.isReal_of_evaluate width hc hw
      obtain ⟨⟨y, rfl⟩, hc₃⟩ := Expr.isReal_of_evaluate height hc₂ hh
      cases h
      exact ⟨.rectangle x y _, Paint.isReal_of_evaluate hc₃ hcolor⟩
  | .rotate angle child, c, c₁, form, hc, h => by
      obtain ⟨⟨a, c₂⟩, ha, h⟩ := bind_eq_ok h
      obtain ⟨⟨inner, c₃⟩, hinner, h⟩ := bind_eq_ok h
      obtain ⟨⟨x, rfl⟩, hc₂⟩ := Expr.isReal_of_evaluate angle hc ha
      obtain ⟨hreal, hc₃⟩ := real_of_evaluate child hc₂ hinner
      cases h
      exact ⟨.rotated x hreal, hc₃⟩
  | .move dx dy child, c, c₁, form, hc, h => by
      obtain ⟨⟨x, c₂⟩, hx, h⟩ := bind_eq_ok h
      obtain ⟨⟨y, c₃⟩, hy, h⟩ := bind_eq_ok h
      obtain ⟨⟨inner, c₄⟩, hinner, h⟩ := bind_eq_ok h
      obtain ⟨⟨x, rfl⟩, hc₂⟩ := Expr.isReal_of_evaluate dx hc hx
      obtain ⟨⟨y, rfl⟩, hc₃⟩ := Expr.isReal_of_evaluate dy hc₂ hy
      obtain ⟨hreal, hc₄⟩ := real_of_evaluate child hc₃ hinner
      cases h
      exact ⟨.translated x y hreal, hc₄⟩
  | .group children, c, c₁, form, hc, h => by
      obtain ⟨⟨forms, c₂⟩, hforms, h⟩ := bind_eq_ok h
      obtain ⟨hreal, hc₂⟩ := real_of_evaluateAll children hc hforms
      cases h
      exact ⟨.stacked hreal, hc₂⟩
  | .stray v, c, c₁, form, hc, h => by cases h

theorem real_of_evaluateAll : ∀ (shapes : List Shape) {c c₁ : Context} {forms : List Form},
    c.memo.IsReal → evaluateAll shapes c = .ok (forms, c₁) →
      (∀ form ∈ forms, form.Real) ∧ c₁.memo.IsReal
  | [], c, c₁, forms, hc, h => by
      cases h
      exact ⟨by simp, hc⟩
  | shape :: rest, c, c₁, forms, hc, h => by
      obtain ⟨⟨form, c₂⟩, hform, h⟩ := bind_eq_ok h
      obtain ⟨⟨more, c₃⟩, hmore, h⟩ := bind_eq_ok h
      obtain ⟨hreal, hc₂⟩ := real_of_evaluate shape hc hform
      obtain ⟨hreals, hc₃⟩ := real_of_evaluateAll rest hc₂ hmore
      cases h
      exact ⟨List.forall_mem_cons.mpr ⟨hreal, hreals⟩, hc₃⟩

end

variable {shape : Shape} {stream : Stream} {i : ℕ} {form : Form}

/-- The form of a pass is what the shape is evaluated to, from doubles. -/
theorem exists_evaluate_of_formAt (h : shape.formAt stream i = .ok form) :
    ∃ c c₁, c.memo.IsReal ∧ shape.evaluate c = .ok (form, c₁) := by
  obtain ⟨before, -, h⟩ := bind_eq_ok h
  obtain ⟨⟨form', after⟩, hpass, h⟩ := bind_eq_ok h
  obtain ⟨⟨form'', c⟩, hevaluate, hpass⟩ := bind_eq_ok hpass
  cases hpass
  cases h
  exact ⟨.fresh before, c, Memo.isReal_empty, hevaluate⟩

theorem real_of_formAt (h : shape.formAt stream i = .ok form) : form.Real := by
  obtain ⟨c, c₁, hc, hevaluate⟩ := exists_evaluate_of_formAt h
  exact (shape.real_of_evaluate hc hevaluate).1

end Shape

/-! ## Forms that could be realised -/

namespace Mesh

/-- Several meshes cannot be put in a row if they have more vertices than a word can count. -/
theorem concat_eq_error {first second : Mesh} {rest : List Mesh}
    (hsize : 2 ^ 31 ≤ ((first :: second :: rest).flatMap vertices).length) :
    concat (first :: second :: rest) = .error .offsetsEnd := by
  have hlast := Int32.toInt_lt
    ((0 :: shiftedOffsets 0 (first :: second :: rest)).getLast (by simp))
  show make _ (0 :: shiftedOffsets 0 (first :: second :: rest)) _ = _
  rw [make, List.head?_cons, List.getLast?_eq_getLast_of_ne_nil (by simp)]
  dsimp only
  rw [if_neg (by simp), if_pos (by omega)]

end Mesh

namespace Form

open Mesh (ofPieces pieceSize)

theorem pieceSize_around (t : Transform) (form : Form) :
    pieceSize (t.around form).pieces = pieceSize form.pieces := by
  rw [pieceSize_pieces, leaves_around, List.length_map, ← pieceSize_pieces]

theorem realizeAll_eq_map {forms : List Form}
    (h : ∀ form ∈ forms, form.realize = .ok (ofPieces form.pieces)) :
    realizeAll forms = .ok (forms.map fun form => ofPieces form.pieces) := by
  induction forms with
  | nil => rfl
  | cons form rest ih =>
      rw [List.forall_mem_cons] at h
      rw [realizeAll, h.1, ih h.2]
      rfl

/-- If a child has too many vertices, the children are not laid out. -/
theorem realizeAll_eq_error {children : List Form} (hreal : ∀ form ∈ children, form.Real)
    (hchildren : ∀ form ∈ children,
      2 ^ 31 ≤ pieceSize form.pieces → form.realize = .error .offsetsEnd)
    (hlarge : ∃ form ∈ children, 2 ^ 31 ≤ pieceSize form.pieces) :
    realizeAll children = .error .offsetsEnd := by
  induction children with
  | nil => simp at hlarge
  | cons form rest ih =>
      rw [List.forall_mem_cons] at hreal hchildren
      by_cases hform : 2 ^ 31 ≤ pieceSize form.pieces
      · rw [realizeAll, hchildren.1 hform]
        rfl
      · have hrest : ∃ form ∈ rest, 2 ^ 31 ≤ pieceSize form.pieces := by
          obtain ⟨large, hmem, hsize⟩ := hlarge
          rcases List.mem_cons.mp hmem with rfl | hrest
          · exact absurd hsize hform
          · exact ⟨large, hrest, hsize⟩
        rw [realizeAll, realize_eq_ofPieces hreal.1 (by omega), ok_bind,
          ih hreal.2 hchildren.2 hrest]
        rfl

/-- A form of doubles with more vertices than a word can count is refused where its mesh would be
put together. -/
theorem Real.realize_eq_error {form : Form} (hform : form.Real)
    (hsize : 2 ^ 31 ≤ pieceSize form.pieces) : form.realize = .error .offsetsEnd := by
  induction hform with
  | rectangle width height fill =>
      rw [pieceSize_pieces] at hsize
      exact absurd hsize (show ¬ 2 ^ 31 ≤ 5 * 1 by decide)
  | @rotated angle child h ih =>
      have hchild := ih (pieceSize_around (.rotation angle) child ▸ hsize)
      rw [realize, hchild]
      rfl
  | @translated dx dy child h ih =>
      have hchild := ih (pieceSize_around (.translation dx dy) child ▸ hsize)
      rw [realize, hchild]
      rfl
  | @stacked children h ih =>
      rw [realize]
      by_cases hlarge : ∃ form ∈ children, 2 ^ 31 ≤ pieceSize form.pieces
      · rw [realizeAll_eq_error h ih hlarge]
        rfl
      · -- Every child has a mesh, so the row of them is what is too long.
        have hsmall (child : Form) (hmem : child ∈ children) :
            pieceSize child.pieces < 2 ^ 31 :=
          Nat.lt_of_not_le fun hle => hlarge ⟨child, hmem, hle⟩
        rw [realizeAll_eq_map fun child hmem =>
          realize_eq_ofPieces (h child hmem) (hsmall child hmem), ok_bind]
        cases children with
        | nil => exact absurd hsize (by decide)
        | cons first rest =>
            cases rest with
            | nil =>
                rw [pieces_stacked, List.map_singleton, List.flatten_singleton] at hsize
                exact absurd hsize (Nat.not_le_of_lt (hsmall first (by simp)))
            | cons second rest =>
                refine Mesh.concat_eq_error ?_
                rw [pieces_stacked] at hsize
                simpa [pieceSize, List.length_flatMap, List.sum_flatten, Function.comp_def]
                  using hsize

/-- A form of doubles could be realised only if its vertices can be counted by a word. -/
theorem Real.pieceSize_lt {form : Form} (hform : form.Real) {m : Mesh}
    (h : form.realize = .ok m) : pieceSize form.pieces < 2 ^ 31 := by
  by_contra hsize
  rw [hform.realize_eq_error (not_lt.mp hsize)] at h
  cases h

/-- If a form of doubles could be realised, it was as its pieces in a row. -/
theorem Real.eq_ofPieces {form : Form} (hform : form.Real) {m : Mesh} (h : form.realize = .ok m) :
    m = ofPieces form.pieces :=
  Except.ok.inj (h.symm.trans (realize_eq_ofPieces hform (hform.pieceSize_lt h)))

/-- The polygons of a form of doubles that could be realised: one for each of its rectangles. -/
theorem Real.polygons_eq {form : Form} (hform : form.Real) {m : Mesh} (h : form.realize = .ok m) :
    m.polygons = form.leaves.map Leaf.piece := by
  have hlength : (ofPieces form.pieces).vertices.length < 2 ^ 31 := by
    rw [Mesh.length_vertices_ofPieces]
    exact hform.pieceSize_lt h
  obtain rfl := hform.eq_ofPieces h
  rw [(Mesh.tiled_ofPieces hlength).polygons_eq_filter, Mesh.pieces_ofPieces hlength, pieces,
    List.filter_eq_self]
  intro p hp
  obtain ⟨l, -, rfl⟩ := List.mem_map.mp hp
  rfl

end Form

/-! ## Polygons -/

theorem forall₂_of_mapM {α β : Type} {f : α → Except Fault β} {l : List α} {bs : List β}
    (h : l.mapM f = .ok bs) : List.Forall₂ (fun a b => f a = .ok b) l bs := by
  induction l generalizing bs with
  | nil =>
      cases h
      exact .nil
  | cons a l ih =>
      rw [List.mapM_cons] at h
      obtain ⟨b, hb, h⟩ := bind_eq_ok h
      obtain ⟨bs', hbs, h⟩ := bind_eq_ok h
      cases h
      exact .cons hb (ih hbs)

/-- The corners of a rectangle on a canvas. -/
def Leaf.outline (l : Leaf) (center : Svg.Center) : List (Float × Float) := l.rows.map center.place

namespace Svg

/-- A polygon that a rectangle becomes on a canvas of the given size. -/
structure Draws (width height : ℤ) (l : Leaf) (p : Polygon) : Prop where
  points : ∃ center, centerOf width height = .ok center ∧ p.points = l.outline center
  opacity : ∃ x, p.opacity = Decimal.threePlaces x

theorem draws_of_polygon {width height : ℤ} {l : Leaf} {p : Polygon}
    (h : polygon width height l.rows l.fill = .ok p) : Draws width height l p := by
  obtain ⟨center, hcenter, h⟩ := bind_eq_ok h
  obtain ⟨color, -, h⟩ := bind_eq_ok h
  cases h
  exact ⟨⟨center, hcenter, rfl⟩, _, rfl⟩

/-- The document of some forms of doubles has one polygon for each of their rectangles. -/
theorem draws_of_render {forms : List Form} (hforms : ∀ form ∈ forms, form.Real)
    {canvas background : Value} {document : Document}
    (h : render forms canvas background = .ok document) :
    canvasOf canvas = .ok (document.width, document.height) ∧
      List.Forall₂ (Draws document.width document.height) (Form.stacked forms).leaves
        document.polygons := by
  obtain ⟨⟨width, height⟩, hcanvas, h⟩ := bind_eq_ok h
  obtain ⟨fill, -, h⟩ := bind_eq_ok h
  obtain ⟨meshes, hmeshes, h⟩ := bind_eq_ok h
  obtain ⟨mesh, hmesh, h⟩ := bind_eq_ok h
  obtain ⟨polygons, hpolygons, h⟩ := bind_eq_ok h
  cases h
  have hrealize : (Form.stacked forms).realize = .ok mesh := by
    rw [Form.realize, hmeshes, ok_bind, hmesh]
  rw [polygonsOf, (Form.Real.stacked hforms).polygons_eq hrealize] at hpolygons
  have hall := forall₂_of_mapM hpolygons
  rw [List.forall₂_map_left_iff] at hall
  exact ⟨hcanvas, hall.imp fun l p => draws_of_polygon⟩

namespace Draws

variable {width height : ℤ} {leaves : List Leaf} {polygons : List Polygon} {l : Leaf} {p : Polygon}

theorem not_mem_opacity (h : List.Forall₂ (Draws width height) leaves polygons) :
    ∀ p ∈ polygons, 'd' ∉ p.opacity.toList := by
  induction h with
  | nil => simp
  | cons hdraws _ ih =>
      obtain ⟨x, hx⟩ := hdraws.opacity
      rw [List.forall_mem_cons, hx]
      exact ⟨Decimal.not_mem_threePlaces x (by decide) (by decide), ih⟩

/-- The data of a polygon is path data where the corners of its rectangle are finite. -/
theorem isPathData_iff (h : Draws width height l p) :
    ∃ center, centerOf width height = .ok center ∧ p.points = l.outline center ∧
      (IsPathData (pathData p.points).toList ↔
        ∀ point ∈ l.outline center, point.1.isFinite = true ∧ point.2.isFinite = true) := by
  obtain ⟨center, hcenter, hpoints⟩ := h.points
  have hcorners : l.outline center ≠ [] :=
    List.ne_nil_of_length_pos (by rw [Leaf.outline, List.length_map, l.length_rows]; decide)
  refine ⟨center, hcenter, hpoints, ?_⟩
  rw [hpoints, Svg.isPathData_iff]
  exact and_iff_right hcorners

end Draws
end Svg

namespace ExportRequest

variable {r : ExportRequest}

/-- The forms of a request that succeeds are forms of doubles. -/
theorem Parts.real {settings : Settings} {result : ExportResult} {document : Svg.Document}
    (h : r.Parts settings result document) : ∀ form ∈ result.forms, form.Real := by
  obtain ⟨clock, n, seed, -, -, -, hforms⟩ := h.forms
  intro form hmem
  obtain ⟨i, hi⟩ := Shape.exists_formAt_of_mem hforms hmem
  exact Shape.real_of_formAt hi

/-! ## A length that is not finite -/

/-- A red strip of the given width. -/
def strip (width : Expr) : Shape :=
  .rectangle width (.ofReal 2.0) (.hsla (.ofReal 0.0) (.ofReal 1.0) (.ofReal 0.5) (.ofReal 1.0))

theorem built_strip {width : Expr} (h : width.Built) : (strip width).Built :=
  .rectangle h (.constant _) (.hsla (.constant _) (.constant _) (.constant _) (.constant _))

/-- The rectangle of a strip. -/
def stripLeaf (width : Float) : Leaf := ⟨width, 2.0, .color (.ofDegrees 0.0 1.0 0.5 1.0), []⟩

/-- The form of a strip. -/
def stripForm (width : Float) : Form :=
  .rectangle (.number (.real width)) (.number (.real 2.0)) (stripLeaf width).fill

/-- A strip of width four and, on top of it, one that is as wide as one divided by zero. -/
def strips : ExportRequest :=
  { shape := .group [strip (.ofReal 4.0), strip (.combined .div (.ofReal 1.0) (.ofReal 0.0))] }

theorem built_strips : strips.shape.Built := by
  refine .group ?_
  simp only [List.forall_mem_cons]
  exact ⟨built_strip (.constant _), built_strip (.combined _ (.constant _) (.constant _)), by simp⟩

/-- The form that both strips have together. -/
def stripsForm : Form := .stacked [stripForm 4.0, stripForm Double.infinity]

theorem leaves_strips :
    (Form.stacked [stripsForm]).leaves = [stripLeaf 4.0, stripLeaf Double.infinity] := rfl

theorem perform_strips :
    ∃ s' document,
      strips.perform smallSession =
        (s', .ok ⟨.ofString "/out/sketch.svg", "svg", [stripsForm]⟩) ∧
      Svg.render [stripsForm] small.canvasValue small.backgroundValue = .ok document ∧
      s'.world.content? (.ofString "/out/sketch.svg") = some (.text document.text) := by
  have hmade :
      (Svg.render [stripsForm] small.canvasValue small.backgroundValue).toBool = true := by
    decide +kernel
  obtain ⟨document, hdocument⟩ := exists_eq_ok hmade
  have hcount : strips.countFor ⟨1.0, 0.0, 0⟩ = .ok (1 : ℕ) := by rfl
  have hforms : [stripsForm].map .ok =
      (List.range 1).map (strips.shape.formAt (.ofSeed 7)) := by rfl
  obtain ⟨s', hperform, hcontent⟩ := perform_small strips.shape .null hcount hforms hdocument
  exact ⟨s', document, hperform, hdocument, hcontent⟩

theorem canvasOf_small : Svg.canvasOf small.canvasValue = .ok (10, 10) := by
  have hsize : (Svg.canvasOf small.canvasValue).toOption = some (10, 10) := by decide +kernel
  cases h : Svg.canvasOf small.canvasValue with
  | error fault =>
      rw [h] at hsize
      cases hsize
  | ok size =>
      rw [h] at hsize
      exact congrArg Except.ok (Option.some.inj hsize)

theorem centerOf_small : Svg.centerOf 10 10 = .ok ⟨5.0, 5.0⟩ := by rfl

theorem finite_strip : ∀ point ∈ (stripLeaf 4.0).outline ⟨5.0, 5.0⟩,
    point.1.isFinite = true ∧ point.2.isFinite = true := by
  decide +kernel

theorem not_finite_strip : ¬∀ point ∈ (stripLeaf Double.infinity).outline ⟨5.0, 5.0⟩,
    point.1.isFinite = true ∧ point.2.isFinite = true := by
  decide +kernel

/-! ## Paths -/

open Svg (IsPathData dataIn pathData)

/-- The file of a request that succeeds has one `d` attribute for each rectangle of the forms, in
their order, which holds the data of the closed path through the five corners of the rectangle in
the coordinates of the canvas.  It is path data exactly if these coordinates are finite: then each
of them is a numeral of three places, and never a zero with a minus. -/
theorem perform_paths {s s' : Session} {result : ExportResult}
    (h : r.perform s = (s', .ok result)) :
    ∃ settings s₁ width height text, s.settings = .ok (settings, s₁) ∧
      Svg.canvasOf (r.canvas.orElse settings.canvasValue) = .ok (width, height) ∧
      s'.world.content? result.path = some (.text text) ∧
      List.Forall₂ (fun l data => ∃ center, Svg.centerOf width height = .ok center ∧
          data = (pathData (l.outline center)).toList ∧ (l.outline center).length = 5 ∧
          (IsPathData data ↔
            ∀ point ∈ l.outline center, point.1.isFinite = true ∧ point.2.isFinite = true))
        (Form.stacked result.forms).leaves (dataIn text.toList) := by
  obtain ⟨settings, s₁, document, hsettings, hparts, hcontent⟩ := exists_parts h
  obtain ⟨hcanvas, hdraws⟩ := Svg.draws_of_render hparts.real hparts.document
  refine ⟨settings, s₁, document.width, document.height, document.text, hsettings, hcanvas,
    hcontent, ?_⟩
  rw [Svg.dataIn_text (Svg.Draws.not_mem_opacity hdraws), List.forall₂_map_right_iff]
  refine hdraws.imp fun l p hdraw => ?_
  obtain ⟨center, hcenter, hpoints, hiff⟩ := hdraw.isPathData_iff
  have hlength : (l.outline center).length = 5 := by
    rw [Leaf.outline, List.length_map, l.length_rows]
  exact ⟨center, hcenter, by rw [hpoints], hlength, hiff⟩

/-- The path of the first strip is path data, that of the second is not. -/
theorem perform_paths_strips :
    ∃ s' result text first second, strips.perform smallSession = (s', .ok result) ∧
      s'.world.content? result.path = some (.text text) ∧
      dataIn text.toList = [first, second] ∧ IsPathData first ∧ ¬IsPathData second := by
  obtain ⟨s', document, hperform, -, -⟩ := perform_strips
  obtain ⟨settings, s₁, width, height, text, hsettings, hcanvas, hcontent, hpaths⟩ :=
    perform_paths hperform
  cases hsettings
  cases canvasOf_small.symm.trans hcanvas
  rw [leaves_strips, List.forall₂_cons_left_iff] at hpaths
  obtain ⟨first, rest, ⟨center, hcenter, -, -, hfirst⟩, hrest, hdata⟩ := hpaths
  obtain ⟨second, rest', ⟨center', hcenter', -, -, hsecond⟩, hrest', rfl⟩ :=
    List.forall₂_cons_left_iff.mp hrest
  cases centerOf_small.symm.trans hcenter
  cases centerOf_small.symm.trans hcenter'
  rw [List.forall₂_nil_left_iff.mp hrest'] at hdata
  exact ⟨s', _, text, first, second, hperform, hcontent, hdata, hfirst.mpr finite_strip,
    fun hvalid => not_finite_strip (hsecond.mp hvalid)⟩

/-- A length that comes from a division by zero is written as it is, so not every path of an export
is path data. -/
theorem not_all_isPathData :
    ¬∀ (r : ExportRequest) (s s' : Session) (result : ExportResult) (text : String),
      r.shape.Built → r.perform s = (s', .ok result) →
        s'.world.content? result.path = some (.text text) →
          ∀ data ∈ dataIn text.toList, IsPathData data := by
  intro hall
  obtain ⟨s', document, hperform, hdocument, hcontent⟩ := perform_strips
  have hvalid := hall strips smallSession s' _ document.text built_strips hperform hcontent
  have hreal : ∀ form ∈ [stripsForm], form.Real := by
    simp only [List.forall_mem_singleton]
    refine .stacked ?_
    simp only [List.forall_mem_cons]
    exact ⟨.rectangle _ _ _, .rectangle _ _ _, by simp⟩
  obtain ⟨hcanvas, hdraws⟩ := Svg.draws_of_render hreal hdocument
  rw [Svg.dataIn_text (Svg.Draws.not_mem_opacity hdraws)] at hvalid
  rw [leaves_strips] at hdraws
  obtain ⟨first, rest, -, hrest, hpolygons⟩ := List.forall₂_cons_left_iff.mp hdraws
  obtain ⟨second, rest', hdraw, -, rfl⟩ := List.forall₂_cons_left_iff.mp hrest
  obtain ⟨center, hcenter, -, hiff⟩ := hdraw.isPathData_iff
  have hsize := Prod.mk.inj (Except.ok.inj (canvasOf_small.symm.trans hcanvas))
  rw [← hsize.1, ← hsize.2] at hcenter
  cases centerOf_small.symm.trans hcenter
  exact not_finite_strip (hiff.mp (hvalid _ (List.mem_map_of_mem (by simp [hpolygons]))))

end ExportRequest
end SeededSketch
