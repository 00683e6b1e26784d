import SeededSketch.Proofs.Draws
import SeededSketch.Proofs.Rendering

/-!
# Sketches that never fail

A sketch that was put together with the builders, from functions that have an outcome for every
double, does not fail on its way to a document, as long as its vertices can be counted.  There are
three stages, and each of them hands on what the next one needs:

* every pass leaves a stream from which the next one can draw, so that all ticks are completed
  (`Built.exists_formAt`);
* the forms are forms of doubles whose fills are colours, with as many rectangles as the shape has
  (`leaves_of_evaluate`); and
* a rectangle with a colour has a polygon on every canvas whose sides have doubles
  (`exists_polygonOf`).

No number is asked for its value anywhere, so infinities and what is no number pass like any other
double.  The one thing that is asked for is that the vertices can be counted by the words of 32 bits
in which a mesh keeps its offsets.  A sketch that is run for more ticks than that is refused when it
is realised (`Svg.render_eq_error`), after all its ticks were completed.
-/

namespace SeededSketch

/-! ## Integers that have a double can be written -/

namespace Double

theorem isInf_of_reading {x : Float} {negative : Bool} (h : reading x = .infinite negative) :
    x.isInf = true := by
  have hinf : x.isInf = (Float.Model.UnpackedFloat.unpack .binary64 x.toBits.toBitVec).isInf := rfl
  rw [reading, show x.toBits.toNat = x.toBits.toBitVec.toNat from rfl, read_eq_readingOf] at h
  rw [hinf]
  cases hunpack : Float.Model.UnpackedFloat.unpack .binary64 x.toBits.toBitVec with
  | infinity s => rfl
  | _ =>
      rw [hunpack] at h
      cases h

/-- An integer that has a double is less than the first power of two that has none. -/
theorem natAbs_lt_of_ofInt? {n : ℤ} {x : Float} (h : ofInt? n = some x) : n.natAbs < 2 ^ 1024 := by
  by_contra hlarge
  have hlimit : Format.binary64.round (2 ^ 1024) 1 = Format.binary64.infinity := by decide +kernel
  have hle : ((2 ^ 1024 : ℕ) : ℚ) / (1 : ℕ) ≤ (n.natAbs : ℚ) / (1 : ℕ) := by
    rw [Nat.cast_one, div_one, div_one]
    exact Nat.cast_le.mpr (not_lt.mp hlarge)
  have hround : Format.binary64.round n.natAbs 1 = Format.binary64.infinity :=
    le_antisymm (Format.round_le_infinity ..) (hlimit ▸ Format.round_mono one_pos one_pos hle)
  have hread : reading (ofRatio (decide (n < 0)) n.natAbs 1) = .infinite (decide (n < 0)) := by
    rw [reading, toNat_toBits_ofRatio, Format.roundSigned_eq, hround, Format.read_infinity]
  rw [ofInt?, if_pos (isInf_of_reading hread)] at h
  cases h

end Double

theorem two_pow_le_tenPow {k n : ℕ} (h : k ≤ n) : 2 ^ k ≤ tenPow n :=
  (Nat.pow_le_pow_left (by decide) k).trans (Nat.pow_le_pow_right (by decide) h)

theorem isWritableWhole_of_ofWhole {n : ℤ} {x : Float} (h : Number.ofWhole n = .ok x) :
    isWritableWhole n = true := by
  rw [Number.ofWhole] at h
  split at h
  · rename_i y hy
    have hlimit : 1024 ≤ Decimal.maximalDigits := by decide
    exact decide_eq_true ((Double.natAbs_lt_of_ofInt? hy).trans_le (two_pow_le_tenPow hlimit))
  · cases h

namespace Shape

/-! ## Passes that are completed -/

variable {shape : Shape} {stream : Stream}

theorem Built.exists_pass (hs : shape.Built) (ht : shape.Total) (hready : stream.Ready) :
    ∃ form next, shape.pass stream = .ok (form, next) ∧ next.Ready := by
  have hmemo : (Context.fresh stream).memo.IsReal := Memo.isReal_empty
  obtain ⟨form, c, hevaluate, -, hstream, -⟩ := (hs.consumes ht hmemo).completes (.inr hready)
  refine ⟨form, c.stream, ?_, ?_⟩
  · rw [pass, hevaluate]
    rfl
  · rw [hstream]
    exact hready.iterate _

theorem Built.exists_streamAt (hs : shape.Built) (ht : shape.Total) (hready : stream.Ready)
    (i : ℕ) : ∃ next, shape.streamAt stream i = .ok next ∧ next.Ready := by
  induction i with
  | zero => exact ⟨stream, rfl, hready⟩
  | succ i ih =>
      obtain ⟨before, hbefore, hready'⟩ := ih
      obtain ⟨form, after, hpass, hafter⟩ := hs.exists_pass ht hready'
      refine ⟨after, ?_, hafter⟩
      rw [streamAt, hbefore, ok_bind, hpass]
      rfl

theorem Built.exists_formAt (hs : shape.Built) (ht : shape.Total) (hready : stream.Ready) (i : ℕ) :
    ∃ form, shape.formAt stream i = .ok form := by
  obtain ⟨before, hbefore, hready'⟩ := hs.exists_streamAt ht hready i
  obtain ⟨form, after, hpass, -⟩ := hs.exists_pass ht hready'
  refine ⟨form, ?_⟩
  rw [formAt, hbefore, ok_bind, hpass]
  rfl

/-! ## The rectangles of evaluated forms -/

mutual

/-- How many rectangles there are in a shape. -/
def rectangleCount : Shape → ℕ
  | rectangle .. => 1
  | rotate _ child => child.rectangleCount
  | move _ _ child => child.rectangleCount
  | group children => rectangleCountOfAll children
  | stray _ => 0

def rectangleCountOfAll : List Shape → ℕ
  | [] => 0
  | shape :: rest => shape.rectangleCount + rectangleCountOfAll rest

end

mutual

/-- A shape that could be evaluated has a form with its rectangles, which are filled with colours. -/
theorem leaves_of_evaluate : ∀ (shape : Shape) {c c₁ : Context} {form : Form}, c.memo.IsReal →
    shape.evaluate c = .ok (form, c₁) →
      form.leaves.length = shape.rectangleCount ∧ ∀ l ∈ form.leaves, ∃ color, l.fill = .color color
  | .rectangle width height paint, c, c₁, form, hc, h => by
      obtain ⟨⟨w, c₂⟩, hw, h⟩ := bind_eq_ok h
      obtain ⟨⟨h', c₃⟩, hh, h⟩ := bind_eq_ok h
      obtain ⟨⟨color, c₄⟩, hcolor, h⟩ := bind_eq_ok h
      obtain ⟨⟨x, rfl⟩, hc₂⟩ := Expr.isReal_of_evaluate width hc hw
      obtain ⟨⟨y, rfl⟩, hc₃⟩ := Expr.isReal_of_evaluate height hc₂ hh
      cases h
      exact ⟨rfl, fun l hl => ⟨color, by rw [List.mem_singleton.mp hl]⟩⟩
  | .rotate angle child, c, c₁, form, hc, h => by
      obtain ⟨⟨a, c₂⟩, ha, h⟩ := bind_eq_ok h
      obtain ⟨⟨inner, c₃⟩, hinner, h⟩ := bind_eq_ok h
      obtain ⟨⟨x, rfl⟩, hc₂⟩ := Expr.isReal_of_evaluate angle hc ha
      obtain ⟨hlength, hfills⟩ := leaves_of_evaluate child hc₂ hinner
      cases h
      rw [Form.leaves, List.length_map, rectangleCount, List.forall_mem_map]
      exact ⟨hlength, hfills⟩
  | .move dx dy child, c, c₁, form, hc, h => by
      obtain ⟨⟨x, c₂⟩, hx, h⟩ := bind_eq_ok h
      obtain ⟨⟨y, c₃⟩, hy, h⟩ := bind_eq_ok h
      obtain ⟨⟨inner, c₄⟩, hinner, h⟩ := bind_eq_ok h
      obtain ⟨⟨x, rfl⟩, hc₂⟩ := Expr.isReal_of_evaluate dx hc hx
      obtain ⟨⟨y, rfl⟩, hc₃⟩ := Expr.isReal_of_evaluate dy hc₂ hy
      obtain ⟨hlength, hfills⟩ := leaves_of_evaluate child hc₃ hinner
      cases h
      rw [Form.leaves, List.length_map, rectangleCount, List.forall_mem_map]
      exact ⟨hlength, hfills⟩
  | .group children, c, c₁, form, hc, h => by
      obtain ⟨⟨forms, c₂⟩, hforms, h⟩ := bind_eq_ok h
      cases h
      rw [Form.leaves, rectangleCount]
      exact leaves_of_evaluateAll children hc hforms
  | .stray v, c, c₁, form, hc, h => by cases h

theorem leaves_of_evaluateAll : ∀ (shapes : List Shape) {c c₁ : Context} {forms : List Form},
    c.memo.IsReal → evaluateAll shapes c = .ok (forms, c₁) →
      (Form.leavesOfAll forms).length = rectangleCountOfAll shapes ∧
        ∀ l ∈ Form.leavesOfAll forms, ∃ color, l.fill = .color color
  | [], c, c₁, forms, hc, h => by
      cases h
      exact ⟨rfl, by simp [Form.leavesOfAll]⟩
  | shape :: rest, c, c₁, forms, hc, h => by
      obtain ⟨⟨form, c₂⟩, hform, h⟩ := bind_eq_ok h
      obtain ⟨⟨more, c₃⟩, hmore, h⟩ := bind_eq_ok h
      obtain ⟨hlength, hfills⟩ := leaves_of_evaluate shape hc hform
      obtain ⟨hlengths, hmoreFills⟩ :=
        leaves_of_evaluateAll rest (real_of_evaluate shape hc hform).2 hmore
      cases h
      rw [Form.leavesOfAll, List.length_append, rectangleCountOfAll, List.forall_mem_append]
      exact ⟨congrArg₂ (· + ·) hlength hlengths, hfills, hmoreFills⟩

end

theorem leaves_of_formAt {i : ℕ} {form : Form} (h : shape.formAt stream i = .ok form) :
    form.leaves.length = shape.rectangleCount ∧
      ∀ l ∈ form.leaves, ∃ color, l.fill = .color color := by
  obtain ⟨c, c₁, hc, hevaluate⟩ := exists_evaluate_of_formAt h
  exact shape.leaves_of_evaluate hc hevaluate

end Shape

/-! ## Documents of sketches -/

namespace Svg

theorem exists_centerOf {width height : ℤ} {x y : Float} (hx : Number.ofWhole width = .ok x)
    (hy : Number.ofWhole height = .ok y) : ∃ center, centerOf width height = .ok center := by
  refine ⟨⟨x / 2.0, y / 2.0⟩, ?_⟩
  rw [centerOf, halfOf, hx, halfOf, hy]
  rfl

/-- A rectangle with a colour has a polygon, whatever its numbers are. -/
theorem exists_polygonOf {width height : ℤ} {center : Center}
    (hcenter : centerOf width height = .ok center) {l : Leaf} {color : Color}
    (hfill : l.fill = .color color) : ∃ p, polygonOf width height l = .ok p := by
  refine ⟨⟨l.outline center, color.toRgb.toRgb8, color.opacity⟩, ?_⟩
  rw [polygonOf, polygon, hcenter, hfill]
  rfl

theorem canvasOf_eq_ok {width height : ℤ} (hwidth : 0 < width) (hheight : 0 < height) {x y : Float}
    (hx : Number.ofWhole width = .ok x) (hy : Number.ofWhole height = .ok y) :
    canvasOf (.list [.number (.whole width), .number (.whole height)]) = .ok (width, height) := by
  rw [canvasOf_wholes, if_pos ⟨hwidth, hheight⟩,
    if_pos ⟨isWritableWhole_of_ofWhole hx, isWritableWhole_of_ofWhole hy⟩]

theorem backgroundOf_reals (red green blue : Float) :
    backgroundOf (.list [.number (.real red), .number (.real green), .number (.real blue)]) =
      .ok (some (Rgb.toRgb8 ⟨red, green, blue⟩)) := rfl

/-- Forms of doubles with more vertices than a word can count have no document, on any canvas. -/
theorem render_eq_error {forms : List Form} (hforms : ∀ form ∈ forms, form.Real)
    (hsize : 2 ^ 31 ≤ Mesh.pieceSize (Form.stacked forms).pieces) {canvas background : Value}
    {width height : ℤ} (hcanvas : canvasOf canvas = .ok (width, height)) {fill : Option Rgb8}
    (hfill : backgroundOf background = .ok fill) :
    render forms canvas background = .error .offsetsEnd := by
  have hrealize : (do Mesh.concat (← Form.realizeAll forms)) = .error .offsetsEnd :=
    (Form.Real.stacked hforms).realize_eq_error hsize
  rw [render, hcanvas, ok_bind]
  dsimp only
  rw [hfill, ok_bind, ← bind_assoc, hrealize]
  rfl

end Svg

/-- The forms of the first ticks of a sketch. -/
theorem Shape.Built.exists_forms {shape : Shape} (hs : shape.Built) (ht : shape.Total)
    {stream : Stream} (hready : stream.Ready) (n : ℕ) :
    ∃ forms : List Form, forms.map .ok = (List.range n).map (shape.formAt stream) := by
  choose form hform using hs.exists_formAt ht hready
  refine ⟨(List.range n).map form, ?_⟩
  rw [List.map_map]
  exact List.map_congr_left fun i _ => (hform i).symm

/-- The rectangles in the forms of a number of ticks. -/
theorem Shape.leaves_of_forms {shape : Shape} {stream : Stream} {forms : List Form} {n : ℕ}
    (h : forms.map .ok = (List.range n).map (shape.formAt stream)) :
    (∀ form ∈ forms, form.Real) ∧
      (Form.stacked forms).leaves.length = n * shape.rectangleCount ∧
      ∀ l ∈ (Form.stacked forms).leaves, ∃ color, l.fill = .color color := by
  rw [Form.leaves_stacked]
  refine ⟨fun form hmem => ?_, ?_, fun l hl => ?_⟩
  · obtain ⟨i, hi⟩ := Shape.exists_formAt_of_mem h hmem
    exact Shape.real_of_formAt hi
  · have hcounts : forms.map (fun form => form.leaves.length) =
        List.replicate n shape.rectangleCount := by
      rw [List.eq_replicate_iff, List.length_map]
      refine ⟨Shape.length_of_forms h, List.forall_mem_map.mpr fun form hmem => ?_⟩
      obtain ⟨i, hi⟩ := Shape.exists_formAt_of_mem h hmem
      exact (Shape.leaves_of_formAt hi).1
    rw [List.length_flatMap, hcounts, List.sum_replicate_nat]
  · obtain ⟨form, hmem, hl⟩ := List.mem_flatMap.mp hl
    obtain ⟨i, hi⟩ := Shape.exists_formAt_of_mem h hmem
    exact (Shape.leaves_of_formAt hi).2 l hl

/-- A sketch from the builders, with functions that are total on doubles, completes all its ticks
from every seed that is an integer.  As long as the vertices can be counted by a word of 32 bits,
the forms are also realised and have a document, on every canvas of positive integers that have
doubles and with every background of three doubles. -/
theorem sketch_completes {shape : Shape} (hs : shape.Built) (ht : shape.Total) (seed : ℤ)
    (clock : Clock) (n : ℕ) {width height : ℤ} (hwidth : 0 < width) (hheight : 0 < height)
    {x y : Float} (hx : Number.ofWhole width = .ok x) (hy : Number.ofWhole height = .ok y)
    (red green blue : Float) :
    ∃ forms, ((Scene.start shape (.ofSeed seed) clock).run (.number (.whole n))).2 = .ok forms ∧
      forms.length = n ∧
      (5 * (n * shape.rectangleCount) < 2 ^ 31 →
        ∃ mesh d, (Form.stacked forms).realize = .ok mesh ∧
          Svg.render forms (.list [.number (.whole width), .number (.whole height)])
            (.list [.number (.real red), .number (.real green), .number (.real blue)]) = .ok d) := by
  obtain ⟨forms, hforms⟩ := hs.exists_forms ht (Stream.ready_next _) n
  have hrun := (Scene.run_start_eq_ok_iff shape (.ofSeed seed) clock n forms).mpr ⟨n, rfl, hforms⟩
  refine ⟨forms, hrun, Shape.length_of_forms hforms, fun hcount => ?_⟩
  obtain ⟨hreal, hlength, hfills⟩ := Shape.leaves_of_forms hforms
  rw [← hlength] at hcount
  have hsize : Mesh.pieceSize (Form.stacked forms).pieces < 2 ^ 31 := by
    rwa [Form.pieceSize_pieces]
  obtain ⟨center, hcenter⟩ := Svg.exists_centerOf hx hy
  obtain ⟨polygons, hpolygons⟩ := exists_mapM fun l hl =>
    (hfills l hl).elim fun color hcolor => Svg.exists_polygonOf hcenter hcolor
  have hcanvas := Svg.canvasOf_eq_ok hwidth hheight hx hy
  have hreads := Form.inRealsAll_eq_self fun form hmem => (hreal form hmem).inReals_eq
  exact ⟨_, ⟨width, height, _, polygons⟩, Form.realize_eq_ofPieces (.stacked hreal) hsize,
    Svg.render_eq_ok_iff.mpr
      ⟨hcanvas, Svg.backgroundOf_reals red green blue, forms, hreads, hcount, hpolygons⟩⟩

namespace ExportRequest

theorem total_strips : strips.shape.Total := by
  have hdiv : Binary.div.IsTotal := Binary.isTotal_of_mem_all (by simp [Binary.all])
  intro e he
  rw [strips, Shape.positions, Shape.mem_positionsOfAll] at he
  obtain ⟨s, hs, he⟩ := he
  simp only [List.mem_cons, List.not_mem_nil, or_false] at hs
  rcases hs with rfl | rfl <;>
    simp only [strip, Shape.positions, Paint.positions, List.mem_cons, List.not_mem_nil,
      or_false] at he <;>
    rcases he with rfl | rfl | rfl | rfl | rfl | rfl <;> trivial

/-- Two ticks of the strips, one of which is infinitely wide, before a background that is no number
and infinite. -/
theorem sketch_completes_strips :
    ∃ forms d, ((Scene.start strips.shape (.ofSeed (-3)) ⟨1.0, 0.0, 0⟩).run
        (.number (.whole (2 : ℕ)))).2 = .ok forms ∧ forms.length = 2 ∧
      Svg.render forms (.list [.number (.whole 10), .number (.whole 20)])
        (.list [.number (.real Double.nan), .number (.real Double.infinity),
          .number (.real 0.5)]) = .ok d := by
  obtain ⟨forms, hrun, hlength, hrender⟩ :=
    sketch_completes built_strips total_strips (-3) ⟨1.0, 0.0, 0⟩ 2 (show (0 : ℤ) < 10 by decide)
      (show (0 : ℤ) < 20 by decide) (show Number.ofWhole 10 = .ok 10.0 by rfl)
      (show Number.ofWhole 20 = .ok 20.0 by rfl) Double.nan Double.infinity 0.5
  obtain ⟨mesh, d, -, hd⟩ := hrender (by decide)
  exact ⟨forms, d, hrun, hlength, hd⟩

/-- Not every number of ticks leads to a document, and not every seed.  The strips have ten vertices
in each tick: all of 214748365 ticks are completed, but the 2147483650 vertices of their forms are
too many for a word.  An infinite seed is refused before the first tick. -/
theorem not_every_sketch_completes :
    strips.shape.Built ∧ strips.shape.Total ∧
      (∃ forms, ((Scene.start strips.shape (.ofSeed 7) ⟨1.0, 0.0, 0⟩).run
          (.number (.whole (214748365 : ℕ)))).2 = .ok forms ∧
        (Form.stacked forms).realize = .error .offsetsEnd ∧
        Svg.render forms (.list [.number (.whole 10), .number (.whole 20)])
          (.list [.number (.real 0.0), .number (.real 0.0), .number (.real 0.0)]) =
            .error .offsetsEnd) ∧
      ({ strips with seed := .number (.real Double.infinity) }.perform smallSession).2 =
        .error .infinityToWhole := by
  refine ⟨built_strips, total_strips, ?_, by rfl⟩
  have hready : (Stream.ofSeed 7).Ready := Stream.ready_next _
  obtain ⟨forms, hforms⟩ := built_strips.exists_forms total_strips hready 214748365
  obtain ⟨hreal, hlength, -⟩ := Shape.leaves_of_forms hforms
  have hsize : 2 ^ 31 ≤ Mesh.pieceSize (Form.stacked forms).pieces := by
    rw [Form.pieceSize_pieces, hlength, show strips.shape.rectangleCount = 2 from rfl]
    decide
  have hcanvas := Svg.canvasOf_eq_ok (show (0 : ℤ) < 10 by decide) (show (0 : ℤ) < 20 by decide)
    (show Number.ofWhole 10 = .ok 10.0 by rfl) (show Number.ofWhole 20 = .ok 20.0 by rfl)
  exact ⟨forms, (Scene.run_start_eq_ok_iff _ _ _ _ _).mpr ⟨_, rfl, hforms⟩,
    (Form.Real.stacked hreal).realize_eq_error hsize,
    Svg.render_eq_error hreal hsize hcanvas (Svg.backgroundOf_reals ..)⟩

end ExportRequest

end SeededSketch
