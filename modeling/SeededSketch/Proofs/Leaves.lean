import SeededSketch.Form
import SeededSketch.Proofs.Concatenation
import SeededSketch.Proofs.Reading

/-!
# The rectangles of a form

Realisation works on whole meshes, from the inside to the outside.  What comes out can be told from
each rectangle by itself: its corners, carried through the turns and moves on the way from the
rectangle up to the root.  `Form.leaves` lists the rectangles with these ways, and
`realize_eq_ofPieces` says that a form of doubles is realised as one piece for each of them.

The corners of a rectangle are halved and rounded once and given their signs afterwards.  That is
the same as giving the signs first, up to the word for no number (`Leaf.corners_same`).
-/

namespace SeededSketch

/-! ## Vertices at the same place -/

/-- The coordinates of the two vertices are the same, or no numbers. -/
structure Vertex.Same (v w : Vertex) : Prop where
  x : v.x.Same w.x
  y : v.y.Same w.y
  z : v.z.Same w.z

theorem Vertex.Same.refl (v : Vertex) : v.Same v := ⟨.refl _, .refl _, .refl _⟩

/-! ## Turns and moves -/

/-- A node of a form that changes the places of what is below it. -/
inductive Transform where
  | rotation (angle : Float)
  | translation (dx dy : Float)

namespace Transform

/-- The form with the transform around it. -/
def around : Transform → Form → Form
  | rotation angle, form => .rotated (.number (.real angle)) form
  | translation dx dy, form => .translated (.number (.real dx)) (.number (.real dy)) form

/-- What the transform does to a single vertex: it computes in doubles and rounds the outcome.  A
turn is the product of the row with the matrix of cosine and sine, the third coordinate kept as it
is, and each entry is summed up from zero; a move adds the distances.  A turn by no angle and a move
by no distance leave the vertex as it is. -/
def apply : Transform → Vertex → Vertex
  | rotation angle, v =>
    let x := v.x.toFloat
    let y := v.y.toFloat
    let z := v.z.toFloat
    if angle == 0.0 then v
    else
      ⟨.ofFloat (0.0 + x * angle.cos + y * -angle.sin + z * 0.0),
        .ofFloat (0.0 + x * angle.sin + y * angle.cos + z * 0.0),
        .ofFloat (0.0 + x * 0.0 + y * 0.0 + z * 1.0)⟩
  | translation dx dy, v =>
    if dx == 0.0 && dy == 0.0 then v
    else
      ⟨.ofFloat (v.x.toFloat + dx), .ofFloat (v.y.toFloat + dy), .ofFloat (v.z.toFloat + 0.0)⟩

/-- A vertex of a mesh is turned as the transform says. -/
theorem rotate_eq (angle : Float) (v : Vertex) :
    (if angle == 0.0 then v else v.rotate angle.cos angle.sin) = (rotation angle).apply v := rfl

/-- A vertex of a mesh is moved as the transform says. -/
theorem translate_eq (dx dy : Float) (v : Vertex) :
    (if dx == 0.0 && dy == 0.0 then v else v.translate dx dy) = (translation dx dy).apply v := rfl

theorem apply_same (t : Transform) {v w : Vertex} (h : v.Same w) :
    (t.apply v).Same (t.apply w) := by
  have hx := h.x.toFloat_eq
  have hy := h.y.toFloat_eq
  have hz := h.z.toFloat_eq
  cases t with
  | rotation angle =>
      rw [apply, apply, hx, hy, hz]
      split
      · exact h
      · exact .refl _
  | translation dx dy =>
      rw [apply, apply, hx, hy, hz]
      split
      · exact h
      · exact .refl _

/-- The shortcut for a mesh without vertices leads to the same place as the long way, and so the
question whether anything is to be done can be asked of each vertex. -/
theorem shortcut_eq (m : Mesh) (skip : Bool) (f : Vertex → Vertex) :
    (if m.vertices.isEmpty || skip then m else { m with vertices := m.vertices.map f }) =
      { m with vertices := m.vertices.map fun v => if skip then v else f v } := by
  obtain ⟨vertices, offsets, fills⟩ := m
  cases vertices with
  | nil => simp
  | cons v rest => cases skip <;> simp

theorem realize_around (t : Transform) {child : Form} {m : Mesh} (h : child.realize = .ok m) :
    (t.around child).realize = .ok { m with vertices := m.vertices.map t.apply } := by
  cases t with
  | rotation angle =>
      have hreal : (Value.number (.real angle)).toReal = .ok angle := rfl
      rw [around, Form.realize, h, hreal, ← funext (rotate_eq angle)]
      exact congrArg Except.ok (shortcut_eq m (angle == 0.0) _)
  | translation dx dy =>
      have hx : (Value.number (.real dx)).toReal = .ok dx := rfl
      have hy : (Value.number (.real dy)).toReal = .ok dy := rfl
      rw [around, Form.realize, h, hx, hy, ← funext (translate_eq dx dy)]
      exact congrArg Except.ok (shortcut_eq m (dx == 0.0 && dy == 0.0) _)

end Transform

/-! ## Rectangles and the ways to them -/

/-- A rectangle of a form, with the turns and moves around it from the inside to the outside. -/
structure Leaf where
  width : Float
  height : Float
  fill : Fill
  path : List Transform

namespace Leaf

/-- The leaf with one more transform around it. -/
def within (t : Transform) (l : Leaf) : Leaf := { l with path := l.path ++ [t] }

/-- A vertex carried from the rectangle up to the root. -/
def carry (l : Leaf) (v : Vertex) : Vertex := l.path.foldl (fun v t => t.apply v) v

/-- The vertices of the polygon that becomes of the rectangle. -/
def rows (l : Leaf) : List Vertex := (Mesh.corners l.width l.height).map l.carry

/-- The piece that becomes of the rectangle. -/
def piece (l : Leaf) : List Vertex × Fill := (l.rows, l.fill)

/-- The corners of the rectangle, each coordinate rounded by itself. -/
def corners (l : Leaf) : List Vertex :=
  let right := l.width / 2.0
  let top := l.height / 2.0
  [(-right, -top), (right, -top), (right, top), (-right, top), (-right, -top)].map
    fun (x, y) => ⟨.ofFloat x, .ofFloat y, .zero⟩

theorem carry_within (t : Transform) (l : Leaf) (v : Vertex) :
    (l.within t).carry v = t.apply (l.carry v) := by
  rw [carry, within, List.foldl_append]
  rfl

theorem rows_within (t : Transform) (l : Leaf) : (l.within t).rows = l.rows.map t.apply := by
  rw [rows, rows, List.map_map]
  exact List.map_congr_left fun v _ => carry_within t l v

@[simp] theorem length_rows (l : Leaf) : l.rows.length = 5 := rfl

theorem head?_rows (l : Leaf) : l.rows.head? = l.rows.getLast? := rfl

theorem carry_same (l : Leaf) {v w : Vertex} (h : v.Same w) : (l.carry v).Same (l.carry w) := by
  rw [carry, carry]
  generalize l.path = path
  induction path generalizing v w with
  | nil => exact h
  | cons t rest ih => exact ih (t.apply_same h)

theorem rows_same (l : Leaf) : List.Forall₂ Vertex.Same l.rows (l.corners.map l.carry) := by
  have hleft := (Single.ofFloat_neg (l.width / 2.0)).symm
  have hbottom := (Single.ofFloat_neg (l.height / 2.0)).symm
  have hcorners : List.Forall₂ Vertex.Same (Mesh.corners l.width l.height) l.corners :=
    .cons ⟨hleft, hbottom, .refl _⟩ (.cons ⟨.refl _, hbottom, .refl _⟩
      (.cons ⟨.refl _, .refl _, .refl _⟩ (.cons ⟨hleft, .refl _, .refl _⟩
        (.cons ⟨hleft, hbottom, .refl _⟩ .nil))))
  rw [rows, List.forall₂_map_left_iff, List.forall₂_map_right_iff]
  exact hcorners.imp fun v w h => l.carry_same h

end Leaf

/-! ## Forms of doubles -/

namespace Form

/-- Every number in the form is a double, and nothing stands where a form belongs but a form. -/
inductive Real : Form → Prop
  | rectangle (width height : Float) (fill : Fill) :
      Real (.rectangle (.number (.real width)) (.number (.real height)) fill)
  | rotated (angle : Float) {child : Form} (h : child.Real) :
      Real (.rotated (.number (.real angle)) child)
  | translated (dx dy : Float) {child : Form} (h : child.Real) :
      Real (.translated (.number (.real dx)) (.number (.real dy)) child)
  | stacked {children : List Form} (h : ∀ form ∈ children, form.Real) : Real (.stacked children)

theorem Real.around (t : Transform) {child : Form} (h : child.Real) : (t.around child).Real := by
  cases t with
  | rotation angle => exact .rotated angle h
  | translation dx dy => exact .translated dx dy h

theorem Real.of_around {t : Transform} {child : Form} (h : (t.around child).Real) : child.Real := by
  cases t with
  | rotation angle => cases h; assumption
  | translation dx dy => cases h; assumption

mutual

/-- The rectangles of a form of doubles, from the left to the right. -/
def leaves : Form → List Leaf
  | rectangle (.number (.real width)) (.number (.real height)) fill => [⟨width, height, fill, []⟩]
  | rotated (.number (.real angle)) child => child.leaves.map (Leaf.within (.rotation angle))
  | translated (.number (.real dx)) (.number (.real dy)) child =>
    child.leaves.map (Leaf.within (.translation dx dy))
  | stacked children => leavesOfAll children
  | _ => []

def leavesOfAll : List Form → List Leaf
  | [] => []
  | form :: rest => form.leaves ++ leavesOfAll rest

end

theorem leaves_around (t : Transform) (form : Form) :
    (t.around form).leaves = form.leaves.map (Leaf.within t) := by
  cases t <;> rw [Transform.around, leaves]

theorem leaves_stacked (children : List Form) :
    (stacked children).leaves = children.flatMap leaves := by
  rw [leaves]
  induction children with
  | nil => rfl
  | cons form rest ih => rw [leavesOfAll, ih, List.flatMap_cons]

open Mesh (ofPieces pieceSize)

/-- The pieces that become of the rectangles of a form. -/
def pieces (form : Form) : List (List Vertex × Fill) := form.leaves.map Leaf.piece

theorem pieces_around (t : Transform) (form : Form) :
    (t.around form).pieces = form.pieces.map fun p => (p.1.map t.apply, p.2) := by
  rw [pieces, pieces, leaves_around, List.map_map, List.map_map]
  refine List.map_congr_left fun l _ => ?_
  simp only [Function.comp_apply, Leaf.piece, Leaf.rows_within]
  rfl

theorem pieces_stacked (children : List Form) :
    (stacked children).pieces = (children.map pieces).flatten := by
  rw [pieces, leaves_stacked, List.map_flatMap]
  rfl

theorem lengths_pieces (form : Form) :
    (form.pieces.map fun p => p.1.length) = List.replicate form.leaves.length 5 := by
  simp [pieces, Leaf.piece, Function.comp_def]

theorem pieceSize_pieces (form : Form) : pieceSize form.pieces = 5 * form.leaves.length := by
  rw [pieceSize, lengths_pieces, List.sum_replicate_nat, Nat.mul_comm]

theorem ofPieces_map_vertices (f : Vertex → Vertex) (ps : List (List Vertex × Fill)) :
    { ofPieces ps with vertices := (ofPieces ps).vertices.map f } =
      ofPieces (ps.map fun p => (p.1.map f, p.2)) := by
  simp [ofPieces, List.map_flatMap, List.flatMap_map, Function.comp_def]

theorem realize_around_eq (t : Transform) {child : Form}
    (hchild : pieceSize child.pieces < 2 ^ 31 → child.realize = .ok (ofPieces child.pieces))
    (hsize : pieceSize (t.around child).pieces < 2 ^ 31) :
    (t.around child).realize = .ok (ofPieces (t.around child).pieces) := by
  rw [pieceSize_pieces, leaves_around, List.length_map, ← pieceSize_pieces] at hsize
  rw [t.realize_around (hchild hsize), ofPieces_map_vertices, pieces_around]

theorem realizeAll_eq {children : List Form}
    (hchildren : ∀ form ∈ children,
      pieceSize form.pieces < 2 ^ 31 → form.realize = .ok (ofPieces form.pieces))
    (hsize : pieceSize (stacked children).pieces < 2 ^ 31) :
    realizeAll children = .ok ((children.map pieces).map ofPieces) := by
  induction children with
  | nil => rfl
  | cons form rest ih =>
      rw [List.forall_mem_cons] at hchildren
      rw [pieces_stacked, List.map_cons, List.flatten_cons, Mesh.pieceSize_append,
        ← pieces_stacked] at hsize
      rw [realizeAll, hchildren.1 (by omega), ih hchildren.2 (by omega)]
      rfl

/-- A form of doubles is realised as the mesh of its rectangles' pieces, in their order. -/
theorem realize_eq_ofPieces {form : Form} (hform : form.Real)
    (hsize : pieceSize form.pieces < 2 ^ 31) : form.realize = .ok (ofPieces form.pieces) := by
  induction hform with
  | rectangle width height fill => rfl
  | rotated angle h ih => exact realize_around_eq (.rotation angle) ih hsize
  | translated dx dy h ih => exact realize_around_eq (.translation dx dy) ih hsize
  | @stacked children h ih =>
      rw [realize, realizeAll_eq ih hsize, ok_bind]
      rw [pieces_stacked] at hsize ⊢
      exact Mesh.concat_ofPieces (children.map pieces) hsize

theorem leaves_distribute (t : Transform) (children : List Form) :
    (stacked (children.map t.around)).leaves = (t.around (stacked children)).leaves := by
  rw [leaves_around, leaves_stacked, leaves_stacked, List.flatMap_map, List.map_flatMap]
  exact List.flatMap_congr fun form _ => leaves_around t form

theorem realize_distribute {t : Transform} {children : List Form}
    (hform : (t.around (stacked children)).Real)
    (hsize : pieceSize (t.around (stacked children)).pieces < 2 ^ 31) :
    (stacked (children.map t.around)).realize = (t.around (stacked children)).realize := by
  have hstacked : (stacked (children.map t.around)).Real := by
    cases hform.of_around with
    | stacked h =>
        refine .stacked fun form hmem => ?_
        obtain ⟨child, hchild, rfl⟩ := List.mem_map.mp hmem
        exact .around t (h child hchild)
  have hpieces : (stacked (children.map t.around)).pieces =
      (t.around (stacked children)).pieces :=
    congrArg (List.map Leaf.piece) (leaves_distribute t children)
  rw [realize_eq_ofPieces hform hsize, realize_eq_ofPieces hstacked (by rwa [hpieces]), hpieces]

theorem toInt_sums_replicate (base n k : Nat) (h : base + k * n < 2 ^ 31) :
    (Mesh.sums base (List.replicate n k)).map Int32.toInt =
      (List.range (n + 1)).map fun i : Nat => (base + k * i : Int) := by
  induction n generalizing base with
  | zero =>
      have hbase : (Int32.ofNat base).toInt = base := Int32.toInt_ofNat_of_lt (by omega)
      simp [hbase]
  | succ n ih =>
      have hbase : (Int32.ofNat base).toInt = base := Int32.toInt_ofNat_of_lt (by omega)
      have hrest := ih (base + k) (by rw [Nat.mul_succ] at h; omega)
      rw [List.replicate_succ, Mesh.sums_cons, List.map_cons, hrest, hbase,
        @List.range_succ_eq_map (n + 1), List.map_cons, List.map_map]
      congr 1
      refine List.map_congr_left fun i _ => ?_
      show ((base + k : Nat) : Int) + k * i = base + k * (i + 1 : Nat)
      rw [Int.natCast_add, Int.natCast_add, Int.mul_add, Int.natCast_one, Int.mul_one]
      omega

/-- A form of doubles, with fewer vertices than a word can count, is realised as one polygon of five
vertices for each of its rectangles, in their order and with their fills.  The vertices are the
rounded corners of the rectangle, each carried by itself through the turns and moves around it; so
they do not depend on what else is in the form, the last is the first again, and it makes no
difference whether a turn or a move is around a stack or around each form in it. -/
theorem realize_leaves {form : Form} (hform : form.Real) (hsize : 5 * form.leaves.length < 2 ^ 31) :
    ∃ m, form.realize = .ok m ∧ m.Tiled ∧
      (m.offsets.map Int32.toInt =
        (List.range (form.leaves.length + 1)).map fun i : Nat => (5 * i : Int)) ∧
      m.fills = form.leaves.map Leaf.fill ∧
      m.vertices = form.leaves.flatMap Leaf.rows ∧
      (m.pieces = form.leaves.map fun l => (l.rows, l.fill)) ∧
      (∀ l ∈ form.leaves, l.rows.length = 5 ∧ l.rows.head? = l.rows.getLast? ∧
        List.Forall₂ Vertex.Same l.rows (l.corners.map l.carry)) ∧
      (∀ children, form = stacked children →
        ∃ ms, realizeAll children = .ok ms ∧ m.pieces = ms.flatMap Mesh.pieces) ∧
      ∀ (t : Transform) (children : List Form), form = t.around (stacked children) →
        (stacked (children.map t.around)).realize = .ok m := by
  have hpieces : pieceSize form.pieces < 2 ^ 31 := by rwa [pieceSize_pieces]
  have hlength : (ofPieces form.pieces).vertices.length < 2 ^ 31 := by
    rwa [Mesh.length_vertices_ofPieces]
  have hrealize := realize_eq_ofPieces hform hpieces
  refine ⟨ofPieces form.pieces, hrealize, Mesh.tiled_ofPieces hlength, ?_, ?_, ?_,
    Mesh.pieces_ofPieces hlength, ?_, ?_, ?_⟩
  · rw [ofPieces, lengths_pieces]
    have hsums := toInt_sums_replicate 0 form.leaves.length 5 (by omega)
    simpa using hsums
  · exact List.map_map ..
  · exact List.flatMap_map ..
  · intro l hmem
    exact ⟨l.length_rows, l.head?_rows, l.rows_same⟩
  · rintro children rfl
    cases hform with
    | stacked h =>
        refine ⟨(children.map pieces).map ofPieces,
          realizeAll_eq (fun form hmem => realize_eq_ofPieces (h form hmem)) hpieces, ?_⟩
        rw [Mesh.pieces_ofPieces hlength]
        rw [pieces_stacked] at hpieces ⊢
        exact (Mesh.flatMap_pieces_ofPieces hpieces).symm
  · rintro t children rfl
    rw [realize_distribute hform hpieces, hrealize]

/-- A rectangle turned and one that is not, with an empty stack in between, moved together. -/
def nested : Form :=
  .translated (.number (.real 10.0)) (.number (.real 0.0)) (.stacked [
    .rotated (.number (.real 0.5))
      (.rectangle (.number (.real 2.0)) (.number (.real 4.0)) Mesh.red),
    .stacked [],
    .rectangle (.number (.real 1.0)) (.number (.real 1.0)) Mesh.red])

theorem nested_real : nested.Real := by
  refine .translated _ _ (.stacked ?_)
  simp only [List.forall_mem_cons]
  exact ⟨.rotated _ (.rectangle _ _ _), .stacked (by simp), .rectangle _ _ _, by simp⟩

/-- A turn by half a radian and a move by ten to the right, at a vertex in the plane. -/
theorem carry_turned (width height : Float) (fill : Fill) {x y : Single} {a b : Float}
    (ha : x.toFloat = a) (hb : y.toFloat = b) :
    Leaf.carry ⟨width, height, fill, [.rotation 0.5, .translation 10.0 0.0]⟩ ⟨x, y, .zero⟩ =
      ⟨.ofFloat ((Single.ofFloat
          (0.0 + a * Float.cos 0.5 + b * -Float.sin 0.5 + 0.0 * 0.0)).toFloat + 10.0),
        .ofFloat ((Single.ofFloat
          (0.0 + a * Float.sin 0.5 + b * Float.cos 0.5 + 0.0 * 0.0)).toFloat + 0.0),
        .ofFloat ((Single.ofFloat (0.0 + a * 0.0 + b * 0.0 + 0.0 * 1.0)).toFloat + 0.0)⟩ := by
  have hturn : ((0.5 : Float) == 0.0) = false := by decide +kernel
  have hmove : ((10.0 : Float) == 0.0 && (0.0 : Float) == 0.0) = false := by decide +kernel
  have hzero : Single.zero.toFloat = 0.0 := Float.toBits_inj.mp (by decide +kernel)
  rw [Leaf.carry, List.foldl_cons, List.foldl_cons, List.foldl_nil, Transform.apply,
    Transform.apply, hturn, hmove, ha, hb, hzero]
  rfl

/-- The first rectangle is turned and then moved; the second lies where it would lie without the
first, around the point ten to the right. -/
theorem realize_nested :
    5 * nested.leaves.length < 2 ^ 31 ∧
      ∃ m, nested.realize = .ok m ∧ m.offsets.map Int32.toInt = [0, 5, 10] ∧
        m.fills = [Mesh.red, Mesh.red] ∧
        (m.vertices.take 5 =
          [(-1.0, -2.0), (1.0, -2.0), (1.0, 2.0), (-1.0, 2.0), (-1.0, -2.0)].map
            fun ((x, y) : Float × Float) =>
              ⟨.ofFloat ((Single.ofFloat
                  (0.0 + x * Float.cos 0.5 + y * -Float.sin 0.5 + 0.0 * 0.0)).toFloat + 10.0),
                .ofFloat ((Single.ofFloat
                  (0.0 + x * Float.sin 0.5 + y * Float.cos 0.5 + 0.0 * 0.0)).toFloat + 0.0),
                .zero⟩) ∧
        m.vertices.drop 5 =
          [⟨⟨0x41180000⟩, ⟨0xbf000000⟩, .zero⟩, ⟨⟨0x41280000⟩, ⟨0xbf000000⟩, .zero⟩,
            ⟨⟨0x41280000⟩, ⟨0x3f000000⟩, .zero⟩, ⟨⟨0x41180000⟩, ⟨0x3f000000⟩, .zero⟩,
            ⟨⟨0x41180000⟩, ⟨0xbf000000⟩, .zero⟩] := by
  have hsize : 5 * nested.leaves.length < 2 ^ 31 := by decide
  obtain ⟨m, hm, -, hoffsets, hfills, hvertices, -⟩ := realize_leaves nested_real hsize
  refine ⟨hsize, m, hm, hoffsets, hfills, ?_, ?_⟩
  · have hfirst : m.vertices.take 5 =
        Leaf.rows ⟨2.0, 4.0, Mesh.red, [.rotation 0.5, .translation 10.0 0.0]⟩ := by
      rw [hvertices]
      rfl
    have hcorners : Mesh.corners 2.0 4.0 =
        [⟨⟨0xbf800000⟩, ⟨0xc0000000⟩, .zero⟩, ⟨⟨0x3f800000⟩, ⟨0xc0000000⟩, .zero⟩,
          ⟨⟨0x3f800000⟩, ⟨0x40000000⟩, .zero⟩, ⟨⟨0xbf800000⟩, ⟨0x40000000⟩, .zero⟩,
          ⟨⟨0xbf800000⟩, ⟨0xc0000000⟩, .zero⟩] := by decide +kernel
    have hleft : (⟨0xbf800000⟩ : Single).toFloat = -1.0 := Float.toBits_inj.mp (by decide +kernel)
    have hright : (⟨0x3f800000⟩ : Single).toFloat = 1.0 := Float.toBits_inj.mp (by decide +kernel)
    have hbottom : (⟨0xc0000000⟩ : Single).toFloat = -2.0 := Float.toBits_inj.mp (by decide +kernel)
    have htop : (⟨0x40000000⟩ : Single).toFloat = 2.0 := Float.toBits_inj.mp (by decide +kernel)
    have hflat (p : Float × Float)
        (hp : p ∈ [(-1.0, -2.0), (1.0, -2.0), (1.0, 2.0), (-1.0, 2.0)]) :
        Single.ofFloat ((Single.ofFloat (0.0 + p.1 * 0.0 + p.2 * 0.0 + 0.0 * 1.0)).toFloat + 0.0) =
          .zero := by
      simp only [List.mem_cons, List.not_mem_nil, or_false] at hp
      rcases hp with rfl | rfl | rfl | rfl <;> decide +kernel
    rw [hfirst, Leaf.rows, hcorners]
    simp only [List.map_cons, List.map_nil, carry_turned _ _ _ hleft hbottom,
      carry_turned _ _ _ hright hbottom, carry_turned _ _ _ hright htop,
      carry_turned _ _ _ hleft htop, hflat (-1.0, -2.0) (by simp), hflat (1.0, -2.0) (by simp),
      hflat (1.0, 2.0) (by simp), hflat (-1.0, 2.0) (by simp)]
  · have hlast : m.vertices.drop 5 =
        Leaf.rows ⟨1.0, 1.0, Mesh.red, [.translation 10.0 0.0]⟩ := by
      rw [hvertices]
      rfl
    rw [hlast]
    decide +kernel

end Form
end SeededSketch
