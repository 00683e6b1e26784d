import SeededSketch.Proofs.Drawings

/-!
# Documents rectangle by rectangle

Rendering realises all forms, joins their meshes and cuts polygons out of the joined mesh again.
`render_eq_ok_iff` says what comes of it without a mesh: there is a document exactly if every number
in the forms can be read as a double, the vertices can be counted by a word, and each rectangle by
itself has a polygon on the canvas; and these polygons, from the left to the right, are those of the
document.

Forms may hold any values.  `Form.inReals` reads all numbers of a form first; what is realised is
the form that comes of it (`realize_eq_of_inReals`), so that the facts about forms of doubles hold
for all forms that can be rendered.
-/

namespace SeededSketch

namespace Form

/-! ## Forms with their numbers read -/

mutual

/-- The form with a double in the place of each number. -/
def inReals : Form → Except Fault Form
  | rectangle width height fill => do
    let w ← width.toReal
    let h ← height.toReal
    return .rectangle (.number (.real w)) (.number (.real h)) fill
  | rotated angle child => do
    let form ← child.inReals
    let a ← angle.toReal
    return .rotated (.number (.real a)) form
  | translated dx dy child => do
    let form ← child.inReals
    let x ← dx.toReal
    let y ← dy.toReal
    return .translated (.number (.real x)) (.number (.real y)) form
  | stacked children => do
    return .stacked (← inRealsAll children)
  | stray v => .error (.unknownForm v)

def inRealsAll : List Form → Except Fault (List Form)
  | [] => .ok []
  | form :: rest => do
    let read ← form.inReals
    let reads ← inRealsAll rest
    return read :: reads

end

mutual

/-- How many rectangles there are in a form. -/
def rectangleCount : Form → ℕ
  | rectangle .. => 1
  | rotated _ child => child.rectangleCount
  | translated _ _ child => child.rectangleCount
  | stacked children => rectangleCountOfAll children
  | stray _ => 0

def rectangleCountOfAll : List Form → ℕ
  | [] => 0
  | form :: rest => form.rectangleCount + rectangleCountOfAll rest

end

mutual

/-- A form whose numbers can be read is realised as the form of these doubles is. -/
theorem realize_eq_of_inReals : ∀ (form : Form) {read : Form}, form.inReals = .ok read →
    read.Real ∧ read.realize = form.realize
  | .rectangle width height fill, read, h => by
      obtain ⟨w, hw, h⟩ := bind_eq_ok h
      obtain ⟨y, hy, h⟩ := bind_eq_ok h
      cases h
      refine ⟨.rectangle w y fill, ?_⟩
      rw [realize, realize, hw, hy]
      rfl
  | .rotated angle child, read, h => by
      obtain ⟨form, hform, h⟩ := bind_eq_ok h
      obtain ⟨a, ha, h⟩ := bind_eq_ok h
      obtain ⟨hreal, hsame⟩ := realize_eq_of_inReals child hform
      cases h
      refine ⟨.rotated a hreal, ?_⟩
      rw [realize, realize, hsame, ha]
      rfl
  | .translated dx dy child, read, h => by
      obtain ⟨form, hform, h⟩ := bind_eq_ok h
      obtain ⟨x, hx, h⟩ := bind_eq_ok h
      obtain ⟨y, hy, h⟩ := bind_eq_ok h
      obtain ⟨hreal, hsame⟩ := realize_eq_of_inReals child hform
      cases h
      refine ⟨.translated x y hreal, ?_⟩
      rw [realize, realize, hsame, hx, hy]
      rfl
  | .stacked children, read, h => by
      obtain ⟨forms, hforms, h⟩ := bind_eq_ok h
      obtain ⟨hreal, hsame⟩ := realizeAll_eq_of_inReals children hforms
      cases h
      refine ⟨.stacked hreal, ?_⟩
      rw [realize, realize, hsame]
  | .stray v, read, h => by cases h

theorem realizeAll_eq_of_inReals : ∀ (forms : List Form) {reads : List Form},
    inRealsAll forms = .ok reads →
      (∀ form ∈ reads, form.Real) ∧ realizeAll reads = realizeAll forms
  | [], reads, h => by
      cases h
      exact ⟨by simp, rfl⟩
  | form :: rest, reads, h => by
      obtain ⟨read, hread, h⟩ := bind_eq_ok h
      obtain ⟨more, hmore, h⟩ := bind_eq_ok h
      obtain ⟨hreal, hsame⟩ := realize_eq_of_inReals form hread
      obtain ⟨hreals, hsames⟩ := realizeAll_eq_of_inReals rest hmore
      cases h
      refine ⟨List.forall_mem_cons.mpr ⟨hreal, hreals⟩, ?_⟩
      rw [realizeAll, realizeAll, hsame, hsames]

end

mutual

/-- All numbers of a form that could be realised can be read. -/
theorem exists_inReals : ∀ (form : Form) {m : Mesh}, form.realize = .ok m →
    ∃ read, form.inReals = .ok read
  | .rectangle width height fill, m, h => by
      obtain ⟨w, hw, h⟩ := bind_eq_ok h
      obtain ⟨y, hy, -⟩ := bind_eq_ok h
      exact ⟨_, by rw [inReals, hw, ok_bind, hy]; rfl⟩
  | .rotated angle child, m, h => by
      obtain ⟨inner, hinner, h⟩ := bind_eq_ok h
      obtain ⟨a, ha, -⟩ := bind_eq_ok h
      obtain ⟨form, hform⟩ := exists_inReals child hinner
      exact ⟨_, by rw [inReals, hform, ok_bind, ha]; rfl⟩
  | .translated dx dy child, m, h => by
      obtain ⟨inner, hinner, h⟩ := bind_eq_ok h
      obtain ⟨x, hx, h⟩ := bind_eq_ok h
      obtain ⟨y, hy, -⟩ := bind_eq_ok h
      obtain ⟨form, hform⟩ := exists_inReals child hinner
      exact ⟨_, by rw [inReals, hform, ok_bind, hx, ok_bind, hy]; rfl⟩
  | .stacked children, m, h => by
      obtain ⟨meshes, hmeshes, -⟩ := bind_eq_ok h
      obtain ⟨forms, hforms⟩ := exists_inRealsAll children hmeshes
      exact ⟨_, by rw [inReals, hforms]; rfl⟩
  | .stray v, m, h => by cases h

theorem exists_inRealsAll : ∀ (forms : List Form) {ms : List Mesh}, realizeAll forms = .ok ms →
    ∃ reads, inRealsAll forms = .ok reads
  | [], ms, h => ⟨[], rfl⟩
  | form :: rest, ms, h => by
      obtain ⟨m, hm, h⟩ := bind_eq_ok h
      obtain ⟨ms', hms, -⟩ := bind_eq_ok h
      obtain ⟨read, hread⟩ := exists_inReals form hm
      obtain ⟨reads, hreads⟩ := exists_inRealsAll rest hms
      exact ⟨_, by rw [inRealsAll, hread, ok_bind, hreads]; rfl⟩

end

mutual

/-- Reading the numbers loses no rectangle. -/
theorem length_leaves_of_inReals : ∀ (form : Form) {read : Form}, form.inReals = .ok read →
    read.leaves.length = form.rectangleCount
  | .rectangle width height fill, read, h => by
      obtain ⟨w, -, h⟩ := bind_eq_ok h
      obtain ⟨y, -, h⟩ := bind_eq_ok h
      cases h
      rfl
  | .rotated angle child, read, h => by
      obtain ⟨form, hform, h⟩ := bind_eq_ok h
      obtain ⟨a, -, h⟩ := bind_eq_ok h
      cases h
      rw [leaves, List.length_map, length_leaves_of_inReals child hform, rectangleCount]
  | .translated dx dy child, read, h => by
      obtain ⟨form, hform, h⟩ := bind_eq_ok h
      obtain ⟨x, -, h⟩ := bind_eq_ok h
      obtain ⟨y, -, h⟩ := bind_eq_ok h
      cases h
      rw [leaves, List.length_map, length_leaves_of_inReals child hform, rectangleCount]
  | .stacked children, read, h => by
      obtain ⟨forms, hforms, h⟩ := bind_eq_ok h
      cases h
      rw [leaves, length_leaves_of_inRealsAll children hforms, rectangleCount]
  | .stray v, read, h => by cases h

theorem length_leaves_of_inRealsAll : ∀ (forms : List Form) {reads : List Form},
    inRealsAll forms = .ok reads → (leavesOfAll reads).length = rectangleCountOfAll forms
  | [], reads, h => by
      cases h
      rfl
  | form :: rest, reads, h => by
      obtain ⟨read, hread, h⟩ := bind_eq_ok h
      obtain ⟨more, hmore, h⟩ := bind_eq_ok h
      cases h
      rw [leavesOfAll, List.length_append, length_leaves_of_inReals form hread,
        length_leaves_of_inRealsAll rest hmore, rectangleCountOfAll]

end

theorem inRealsAll_append (front back : List Form) :
    inRealsAll (front ++ back) = (do
      let reads ← inRealsAll front
      let more ← inRealsAll back
      return reads ++ more) := by
  induction front with
  | nil =>
      simp only [List.nil_append, inRealsAll, ok_bind]
      exact (bind_pure _).symm
  | cons form rest ih =>
      simp only [List.cons_append, inRealsAll, ih, bind_assoc, pure_bind]

theorem inRealsAll_eq_self {forms : List Form} (h : ∀ form ∈ forms, form.inReals = .ok form) :
    inRealsAll forms = .ok forms := by
  induction forms with
  | nil => rfl
  | cons form rest ih =>
      rw [List.forall_mem_cons] at h
      rw [inRealsAll, h.1, ih h.2]
      rfl

/-- The doubles of a form of doubles are read as they are. -/
theorem Real.inReals_eq {form : Form} (h : form.Real) : form.inReals = .ok form := by
  induction h with
  | rectangle width height fill => rfl
  | @rotated angle child _ ih =>
      rw [inReals, ih]
      rfl
  | @translated dx dy child _ ih =>
      rw [inReals, ih]
      rfl
  | @stacked children _ ih =>
      rw [inReals, inRealsAll_eq_self ih]
      rfl

end Form

/-! ## Canvases -/

theorem Number.whole_le_zero (n : ℤ) : (Number.whole n).le (.whole 0) = decide (¬0 < n) := by
  rcases lt_trichotomy n 0 with h | rfl | h
  · have hcompare : compare n 0 = .lt := Int.compare_eq_lt.mpr h
    simp [Number.le, Number.compare?, hcompare, h.le]
  · rfl
  · have hcompare : compare n 0 = .gt := Int.compare_eq_gt.mpr h
    simp [Number.le, Number.compare?, hcompare, h]

namespace Svg

/-- Both sides of a canvas are checked before one of them is read. -/
theorem canvasOf_pair (a b : Value) :
    canvasOf (.list [a, b]) = (do
      (do if (← a.toComparable "<=").le (.whole 0) then .error .canvasNotPositive else return ())
      (do if (← b.toComparable "<=").le (.whole 0) then .error .canvasNotPositive else return ())
      let width ← (do
        let n ← a.toWhole
        if isWritableWhole n then return n else .error .wholeTooLong)
      let height ← (do
        let n ← b.toWhole
        if isWritableWhole n then return n else .error .wholeTooLong)
      return (width, height)) := by rfl

theorem canvasOf_wholes (width height : ℤ) :
    canvasOf (.list [.number (.whole width), .number (.whole height)]) =
      if 0 < width ∧ 0 < height then
        if isWritableWhole width = true ∧ isWritableWhole height = true then .ok (width, height)
        else .error .wholeTooLong
      else .error .canvasNotPositive := by
  have hcompare (n : ℤ) : (Value.number (.whole n)).toComparable "<=" = .ok (.whole n) := rfl
  have hwhole (n : ℤ) : (Value.number (.whole n)).toWhole = .ok n := rfl
  rw [canvasOf_pair, hcompare, hcompare, hwhole, hwhole]
  simp only [ok_bind, Number.whole_le_zero]
  by_cases hpositive : 0 < width ∧ 0 < height
  · rw [if_pos hpositive]
    by_cases hwidth : isWritableWhole width <;> by_cases hheight : isWritableWhole height <;>
      simp [hpositive, hwidth, hheight]
  · rw [if_neg hpositive]
    by_cases hwidth : 0 < width
    · have hheight : ¬0 < height := fun hheight => hpositive ⟨hwidth, hheight⟩
      simp [hwidth, not_lt.mp hheight]
    · simp [not_lt.mp hwidth]

end Svg

/-! ## Steps over a list -/

theorem mapM_eq_ok_iff {α β : Type} {f : α → Except Fault β} {l : List α} {bs : List β} :
    l.mapM f = .ok bs ↔ List.Forall₂ (fun a b => f a = .ok b) l bs := by
  refine ⟨forall₂_of_mapM, fun h => ?_⟩
  induction h with
  | nil => rfl
  | cons hb _ ih =>
      rw [List.mapM_cons, hb, ok_bind, ih]
      rfl

/-- Steps that cannot fail on the elements of a list do not fail on the list. -/
theorem exists_mapM {α β : Type} {f : α → Except Fault β} {l : List α}
    (h : ∀ a ∈ l, ∃ b, f a = .ok b) : ∃ bs, l.mapM f = .ok bs := by
  induction l with
  | nil => exact ⟨[], rfl⟩
  | cons a rest ih =>
      rw [List.forall_mem_cons] at h
      obtain ⟨b, hb⟩ := h.1
      obtain ⟨bs, hbs⟩ := ih h.2
      exact ⟨b :: bs, mapM_eq_ok_iff.mpr (.cons hb (mapM_eq_ok_iff.mp hbs))⟩

/-- What comes of a list came of one of its elements. -/
theorem exists_of_mem_mapM {α β : Type} {f : α → Except Fault β} {l : List α} {bs : List β} {b : β}
    (h : l.mapM f = .ok bs) (hb : b ∈ bs) : ∃ a ∈ l, f a = .ok b := by
  induction mapM_eq_ok_iff.mp h with
  | nil => cases hb
  | cons ha hrest ih =>
      rcases List.mem_cons.mp hb with rfl | hb
      · exact ⟨_, List.mem_cons_self, ha⟩
      · obtain ⟨a, ha, hab⟩ := ih (mapM_eq_ok_iff.mpr hrest) hb
        exact ⟨a, List.mem_cons_of_mem _ ha, hab⟩

/-! ## The polygons of a document -/

namespace Svg

/-- The polygon of a rectangle on a canvas of the given size. -/
def polygonOf (width height : ℤ) (l : Leaf) : Except Fault Polygon :=
  polygon width height l.rows l.fill

/-- What a document has to do with the forms, the canvas and the background it was made of. -/
structure Depicts (forms : List Form) (canvas background : Value) (d : Document) : Prop where
  canvas : canvasOf canvas = .ok (d.width, d.height)
  background : backgroundOf background = .ok d.background
  /-- The rectangles can be told from the forms, their vertices can be counted by a word, and the
  polygons are theirs, in the same order. -/
  polygons : ∃ reads, Form.inRealsAll forms = .ok reads ∧
    5 * (Form.stacked reads).leaves.length < 2 ^ 31 ∧
    (Form.stacked reads).leaves.mapM (polygonOf d.width d.height) = .ok d.polygons

/-- The polygons of a realised form are those of its rectangles. -/
theorem polygonsOf_eq {form : Form} (hform : form.Real) {m : Mesh} (h : form.realize = .ok m)
    (width height : ℤ) : polygonsOf width height m = form.leaves.mapM (polygonOf width height) := by
  rw [polygonsOf, hform.polygons_eq h, List.mapM_map]
  rfl

/-- Forms have a document exactly if it can be made rectangle by rectangle. -/
theorem render_eq_ok_iff {forms : List Form} {canvas background : Value} {d : Document} :
    render forms canvas background = .ok d ↔ Depicts forms canvas background d := by
  constructor
  · intro h
    obtain ⟨⟨width, height⟩, hcanvas, h⟩ := bind_eq_ok h
    obtain ⟨fill, hfill, h⟩ := bind_eq_ok h
    obtain ⟨meshes, hmeshes, h⟩ := bind_eq_ok h
    obtain ⟨mesh, hmesh, h⟩ := bind_eq_ok h
    obtain ⟨polygons, hpolygons, h⟩ := bind_eq_ok h
    cases h
    obtain ⟨reads, hreads⟩ := Form.exists_inRealsAll forms hmeshes
    obtain ⟨hreal, hsame⟩ := Form.realizeAll_eq_of_inReals forms hreads
    have hrealize : (Form.stacked reads).realize = .ok mesh := by
      rw [Form.realize, hsame, hmeshes, ok_bind, hmesh]
    have hsize := (Form.Real.stacked hreal).pieceSize_lt hrealize
    rw [Form.pieceSize_pieces] at hsize
    rw [polygonsOf_eq (.stacked hreal) hrealize] at hpolygons
    exact ⟨hcanvas, hfill, reads, hreads, hsize, hpolygons⟩
  · rintro ⟨hcanvas, hfill, reads, hreads, hsize, hpolygons⟩
    obtain ⟨hreal, hsame⟩ := Form.realizeAll_eq_of_inReals forms hreads
    rw [← Form.pieceSize_pieces] at hsize
    have hrealize := Form.realize_eq_ofPieces (.stacked hreal) hsize
    obtain ⟨meshes, hmeshes, hmesh⟩ := bind_eq_ok hrealize
    rw [hsame] at hmeshes
    rw [← polygonsOf_eq (.stacked hreal) hrealize] at hpolygons
    rw [render, hcanvas, ok_bind]
    dsimp only
    rw [hfill, ok_bind, hmeshes, ok_bind, hmesh, ok_bind, hpolygons]
    rfl

end Svg
end SeededSketch
