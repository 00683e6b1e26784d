import SeededSketch.Proofs.Drawings
import SeededSketch.Proofs.Precision
import SeededSketch.Proofs.Signs

/-!
# Flatness

Forms are laid out in the plane: each vertex starts with a third coordinate of zero, and a move adds
zero to it.  A turn makes it from all three coordinates, though, the first two multiplied by zero.
That product is zero for a finite coordinate.  For an infinite one it is no number, and neither is
then the third coordinate of the turned vertex, from there on to the root.

So the third coordinates are zero exactly where each turn on the way from a rectangle to the root
finds finite vertices (`TurnsFinite`, `realize_flat_iff`).  Turns by no angle do not count, since
they leave the vertices alone.  A vertex that has left the plane is `Lost`: none of its three
coordinates is finite, so a vertex with a finite place always has the third coordinate zero.
-/

namespace SeededSketch

namespace Double

open Float.Model (UnpackedFloat)
open Float.Model.UnpackedFloat

variable {x y z : Float}

/-! ## Products with zero, and their sums -/

theorem unpack_pack_zero (s : UnpackedFloat.Sign) :
    UnpackedFloat.unpack .binary64 (UnpackedFloat.pack .binary64 (.zero s)) = .zero s := by
  cases s <;> rfl

theorem unpack_pack_notANumber :
    UnpackedFloat.unpack .binary64 (UnpackedFloat.pack .binary64 .notANumber) = .notANumber := rfl

theorem unpack_mul (x y : Float) : UnpackedFloat.unpack .binary64 (x * y).toBits.toBitVec =
    UnpackedFloat.unpack .binary64 (UnpackedFloat.pack .binary64
      (UnpackedFloat.mul .binary64 (UnpackedFloat.unpack .binary64 x.toBits.toBitVec)
        (UnpackedFloat.unpack .binary64 y.toBits.toBitVec))) := rfl

theorem unpack_add (x y : Float) : UnpackedFloat.unpack .binary64 (x + y).toBits.toBitVec =
    UnpackedFloat.unpack .binary64 (UnpackedFloat.pack .binary64
      (UnpackedFloat.add .binary64 (UnpackedFloat.unpack .binary64 x.toBits.toBitVec)
        (UnpackedFloat.unpack .binary64 y.toBits.toBitVec))) := rfl

theorem isFinite_eq (x : Float) :
    x.isFinite = (UnpackedFloat.unpack .binary64 x.toBits.toBitVec).isFinite := rfl

/-- A finite number times zero is a zero of one of the signs. -/
theorem exists_unpack_mul_zero (h : x.isFinite = true) :
    ∃ s, UnpackedFloat.unpack .binary64 (x * 0.0).toBits.toBitVec = .zero s := by
  rw [isFinite_eq] at h
  rw [unpack_mul, unpack_zero]
  cases hx : UnpackedFloat.unpack .binary64 x.toBits.toBitVec with
  | notANumber =>
      rw [hx] at h
      cases h
  | infinity s =>
      rw [hx] at h
      cases h
  | zero s =>
      refine ⟨s * .positive, ?_⟩
      simp only [UnpackedFloat.mul, unpack_pack_zero]
  | finite s m e hm =>
      refine ⟨s * .positive, ?_⟩
      simp only [UnpackedFloat.mul, unpack_pack_zero]

/-- What is not finite, times zero, is no number. -/
theorem unpack_mul_zero (h : x.isFinite = false) :
    UnpackedFloat.unpack .binary64 (x * 0.0).toBits.toBitVec = .notANumber := by
  rw [isFinite_eq] at h
  rw [unpack_mul, unpack_zero]
  cases hx : UnpackedFloat.unpack .binary64 x.toBits.toBitVec with
  | notANumber => simp only [UnpackedFloat.mul, unpack_pack_notANumber]
  | infinity s => simp only [UnpackedFloat.mul, unpack_pack_notANumber]
  | zero s =>
      rw [hx] at h
      cases h
  | finite s m e hm =>
      rw [hx] at h
      cases h

/-- A zero without a minus stays one when a zero of any sign is added. -/
theorem unpack_add_zero {s : UnpackedFloat.Sign}
    (hx : UnpackedFloat.unpack .binary64 x.toBits.toBitVec = .zero .positive)
    (hy : UnpackedFloat.unpack .binary64 y.toBits.toBitVec = .zero s) :
    UnpackedFloat.unpack .binary64 (x + y).toBits.toBitVec = .zero .positive := by
  rw [unpack_add, hx, hy]
  cases s <;> rfl

theorem unpack_add_notANumber
    (h : UnpackedFloat.unpack .binary64 x.toBits.toBitVec = .notANumber ∨
      UnpackedFloat.unpack .binary64 y.toBits.toBitVec = .notANumber) :
    UnpackedFloat.unpack .binary64 (x + y).toBits.toBitVec = .notANumber := by
  rw [unpack_add]
  rcases h with h | h
  · simp only [h, UnpackedFloat.add, unpack_pack_notANumber]
  · rw [h]
    cases UnpackedFloat.unpack .binary64 x.toBits.toBitVec <;>
      simp only [UnpackedFloat.add, unpack_pack_notANumber]

end Double

open Float.Model (UnpackedFloat)
open Double

/-! ## Stored coordinates -/

namespace Single

variable {x : Float}

theorem ofFloat_of_zero (h : UnpackedFloat.unpack .binary64 x.toBits.toBitVec = .zero .positive) :
    ofFloat x = .zero := by
  rw [ofFloat, reading_eq_readingOf, h]
  rfl

theorem ofFloat_of_notANumber
    (h : UnpackedFloat.unpack .binary64 x.toBits.toBitVec = .notANumber) : ofFloat x = .nan := by
  rw [ofFloat, reading_eq_readingOf, h]
  rfl

theorem unpack_toFloat_zero :
    UnpackedFloat.unpack .binary64 zero.toFloat.toBits.toBitVec = .zero .positive := by
  have hzero : zero.toFloat = 0.0 := by
    rw [← Float.toBits_inj]
    decide +kernel
  rw [hzero, unpack_zero]

theorem unpack_toFloat_nan :
    UnpackedFloat.unpack .binary64 nan.toFloat.toBits.toBitVec = .notANumber := by
  rfl

/-- Storing what is not finite does not make it finite. -/
theorem isFinite_of_toFloat_ofFloat (h : (ofFloat x).toFloat.isFinite = true) :
    x.isFinite = true := by
  cases hread : Double.reading x with
  | nan =>
      have hx : ofFloat x = nan := by rw [ofFloat, hread]
      rw [hx] at h
      exact absurd h (by decide +kernel)
  | infinite negative =>
      have hx : ofFloat x = if negative then ⟨0xff800000⟩ else ⟨0x7f800000⟩ := by
        rw [ofFloat, hread]
        rfl
      rw [hx] at h
      cases negative <;> exact absurd h (by decide +kernel)
  | finite negative m e => exact (isFinite_iff x).mpr ⟨_, value?_of_reading hread⟩

end Single

/-! ## Vertices -/

namespace Vertex

variable {v : Vertex} {cosine sine dx dy : Float}

/-- The vertex has a place in the plane. -/
structure Finite (v : Vertex) : Prop where
  x : v.x.toFloat.isFinite = true
  y : v.y.toFloat.isFinite = true

/-- The vertex has left the plane, and no coordinate of it is finite. -/
structure Lost (v : Vertex) : Prop where
  x : v.x.toFloat.isFinite = false
  y : v.y.toFloat.isFinite = false
  z : v.z = .nan

/-- The first two numbers of a finite sum of products are finite. -/
theorem isFinite_of_dot {a₁ b₁ a₂ b₂ a₃ b₃ : Float}
    (h : (dot a₁ b₁ a₂ b₂ a₃ b₃).isFinite = true) :
    a₁.isFinite = true ∧ a₂.isFinite = true := by
  obtain ⟨hsum, -⟩ := isFinite_of_add h
  obtain ⟨hfirst, hsecond⟩ := isFinite_of_add hsum
  obtain ⟨-, hfirst⟩ := isFinite_of_add hfirst
  exact ⟨(isFinite_iff a₁).mpr (exists_value?_of_mul hfirst).1,
    (isFinite_iff a₂).mpr (exists_value?_of_mul hsecond).1⟩

/-- A vertex with a place in the plane is turned within the plane. -/
theorem z_rotate (hz : v.z = .zero) (h : v.Finite) : (v.rotate cosine sine).z = .zero := by
  obtain ⟨s, hx⟩ := exists_unpack_mul_zero h.x
  obtain ⟨t, hy⟩ := exists_unpack_mul_zero h.y
  have hone : Single.zero.toFloat * 1.0 = 0.0 := by
    rw [← Float.toBits_inj]
    decide +kernel
  have hlast : UnpackedFloat.unpack .binary64 (v.z.toFloat * 1.0).toBits.toBitVec =
      .zero .positive := by
    rw [hz, hone, unpack_zero]
  exact Single.ofFloat_of_zero
    (unpack_add_zero (unpack_add_zero (unpack_add_zero unpack_zero hx) hy) hlast)

/-- A vertex without a place in the plane leaves it when it is turned, by whatever angle. -/
theorem rotate_lost (h : ¬v.Finite) : (v.rotate cosine sine).Lost := by
  have hnot {a b : Float} :
      (Single.ofFloat (dot v.x.toFloat a v.y.toFloat b v.z.toFloat 0.0)).toFloat.isFinite = false :=
    Bool.eq_false_iff.mpr fun hfinite =>
      have hplace := isFinite_of_dot (Single.isFinite_of_toFloat_ofFloat hfinite)
      h ⟨hplace.1, hplace.2⟩
  refine ⟨hnot, hnot, Single.ofFloat_of_notANumber (unpack_add_notANumber (.inl ?_))⟩
  cases hx : v.x.toFloat.isFinite with
  | false => exact unpack_add_notANumber (.inl (unpack_add_notANumber (.inr (unpack_mul_zero hx))))
  | true =>
      have hy : v.y.toFloat.isFinite = false := Bool.eq_false_iff.mpr fun hy => h ⟨hx, hy⟩
      exact unpack_add_notANumber (.inr (unpack_mul_zero hy))

theorem z_translate (hz : v.z = .zero) : (v.translate dx dy).z = .zero := by
  rw [translate, hz]
  exact Single.ofFloat_of_zero (unpack_add_zero Single.unpack_toFloat_zero unpack_zero)

theorem Lost.translate (h : v.Lost) : (v.translate dx dy).Lost := by
  have hnot {a b : Float} (ha : a.isFinite = false) :
      (Single.ofFloat (a + b)).toFloat.isFinite = false :=
    Bool.eq_false_iff.mpr fun hfinite => by
      rw [(isFinite_of_add (Single.isFinite_of_toFloat_ofFloat hfinite)).1] at ha
      cases ha
  refine ⟨hnot h.x, hnot h.y, ?_⟩
  show Single.ofFloat (v.z.toFloat + 0.0) = .nan
  rw [h.z]
  exact Single.ofFloat_of_notANumber (unpack_add_notANumber (.inl Single.unpack_toFloat_nan))

end Vertex

/-! ## The way to the root -/

namespace Transform

variable {t : Transform} {v : Vertex}

/-- The transform computes with all three coordinates: it is a turn, and not by no angle. -/
def Turns : Transform → Prop
  | rotation angle => (angle == 0.0) = false
  | translation .. => False

theorem z_apply (hz : v.z = .zero) (h : t.Turns → v.Finite) : (t.apply v).z = .zero := by
  cases t with
  | rotation angle =>
      rw [apply]
      split
      · exact hz
      · exact Vertex.z_rotate hz (h (Bool.eq_false_iff.mpr ‹_›))
  | translation dx dy =>
      rw [apply]
      split
      · exact hz
      · exact Vertex.z_translate hz

theorem apply_lost (hturns : t.Turns) (h : ¬v.Finite) : (t.apply v).Lost := by
  cases t with
  | rotation angle =>
      rw [apply, if_neg (Bool.eq_false_iff.mp hturns)]
      exact Vertex.rotate_lost h
  | translation dx dy => exact hturns.elim

/-- What is lost stays lost. -/
theorem lost_apply (h : v.Lost) : (t.apply v).Lost := by
  cases t with
  | rotation angle =>
      rw [apply]
      split
      · exact h
      · refine Vertex.rotate_lost fun hfinite => ?_
        have hx := h.x
        rw [hfinite.x] at hx
        cases hx
  | translation dx dy =>
      rw [apply]
      split
      · exact h
      · exact h.translate

end Transform

/-- Each turn on the way finds the vertex in the plane. -/
def TurnsFinite : List Transform → Vertex → Prop
  | [], _ => True
  | t :: rest, v => (t.Turns → v.Finite) ∧ TurnsFinite rest (t.apply v)

theorem lost_foldl (path : List Transform) {v : Vertex} (h : v.Lost) :
    (path.foldl (fun v t => t.apply v) v).Lost := by
  induction path generalizing v with
  | nil => exact h
  | cons t rest ih => exact ih (t.lost_apply h)

/-- A vertex of the plane is carried within the plane, or is lost at a turn. -/
theorem z_foldl_or_lost (path : List Transform) {v : Vertex} (hz : v.z = .zero) :
    TurnsFinite path v ∧ (path.foldl (fun v t => t.apply v) v).z = .zero ∨
      ¬TurnsFinite path v ∧ (path.foldl (fun v t => t.apply v) v).Lost := by
  induction path generalizing v with
  | nil => exact .inl ⟨trivial, hz⟩
  | cons t rest ih =>
      by_cases hplace : t.Turns → v.Finite
      · rcases ih (t.z_apply hz hplace) with ⟨hrest, hflat⟩ | ⟨hrest, hlost⟩
        · exact .inl ⟨⟨hplace, hrest⟩, hflat⟩
        · exact .inr ⟨fun h => hrest h.2, hlost⟩
      · obtain ⟨hturns, hnot⟩ := Classical.not_imp.mp hplace
        exact .inr ⟨fun h => hplace h.1, lost_foldl rest (t.apply_lost hturns hnot)⟩

theorem Mesh.z_of_mem_corners {width height : Float} {v : Vertex} (h : v ∈ corners width height) :
    v.z = .zero := by
  simp only [corners, List.mem_cons, List.not_mem_nil, or_false] at h
  rcases h with rfl | rfl | rfl | rfl | rfl <;> rfl

/-! ## Forms -/

namespace Form

theorem Real.vertices_eq {form : Form} (hform : form.Real) {m : Mesh}
    (h : form.realize = .ok m) : m.vertices = form.leaves.flatMap Leaf.rows := by
  rw [hform.eq_ofPieces h]
  exact List.flatMap_map ..

/-- A form of doubles, whatever doubles they are, is realised if a word can count its vertices.  All
its third coordinates are zero exactly where every turn finds the vertices it turns in the plane;
and the vertices that it does not find there are lost. -/
theorem realize_flat_iff {form : Form} (hform : form.Real) :
    (5 * form.leaves.length < 2 ^ 31 → ∃ m, form.realize = .ok m) ∧
    ∀ m, form.realize = .ok m →
      ((∀ v ∈ m.vertices, v.z = .zero) ↔
        ∀ l ∈ form.leaves, ∀ v ∈ Mesh.corners l.width l.height, TurnsFinite l.path v) ∧
      ∀ v ∈ m.vertices, v.z = .zero ∨ v.Lost := by
  constructor
  · intro hsize
    rw [← pieceSize_pieces] at hsize
    exact ⟨_, realize_eq_ofPieces hform hsize⟩
  intro m hm
  have hcarried (l : Leaf) (v : Vertex) (hv : v ∈ Mesh.corners l.width l.height) :=
    z_foldl_or_lost l.path (Mesh.z_of_mem_corners hv)
  simp only [hform.vertices_eq hm, List.mem_flatMap, Leaf.rows, List.mem_map]
  refine ⟨⟨fun h l hl v hv => ?_, ?_⟩, ?_⟩
  · rcases hcarried l v hv with ⟨hturns, -⟩ | ⟨-, hlost⟩
    · exact hturns
    · have hflat : (l.carry v).z = .zero := h _ ⟨l, hl, v, hv, rfl⟩
      have hnan : (l.carry v).z = .nan := hlost.z
      rw [hflat] at hnan
      cases hnan
  · rintro h _ ⟨l, hl, v, hv, rfl⟩
    rcases hcarried l v hv with ⟨-, hflat⟩ | ⟨hnot, -⟩
    · exact hflat
    · exact absurd (h l hl v hv) hnot
  · rintro _ ⟨l, hl, v, hv, rfl⟩
    exact (hcarried l v hv).imp And.right And.right

/-- A turned rectangle, moved infinitely far to the right. -/
def gone : Form :=
  .translated (.number (.real Double.infinity)) (.number (.real 0.0))
    (.rotated (.number (.real 0.5))
      (.rectangle (.number (.real 2.0)) (.number (.real 4.0)) Mesh.red))

/-- No first coordinate of it is finite any more, and yet it has not left the plane. -/
theorem realize_gone_flat :
    gone.Real ∧ ∃ m, gone.realize = .ok m ∧ ∀ v ∈ m.vertices, v.z = .zero := by
  have hreal : gone.Real := .translated _ _ (.rotated _ (.rectangle _ _ _))
  obtain ⟨hrealized, hflat⟩ := realize_flat_iff hreal
  obtain ⟨m, hm⟩ := hrealized (by decide)
  refine ⟨hreal, m, hm, (hflat m hm).1.mpr fun l hl v hv => ?_⟩
  obtain rfl : l = ⟨2.0, 4.0, Mesh.red, [.rotation 0.5, .translation Double.infinity 0.0]⟩ :=
    List.mem_singleton.mp hl
  refine ⟨fun _ => ?_, False.elim, trivial⟩
  simp only [Mesh.corners, List.mem_cons, List.not_mem_nil, or_false] at hv
  rcases hv with rfl | rfl | rfl | rfl | rfl <;>
    exact ⟨by decide +kernel, by decide +kernel⟩

/-- A rectangle of infinite width, turned by one radian. -/
def turnedStrip : Form :=
  .rotated (.number (.real 1.0))
    (.rectangle (.number (.real Double.infinity)) (.number (.real 2.0)) Mesh.red)

/-- All its third coordinates are no numbers. -/
theorem realize_turnedStrip :
    turnedStrip.Real ∧ ∃ m, turnedStrip.realize = .ok m ∧ m.vertices.length = 5 ∧
      ∀ v ∈ m.vertices, v.z = .nan ∧ (v.z.toFloat == 0.0) = false := by
  have hturns : (Transform.rotation 1.0).Turns := by
    show ((1.0 : Float) == 0.0) = false
    decide +kernel
  have hunequal : (Single.nan.toFloat == 0.0) = false := by decide +kernel
  refine ⟨.rotated _ (.rectangle _ _ _), _, Transform.realize_around (.rotation 1.0) rfl, rfl, ?_⟩
  intro v hv
  obtain ⟨corner, hcorner, rfl⟩ := List.mem_map.mp hv
  have hplace : ¬corner.Finite := by
    intro h
    have hx := h.x
    simp only [Mesh.ofRectangle, Mesh.corners, List.mem_cons, List.not_mem_nil, or_false]
      at hcorner
    rcases hcorner with rfl | rfl | rfl | rfl | rfl <;> exact absurd hx (by decide +kernel)
  have hlost := Transform.apply_lost hturns hplace
  rw [hlost.z]
  exact ⟨rfl, hunequal⟩

end Form
end SeededSketch
