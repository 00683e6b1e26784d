import SeededSketch.Proofs.Flatness
import SeededSketch.Proofs.Tiling

/-!
# Shortcuts of turns and moves

A turn by no angle and a move by no distance give the mesh back, and so does every turn or move of a
mesh without vertices.  They could as well compute each vertex and make a new mesh of the outcome,
as other turns and moves do (`Mesh.turned`, `Mesh.moved`).  `Mesh.shortcuts_equal` says that nothing
would be different: the mesh that is computed passes the checks and has the same offsets, the same
fills, and coordinates that equal those that were there.

A coordinate is widened to a double, multiplied by one, and zeros are added to it.  No double is
needed on the way but those of the coordinate and of zero, so nothing is rounded.  What is stored in
the end is the rounding of a number that a coordinate denotes, which is this coordinate again
(`Single.value?_ofFloat`), be it as small as the least one.  Only the sign of a zero can be lost,
which no comparison sees.
-/

namespace SeededSketch

open Double

/-! ## Sums that round nothing -/

namespace Double

variable {v w : ℚ} {s x y : Float}

theorem value?_add_zero (hx : value? x = some v) (hy : value? y = some 0) :
    value? (x + y) = some v := by
  have hround := IsRounding.add hx hy
  rw [add_zero] at hround
  exact hround.exact hx

/-- A product with zero does not change a sum. -/
theorem value?_add_mul_zero (hs : value? s = some v) (hx : value? x = some w)
    (hy : value? y = some 0) : value? (s + x * y) = some v := by
  have hround := IsRounding.mul hx hy
  rw [mul_zero] at hround
  exact value?_add_zero hs (hround.exact value?_zero)

/-- A product with one makes a sum from zero. -/
theorem value?_add_mul_one (hs : value? s = some 0) (hx : value? x = some w)
    (hy : value? y = some 1) : value? (s + x * y) = some w := by
  have hproduct := IsRounding.mul hx hy
  rw [mul_one] at hproduct
  have hround := IsRounding.add hs (hproduct.exact hx)
  rw [zero_add] at hround
  exact hround.exact hx

end Double

/-! ## What a stored number denotes -/

namespace Single

variable {s : Single} {v : ℚ} {x : Float}

/-- The number that a single denotes. -/
def value? (s : Single) : Option ℚ := valueOf s.reading

theorem reading_of_word {negative : Bool} {w : ℕ} (hw : w < Format.binary32.infinity)
    (hbits : s.bits.toNat = Format.binary32.word negative w) : s.reading =
      .finite negative (Format.binary32.mantissa w) (Format.binary32.exponent w) := by
  rw [reading, hbits, Format.read_eq negative hw]

/-- A single that denotes a number has the word of the number's sign and magnitude. -/
theorem exists_word (h : s.value? = some v) :
    ∃ negative w, w < Format.binary32.infinity ∧
      s.bits.toNat = Format.binary32.word negative w ∧
      v = signed negative (Format.binary32.value w) := by
  obtain ⟨_, _, _, hread, -⟩ := finite_of_valueOf h
  obtain ⟨negative, w, hw, hbits⟩ := Format.exists_word_of_read s.bits.toNat_lt hread
  rw [value?, reading_of_word hw hbits] at h
  exact ⟨negative, w, hw, hbits, (Option.some.inj h).symm⟩

/-- A single is widened without rounding. -/
theorem value?_toFloat (h : s.value? = some v) : Double.value? s.toFloat = some v := by
  obtain ⟨negative, w, hw, hbits, rfl⟩ := exists_word h
  have hmantissa := Format.mantissa_lt .binary32 w
  have hlow := Format.lowest_le_exponent .binary32 w
  have hhigh : Format.binary32.exponent w ≤ 104 := Format.exponent_le hw (by decide)
  obtain ⟨y, hy⟩ := exists_value?_of_short
    (hmantissa.trans (show 2 ^ 24 < 2 ^ 53 by decide))
    ((show (-1074 : ℤ) ≤ -149 by decide).trans hlow) (hhigh.trans (by decide))
  have hround := isRounding_ofRatio negative
    (ratioOf (Format.binary32.mantissa w) (Format.binary32.exponent w)).1
    (ratioOf_den_pos (Format.binary32.mantissa w) (Format.binary32.exponent w))
  rw [ratioOf_eq] at hround
  rw [toFloat, reading_of_word hw hbits]
  cases negative with
  | false => exact hround.exact hy
  | true => exact hround.exact (value?_neg hy)

/-- What is finite when it is widened denotes a number. -/
theorem exists_value?_of_isFinite (h : s.toFloat.isFinite = true) : ∃ v, s.value? = some v := by
  rw [toFloat] at h
  rw [value?]
  cases hread : s.reading with
  | nan =>
      rw [hread] at h
      exact absurd h (by decide +kernel)
  | infinite negative =>
      rw [hread] at h
      cases negative <;> exact absurd h (by decide +kernel)
  | finite negative m e => exact ⟨_, rfl⟩

/-- A number that some single denotes is not changed when it is stored. -/
theorem value?_ofFloat (hs : s.value? = some v) (hx : Double.value? x = some v) :
    (ofFloat x).value? = some v := by
  obtain ⟨negative, w, hw, -, rfl⟩ := exists_word hs
  obtain ⟨negative', m, e, hread, hsame⟩ := reading_of_value? hx
  -- Behind either sign the magnitude is that of the single.
  have hvalue : (m : ℚ) * 2 ^ e = Format.binary32.value w := by
    have habs := congrArg abs hsame
    rwa [abs_signed, abs_signed, abs_of_nonneg (units_nonneg m e),
      abs_of_nonneg (Format.value_nonneg _ w), eq_comm] at habs
  have hround : Format.binary32.round (ratioOf m e).1 (ratioOf m e).2 = w :=
    Format.round_value (ratioOf_den_pos m e) hw ((ratioOf_eq m e).trans hvalue)
  have hbits : (ofFloat x).bits.toNat = Format.binary32.word negative' w := by
    rw [ofFloat, hread, toNat_bits_ofRatio, hround]
    rfl
  rw [value?, reading_of_word hw hbits, hsame, hvalue]
  rfl

/-- A single equals what is stored of a double that denotes the same number. -/
theorem beq_toFloat_ofFloat (hs : s.value? = some v) (hx : Double.value? x = some v) :
    (s.toFloat == (ofFloat x).toFloat) = true :=
  beq_of_value? (value?_toFloat hs) (value?_toFloat (value?_ofFloat hs hx))

end Single

/-! ## Vertices -/

namespace Vertex

variable {v : Vertex} {cosine sine dx dy : Float}

/-- The vertices have equal coordinates. -/
structure Equal (v w : Vertex) : Prop where
  x : (v.x.toFloat == w.x.toFloat) = true
  y : (v.y.toFloat == w.y.toFloat) = true
  z : (v.z.toFloat == w.z.toFloat) = true

/-- The vertex has a place in space. -/
structure Placed (v : Vertex) : Prop extends v.Finite where
  z : v.z.toFloat.isFinite = true

/-- A turn whose cosine is one and whose sine is zero does not move a vertex. -/
theorem Placed.equal_rotate (h : v.Placed) (hcosine : value? cosine = some 1)
    (hsine : value? sine = some 0) : v.Equal (v.rotate cosine sine) := by
  obtain ⟨a, ha⟩ := Single.exists_value?_of_isFinite h.x
  obtain ⟨b, hb⟩ := Single.exists_value?_of_isFinite h.y
  obtain ⟨c, hc⟩ := Single.exists_value?_of_isFinite h.z
  have hx := Single.value?_toFloat ha
  have hy := Single.value?_toFloat hb
  have hz := Single.value?_toFloat hc
  have hminus := value?_neg hsine
  rw [neg_zero] at hminus
  constructor
  · refine Single.beq_toFloat_ofFloat ha ?_
    exact value?_add_mul_zero
      (value?_add_mul_zero (value?_add_mul_one value?_zero hx hcosine) hy hminus) hz value?_zero
  · refine Single.beq_toFloat_ofFloat hb ?_
    exact value?_add_mul_zero
      (value?_add_mul_one (value?_add_mul_zero value?_zero hx hsine) hy hcosine) hz value?_zero
  · refine Single.beq_toFloat_ofFloat hc ?_
    exact value?_add_mul_one
      (value?_add_mul_zero (value?_add_mul_zero value?_zero hx value?_zero) hy value?_zero) hz
      value?_one

/-- A move by no distance does not move a vertex. -/
theorem Placed.equal_translate (h : v.Placed) (hdx : value? dx = some 0)
    (hdy : value? dy = some 0) : v.Equal (v.translate dx dy) := by
  obtain ⟨a, ha⟩ := Single.exists_value?_of_isFinite h.x
  obtain ⟨b, hb⟩ := Single.exists_value?_of_isFinite h.y
  obtain ⟨c, hc⟩ := Single.exists_value?_of_isFinite h.z
  constructor
  · exact Single.beq_toFloat_ofFloat ha (value?_add_zero (Single.value?_toFloat ha) hdx)
  · exact Single.beq_toFloat_ofFloat hb (value?_add_zero (Single.value?_toFloat hb) hdy)
  · exact Single.beq_toFloat_ofFloat hc (value?_add_zero (Single.value?_toFloat hc) value?_zero)

end Vertex

/-! ## Meshes -/

namespace Mesh

variable {m : Mesh}

/-- The mesh of the vertices that are made from those of a mesh, with its offsets and fills, if they
fit together. -/
def remade (change : Vertex → Vertex) (m : Mesh) : Except Fault Mesh :=
  make (m.vertices.map change) m.offsets m.fills

/-- The mesh turned, with no regard to what the angle is. -/
def turned (cosine sine : Float) : Mesh → Except Fault Mesh := remade (.rotate cosine sine)

/-- The mesh moved, with no regard to what the distances are. -/
def moved (dx dy : Float) : Mesh → Except Fault Mesh := remade (.translate dx dy)

/-- The meshes have equal vertices in the same order, the same offsets and the same fills. -/
structure Equal (m m' : Mesh) : Prop where
  vertices : List.Forall₂ Vertex.Equal m.vertices m'.vertices
  offsets : m.offsets = m'.offsets
  fills : m.fills = m'.fills

/-- The checks do not look at the coordinates. -/
theorem Checked.remade (h : m.Checked) (change : Vertex → Vertex) :
    m.remade change = .ok { m with vertices := m.vertices.map change } := by
  refine make_eq_ok_iff.mpr ⟨rfl, h.first, ?_, h.steps, h.fills⟩
  rw [List.length_map]
  exact h.last

/-- Vertices that are made anew and equal those that were there make an equal mesh. -/
theorem Checked.equal_remade (h : m.Checked) {change : Vertex → Vertex}
    (hchange : ∀ v ∈ m.vertices, v.Equal (change v)) :
    ∃ m', m.remade change = .ok m' ∧ m.Equal m' := by
  refine ⟨_, h.remade change, ?_, rfl, rfl⟩
  rw [List.forall₂_map_right_iff, List.forall₂_same]
  exact hchange

/-- Without vertices there is nothing to make anew. -/
theorem Checked.remade_of_empty (h : m.Checked) (hempty : m.vertices = [])
    (change : Vertex → Vertex) : m.remade change = .ok m := by
  rw [h.remade, hempty, List.map_nil, ← hempty]

/-! ## The shortcuts -/

theorem rotate_of_zero {angle : Float} (h : (angle == 0.0) = true) : m.rotate angle = m := by
  rw [rotate, h, Bool.or_true, if_pos rfl]

theorem translate_of_zero {dx dy : Float} (hdx : (dx == 0.0) = true) (hdy : (dy == 0.0) = true) :
    m.translate dx dy = m := by
  rw [translate, hdx, hdy, Bool.and_self, Bool.or_true, if_pos rfl]

theorem rotate_of_empty (h : m.vertices = []) (angle : Float) : m.rotate angle = m := by
  rw [rotate, h, List.isEmpty_nil, Bool.true_or, if_pos rfl]

theorem translate_of_empty (h : m.vertices = []) (dx dy : Float) : m.translate dx dy = m := by
  rw [translate, h, List.isEmpty_nil, Bool.true_or, if_pos rfl]

/-- The shortcuts cannot be seen.  Where none is taken, a turn or a move of an accepted mesh is the
mesh that is made anew.  A mesh without vertices is made anew as it is, by whatever angle or
distances.  A mesh whose vertices are all finite is made anew with equal vertices and the same
offsets and fills by a turn whose angle is zero, and by a move whose distances are. -/
theorem shortcuts_equal {vertices : List Vertex} {offsets : List Int32} {fills : List Fill}
    (hm : make vertices offsets fills = .ok m) :
    (m.vertices ≠ [] →
      (∀ angle, (angle == 0.0) = false → m.turned angle.cos angle.sin = .ok (m.rotate angle)) ∧
      ∀ dx dy, (dx == 0.0 && dy == 0.0) = false → m.moved dx dy = .ok (m.translate dx dy)) ∧
    (m.vertices = [] →
      (∀ angle cosine sine, m.rotate angle = m ∧ m.turned cosine sine = .ok m) ∧
      ∀ dx dy, m.translate dx dy = m ∧ m.moved dx dy = .ok m) ∧
    ((∀ v ∈ m.vertices, v.Placed) →
      (∀ angle cosine sine, (angle == 0.0) = true → value? cosine = some 1 →
        value? sine = some 0 →
          m.rotate angle = m ∧ ∃ m', m.turned cosine sine = .ok m' ∧ m.Equal m') ∧
      ∀ dx dy, (dx == 0.0) = true → (dy == 0.0) = true →
        m.translate dx dy = m ∧ ∃ m', m.moved dx dy = .ok m' ∧ m.Equal m') := by
  obtain ⟨-, hchecked⟩ := make_eq_ok_iff.mp hm
  refine ⟨fun hsome => ?_, fun hempty => ?_, fun hplaced => ?_⟩
  · have hnonempty : m.vertices.isEmpty = false := by simpa using hsome
    constructor
    · intro angle hangle
      rw [rotate, hnonempty, hangle, Bool.or_self, if_neg Bool.false_ne_true]
      exact hchecked.remade _
    · intro dx dy hdistance
      rw [translate, hnonempty, hdistance, Bool.or_self, if_neg Bool.false_ne_true]
      exact hchecked.remade _
  · exact ⟨fun angle cosine sine => ⟨rotate_of_empty hempty angle,
        hchecked.remade_of_empty hempty _⟩,
      fun dx dy => ⟨translate_of_empty hempty dx dy, hchecked.remade_of_empty hempty _⟩⟩
  · constructor
    · intro angle cosine sine hangle hcosine hsine
      exact ⟨rotate_of_zero hangle,
        hchecked.equal_remade fun v hv => (hplaced v hv).equal_rotate hcosine hsine⟩
    · intro dx dy hdx hdy
      exact ⟨translate_of_zero hdx hdy, hchecked.equal_remade fun v hv =>
        (hplaced v hv).equal_translate ((beq_zero_iff dx).mp hdx) ((beq_zero_iff dy).mp hdy)⟩

/-- A triangle of a zero with a minus, of the least single and of the greatest. -/
def specks : Mesh :=
  ⟨[⟨⟨0x80000000⟩, ⟨1⟩, .zero⟩, ⟨⟨0x7f7fffff⟩, ⟨0x80000001⟩, .zero⟩, ⟨.zero, ⟨0xff7fffff⟩, .zero⟩],
    [0, 3], [.color ⟨0.0, 1.0, 0.5, 1.0⟩]⟩

/-- A turn by minus zero, and a move by zeros of both signs. -/
theorem shortcuts_equal_specks :
    (make specks.vertices specks.offsets specks.fills = .ok specks ∧
      ((∀ v ∈ specks.vertices, v.Placed) ∧ (-0.0 == (0.0 : Float)) = true) ∧
      (specks.rotate (-0.0) = specks ∧
        ∃ m', specks.turned 1.0 (-0.0) = .ok m' ∧ specks.Equal m') ∧
      (specks.translate 0.0 (-0.0) = specks ∧
        ∃ m', specks.moved 0.0 (-0.0) = .ok m' ∧ specks.Equal m')) ∧
    make [] [0] [] = .ok empty ∧ empty.rotate 0.5 = empty ∧ empty.turned 0.75 0.25 = .ok empty := by
  have hmake : make specks.vertices specks.offsets specks.fills = .ok specks := by rfl
  have hplaced : ∀ v ∈ specks.vertices, v.Placed := by
    simp only [specks, List.forall_mem_cons]
    refine ⟨?_, ?_, ?_, nofun⟩ <;>
      exact ⟨⟨by decide +kernel, by decide +kernel⟩, by decide +kernel⟩
  have hminus : (-0.0 == (0.0 : Float)) = true := by decide +kernel
  have hzero : ((0.0 : Float) == 0.0) = true := by decide +kernel
  have hempty : make [] [0] [] = .ok empty := by rfl
  have hturn := (shortcuts_equal hmake).2.2 hplaced
  exact ⟨⟨hmake, ⟨hplaced, hminus⟩,
    hturn.1 (-0.0) 1.0 (-0.0) hminus value?_one ((beq_zero_iff _).mp hminus),
    hturn.2 0.0 (-0.0) hzero hminus⟩, hempty, (shortcuts_equal hempty).2.1 rfl |>.1 0.5 0.75 0.25⟩

end Mesh
end SeededSketch
