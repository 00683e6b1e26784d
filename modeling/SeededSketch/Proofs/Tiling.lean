import Mathlib
import SeededSketch.Mesh.Grid
import SeededSketch.Proofs.Order

/-!
# Tilings

The offsets of a mesh are there to cut its vertices into stretches, one after the other, each with a
fill of its own.  A mesh is `Tiled` if its offsets ascend from zero to the number of vertices, and
`Mesh.pieces` are the stretches with their fills.

* A tiled mesh is nothing but its pieces: `Mesh.ofPieces` builds it from them, the offsets being the
  running sums of the lengths.  Statements about tiled meshes thereby become statements about lists.
* A mesh that passes the checks of `Mesh.make` need not be tiled.  The checks look at differences of
  32-bit words, and a difference can wrap.  `ofValues_partitioned_iff` says that a mesh that passed
  is tiled exactly if no offset is below zero, and `wrapped_not_partitioned` is a mesh that is not.
-/

namespace SeededSketch

/-! ## Segments -/

theorem segment_of_le {α : Type} (l : List α) {start stop : Int} (hstart : 0 ≤ start)
    (hstop : start ≤ stop) (hlength : stop ≤ l.length) :
    segment start stop l = (l.drop start.toNat).take (stop.toNat - start.toNat) := by
  have hstop₀ : 0 ≤ stop := by omega
  have hmin₁ : min start.toNat l.length = start.toNat := by omega
  have hmin₂ : min stop.toNat l.length = stop.toNat := by omega
  simp only [segment, if_neg (Int.not_lt.mpr hstart), if_neg (Int.not_lt.mpr hstop₀), hmin₁, hmin₂]

theorem length_segment {α : Type} (l : List α) {start stop : Int} (hstart : 0 ≤ start)
    (hstop : start ≤ stop) (hlength : stop ≤ l.length) :
    (segment start stop l).length = stop.toNat - start.toNat := by
  rw [segment_of_le l hstart hstop hlength, List.length_take, List.length_drop]
  omega

namespace Mesh

/-- The segments of a list that lie between the two ends of each span. -/
def cut {α : Type} (spans : List (Int32 × Int32)) (l : List α) : List (List α) :=
  spans.map fun span => segment span.1.toInt span.2.toInt l

/-- The running sums of `lengths`, from `base` on, as words. -/
def sums (base : Nat) (lengths : List Nat) : List Int32 :=
  (lengths.scanl (· + ·) base).map Int32.ofNat

@[simp] theorem sums_nil (base : Nat) : sums base [] = [.ofNat base] := by simp [sums]

@[simp] theorem sums_cons (base n : Nat) (ns : List Nat) :
    sums base (n :: ns) = .ofNat base :: sums (base + n) ns := by simp [sums]

theorem sums_eq_cons (base : Nat) (lengths : List Nat) :
    sums base lengths = .ofNat base :: (sums base lengths).tail := by
  cases lengths <;> simp

/-! ## Ascending offsets -/

/-- Between words that are not below zero no difference wraps. -/
private theorem sub_neg_iff {a b : Int32} (ha : 0 ≤ a.toInt) (hb : 0 ≤ b.toInt) :
    b - a < 0 ↔ b.toInt < a.toInt := by
  have ha' := a.toInt_lt
  have hb' := b.toInt_lt
  have hsub : (b - a).toInt = b.toInt - a.toInt := by
    rw [Int32.toInt_sub]
    exact Int.bmod_eq_of_le (by omega) (by omega)
  rw [Int32.lt_iff_toInt_lt, hsub, Int32.toInt_zero]
  omega

/-- The offsets from `first` on ascend, from zero or more, to `n`. -/
structure Ascend (first : Int32) (rest : List Int32) (n : Nat) : Prop where
  nonneg : 0 ≤ first.toInt
  ascending : (first :: rest).Pairwise (· ≤ ·)
  last : ((first :: rest).getLast (by simp)).toInt = n

namespace Ascend

variable {first next : Int32} {rest : List Int32} {n : Nat}

theorem le_last (h : Ascend first rest n) {o : Int32} (ho : o ∈ first :: rest) : o.toInt ≤ n := by
  have hle := h.ascending.rel_getLast ho
  rw [← h.last]
  exact Int32.le_iff_toInt_le.mp hle

theorem first_le (h : Ascend first rest n) {o : Int32} (ho : o ∈ first :: rest) :
    first.toInt ≤ o.toInt := by
  rcases List.mem_cons.mp ho with rfl | hmem
  · exact Int.le_refl _
  · exact Int32.le_iff_toInt_le.mp (List.rel_of_pairwise_cons h.ascending hmem)

theorem first_le_next (h : Ascend first (next :: rest) n) : first.toInt ≤ next.toInt :=
  h.first_le (by simp)

theorem next_le (h : Ascend first (next :: rest) n) : next.toInt ≤ n :=
  h.le_last (by simp)

theorem cons (hfirst : 0 ≤ first.toInt) (hstep : first.toInt ≤ next.toInt)
    (h : Ascend next rest n) : Ascend first (next :: rest) n where
  nonneg := hfirst
  ascending := by
    refine List.pairwise_cons.mpr ⟨fun o ho => ?_, h.ascending⟩
    have hnext := h.first_le ho
    exact Int32.le_iff_toInt_le.mpr (by omega)
  last := by simpa using h.last

theorem tail (h : Ascend first (next :: rest) n) : Ascend next rest n where
  nonneg := by
    have hfirst := h.nonneg
    have hstep := h.first_le_next
    omega
  ascending := h.ascending.of_cons
  last := by simpa using h.last

/-- Cutting at ascending offsets loses nothing and repeats nothing. -/
theorem flatten_cut {α : Type} (h : Ascend first rest n) (l : List α) (hl : l.length = n) :
    (cut ((first :: rest).zip rest) l).flatten = l.drop first.toInt.toNat := by
  induction rest generalizing first with
  | nil =>
      have hlast : first.toInt = n := h.last
      have hend : l.length ≤ first.toInt.toNat := by omega
      rw [List.drop_eq_nil_of_le hend]
      rfl
  | cons next rest ih =>
      have hstep := h.first_le_next
      have hnext : next.toInt ≤ l.length := hl ▸ h.next_le
      have hfirst := h.nonneg
      have hdrop : l.drop next.toInt.toNat =
          (l.drop first.toInt.toNat).drop (next.toInt.toNat - first.toInt.toNat) := by
        rw [List.drop_drop]
        congr 1
        omega
      have hrest := ih h.tail
      simp only [cut, List.zip_cons_cons, List.map_cons, List.flatten_cons] at hrest ⊢
      rw [hrest, hdrop, segment_of_le l hfirst hstep hnext, List.take_append_drop]

/-- The offsets are the running sums of the lengths of the segments between them. -/
theorem eq_sums {α : Type} (h : Ascend first rest n) (l : List α) (hl : l.length = n) :
    first :: rest =
      sums first.toNatClampNeg ((cut ((first :: rest).zip rest) l).map List.length) := by
  have hword : Int32.ofNat first.toNatClampNeg = first :=
    Int32.ofNat_toNatClampNeg first (Int32.le_iff_toInt_le.mpr h.nonneg)
  induction rest generalizing first with
  | nil => simp [cut, hword]
  | cons next rest ih =>
      have hstep := h.first_le_next
      have hnext : next.toInt ≤ l.length := hl ▸ h.next_le
      have hsum : first.toNatClampNeg + (next.toInt.toNat - first.toInt.toNat) =
          next.toNatClampNeg := by
        have hfirst := h.nonneg
        simp only [Int32.toNatClampNeg]
        omega
      have hrest := ih h.tail
        (Int32.ofNat_toNatClampNeg next (Int32.le_iff_toInt_le.mpr h.tail.nonneg))
      simp only [cut, List.zip_cons_cons, List.map_cons, sums_cons,
        length_segment l h.nonneg hstep hnext, hsum, hword] at hrest ⊢
      rw [← hrest]

/-- Each pair of neighbours lies in order between zero and `n`. -/
theorem spans_le (h : Ascend first rest n) :
    ∀ span ∈ (first :: rest).zip rest,
      0 ≤ span.1.toInt ∧ span.1.toInt ≤ span.2.toInt ∧ span.2.toInt ≤ n := by
  induction rest generalizing first with
  | nil => simp
  | cons next rest ih =>
      rw [List.zip_cons_cons, List.forall_mem_cons]
      exact ⟨⟨h.nonneg, h.first_le_next, h.next_le⟩, ih h.tail⟩

/-- Where no offset is below zero, offsets whose differences are not below zero ascend. -/
theorem of_steps (hnonneg : ∀ o ∈ first :: rest, 0 ≤ o.toInt)
    (hsteps : ∀ span ∈ (first :: rest).zip rest, ¬ span.2 - span.1 < 0)
    (hlast : ((first :: rest).getLast (by simp)).toInt = n) : Ascend first rest n := by
  induction rest generalizing first with
  | nil => exact ⟨hnonneg first (by simp), by simp, hlast⟩
  | cons next rest ih =>
      rw [List.zip_cons_cons, List.forall_mem_cons] at hsteps
      rw [List.forall_mem_cons] at hnonneg
      have hnext : 0 ≤ next.toInt := hnonneg.2 next (by simp)
      have hstep := (sub_neg_iff hnonneg.1 hnext).not.mp hsteps.1
      exact (ih hnonneg.2 hsteps.2 (by simpa using hlast)).cons hnonneg.1 (by omega)

/-- Running sums that stay in the range of words ascend. -/
theorem of_sums (base : Nat) (lengths : List Nat) (h : base + lengths.sum < 2 ^ 31) :
    Ascend (.ofNat base) (sums base lengths).tail (base + lengths.sum) := by
  induction lengths generalizing base with
  | nil =>
      have hbase : (Int32.ofNat base).toInt = base := Int32.toInt_ofNat_of_lt h
      exact ⟨by omega, by simp, hbase⟩
  | cons n ns ih =>
      rw [List.sum_cons] at h ⊢
      have hbase : (Int32.ofNat base).toInt = base := Int32.toInt_ofNat_of_lt (by omega)
      have hnext : (Int32.ofNat (base + n)).toInt = (base + n : Nat) :=
        Int32.toInt_ofNat_of_lt (by omega)
      have hrest := ih (base + n) (by omega)
      rw [Nat.add_assoc] at hrest
      rw [sums_cons, List.tail_cons, sums_eq_cons]
      exact hrest.cons (by omega) (by omega)

end Ascend

/-- Cutting at the running sums of their lengths takes lists that were put in a row apart again. -/
theorem cut_sums {α : Type} (base : Nat) (l : List α) (parts : List (List α))
    (hbase : base ≤ l.length) (hl : l.drop base = parts.flatten) (hsize : l.length < 2 ^ 31) :
    cut ((sums base (parts.map List.length)).zip (sums base (parts.map List.length)).tail) l =
      parts := by
  induction parts generalizing base with
  | nil => rfl
  | cons part rest ih =>
      rw [List.flatten_cons] at hl
      have hlength : l.length - base = part.length + rest.flatten.length := by
        rw [← List.length_drop, hl, List.length_append]
      have hstart : (Int32.ofNat base).toInt = base := Int32.toInt_ofNat_of_lt (by omega)
      have hstop : (Int32.ofNat (base + part.length)).toInt = (base + part.length : Nat) :=
        Int32.toInt_ofNat_of_lt (by omega)
      have hpart : segment (Int32.ofNat base).toInt (Int32.ofNat (base + part.length)).toInt l =
          part := by
        rw [hstart, hstop, segment_of_le l (by omega) (by omega) (by omega), Int.toNat_natCast,
          Int.toNat_natCast, hl, Nat.add_sub_cancel_left, List.take_left]
      have hrest := ih (base + part.length) (by omega)
        (by rw [← List.drop_drop, hl, List.drop_left])
      rw [sums_eq_cons] at hrest
      rw [List.map_cons, sums_cons, List.tail_cons, sums_eq_cons]
      simp only [cut, List.tail_cons, List.zip_cons_cons, List.map_cons, hpart] at hrest ⊢
      rw [hrest]

/-! ## Tiled meshes and their pieces -/

/-- The offsets ascend from zero to the number of vertices, with a fill for each step. -/
structure Tiled (m : Mesh) : Prop where
  first : m.offsets.head? = some 0
  last : m.lastOffset = m.vertices.length
  ascending : m.offsets.Pairwise (· ≤ ·)
  fills : m.fills.length = m.polygonCount

/-- The vertices of each polygon, with its fill. -/
def pieces (m : Mesh) : List (List Vertex × Fill) := (cut m.spans m.vertices).zip m.fills

/-- The mesh of some polygons with their fills. -/
def ofPieces (ps : List (List Vertex × Fill)) : Mesh :=
  ⟨ps.flatMap Prod.fst, sums 0 (ps.map fun p => p.1.length), ps.map Prod.snd⟩

theorem length_spans (m : Mesh) : m.spans.length = m.polygonCount := by
  simp [spans, polygonCount]

theorem length_cut {α : Type} (spans : List (Int32 × Int32)) (l : List α) :
    (cut spans l).length = spans.length := List.length_map ..

namespace Tiled

variable {m : Mesh}

theorem ascend (h : m.Tiled) :
    ∃ rest, m.offsets = 0 :: rest ∧ Ascend 0 rest m.vertices.length := by
  obtain ⟨rest, hrest⟩ := List.head?_eq_some_iff.mp h.first
  refine ⟨rest, hrest, by decide, hrest ▸ h.ascending, ?_⟩
  have hlast := h.last
  rw [lastOffset, hrest, List.getLast?_eq_getLast_of_ne_nil (by simp), Option.getD_some] at hlast
  exact hlast

/-- The stretches between the offsets, one after the other, are the list that was cut. -/
theorem flatten_cut (h : m.Tiled) {α : Type} (l : List α) (hl : l.length = m.vertices.length) :
    (cut m.spans l).flatten = l := by
  obtain ⟨rest, hrest, hascend⟩ := h.ascend
  rw [spans, hrest, List.tail_cons, hascend.flatten_cut l hl]
  rfl

theorem spans_le (h : m.Tiled) {span : Int32 × Int32} (hspan : span ∈ m.spans) :
    0 ≤ span.1.toInt ∧ span.1.toInt ≤ span.2.toInt ∧ span.2.toInt ≤ m.vertices.length := by
  obtain ⟨rest, hrest, hascend⟩ := h.ascend
  rw [spans, hrest, List.tail_cons] at hspan
  exact hascend.spans_le span hspan

theorem within (h : m.Tiled) {o : Int32} (ho : o ∈ m.offsets) :
    0 ≤ o.toInt ∧ o.toInt ≤ m.vertices.length := by
  obtain ⟨rest, hrest, hascend⟩ := h.ascend
  rw [hrest] at ho
  exact ⟨hascend.first_le ho, hascend.le_last ho⟩

theorem map_fst_pieces (h : m.Tiled) : m.pieces.map Prod.fst = cut m.spans m.vertices := by
  refine List.map_fst_zip ?_
  rw [length_cut, length_spans, h.fills]

theorem map_snd_pieces (h : m.Tiled) : m.pieces.map Prod.snd = m.fills := by
  refine List.map_snd_zip ?_
  rw [length_cut, length_spans, h.fills]

/-- The polygons of a tiled mesh are its pieces of three or more vertices. -/
theorem polygons_eq_filter (h : m.Tiled) :
    m.polygons = m.pieces.filter fun p => 3 ≤ p.1.length := by
  have hpieces : m.pieces = (m.spans.zip m.fills).map fun q =>
      (segment q.1.1.toInt q.1.2.toInt m.vertices, q.2) := by
    rw [pieces, cut, List.zip_map_left]
    rfl
  rw [polygons, hpieces, ← List.filterMap_eq_filter, List.filterMap_map]
  refine List.filterMap_congr fun q hmem => ?_
  obtain ⟨span, fill⟩ := q
  obtain ⟨hstart, hstep, hstop⟩ := h.spans_le (List.of_mem_zip hmem).1
  have hlength := length_segment m.vertices hstart hstep hstop
  by_cases hshort : span.2.toInt - span.1.toInt < 3
  · have hfew : ¬ 3 ≤ (segment span.1.toInt span.2.toInt m.vertices).length := by omega
    simp [Option.guard, hshort, hfew]
  · have hmany : 3 ≤ (segment span.1.toInt span.2.toInt m.vertices).length := by omega
    simp [Option.guard, hshort, hmany]

/-- A tiled mesh is the mesh of its pieces. -/
theorem eq_ofPieces (h : m.Tiled) : m = ofPieces m.pieces := by
  obtain ⟨rest, hrest, hascend⟩ := h.ascend
  have hvertices : m.vertices = m.pieces.flatMap Prod.fst := by
    rw [List.flatMap_def, h.map_fst_pieces, h.flatten_cut m.vertices rfl]
  have hoffsets : m.offsets = sums 0 (m.pieces.map fun p => p.1.length) := by
    have hlengths : (m.pieces.map fun p => p.1.length) =
        (cut m.spans m.vertices).map List.length := by
      rw [← h.map_fst_pieces, List.map_map]
      rfl
    rw [hlengths, spans, hrest, List.tail_cons]
    exact hascend.eq_sums m.vertices rfl
  obtain ⟨vertices, offsets, fills⟩ := m
  rw [ofPieces, h.map_snd_pieces, ← hvertices, ← hoffsets]

end Tiled

theorem tiled_ofPieces {ps : List (List Vertex × Fill)}
    (h : (ofPieces ps).vertices.length < 2 ^ 31) : (ofPieces ps).Tiled := by
  have hsum : (ps.map fun p => p.1.length).sum = (ofPieces ps).vertices.length := by
    simp [ofPieces, List.length_flatMap]
  have hascend := Ascend.of_sums 0 (ps.map fun p => p.1.length)
    (by rw [Nat.zero_add, hsum]; exact h)
  rw [Nat.zero_add, hsum] at hascend
  have hoffsets : (ofPieces ps).offsets = 0 :: (sums 0 (ps.map fun p => p.1.length)).tail :=
    sums_eq_cons ..
  constructor
  · rw [hoffsets, List.head?_cons]
  · rw [lastOffset, hoffsets, List.getLast?_eq_getLast_of_ne_nil (by simp), Option.getD_some]
    exact hascend.last
  · rw [hoffsets]
    exact hascend.ascending
  · simp [ofPieces, polygonCount, sums]

theorem pieces_ofPieces {ps : List (List Vertex × Fill)}
    (h : (ofPieces ps).vertices.length < 2 ^ 31) : (ofPieces ps).pieces = ps := by
  have hcut := cut_sums 0 (ofPieces ps).vertices (ps.map Prod.fst) (Nat.zero_le _)
    (List.flatMap_def ..) h
  rw [List.map_map] at hcut
  have hpieces : (ofPieces ps).pieces = (ps.map Prod.fst).zip (ps.map Prod.snd) := by
    rw [← hcut]
    rfl
  rw [hpieces]
  exact (List.zip_of_prod rfl rfl).symm

/-! ## The checks on meshes -/

/-- What `make` finds out about the parts of a mesh. -/
structure Checked (m : Mesh) : Prop where
  first : m.offsets.head? = some 0
  last : m.lastOffset = m.vertices.length
  steps : ∀ span ∈ m.spans, ¬ span.2 - span.1 < 0
  fills : m.fills.length = m.polygonCount

private theorem ite_error_eq_ok {c : Prop} [Decidable c] {fault : Fault} {x : Except Fault Mesh}
    {m : Mesh} : (if c then .error fault else x) = .ok m ↔ ¬ c ∧ x = .ok m := by
  by_cases hc : c <;> simp [hc]

private theorem checked_iff {vertices : List Vertex} {first : Int32} {rest : List Int32}
    {fills : List Fill} : (⟨vertices, first :: rest, fills⟩ : Mesh).Checked ↔
      first = 0 ∧ ((first :: rest).getLast (by simp)).toInt = vertices.length ∧
        (((first :: rest).zip rest).any fun span => span.2 - span.1 < 0) = false ∧
          fills.length = rest.length := by
  have hlast : (⟨vertices, first :: rest, fills⟩ : Mesh).lastOffset =
      ((first :: rest).getLast (by simp)).toInt := by
    rw [lastOffset, List.getLast?_eq_getLast_of_ne_nil (by simp), Option.getD_some]
  constructor
  · intro h
    refine ⟨Option.some.inj h.first, hlast.symm.trans h.last, ?_, h.fills⟩
    rw [List.any_eq_false]
    intro span hspan
    simpa using h.steps span hspan
  · rintro ⟨rfl, hend, hsteps, hfills⟩
    refine ⟨rfl, hlast.trans hend, fun span hspan => ?_, hfills⟩
    rw [List.any_eq_false] at hsteps
    simpa using hsteps span hspan

/-- A mesh is made exactly from parts that pass the checks, and it is these parts. -/
theorem make_eq_ok_iff {vertices : List Vertex} {offsets : List Int32} {fills : List Fill}
    {m : Mesh} :
    make vertices offsets fills = .ok m ↔ m = ⟨vertices, offsets, fills⟩ ∧ m.Checked := by
  cases offsets with
  | nil =>
      constructor
      · intro h
        cases h
      · rintro ⟨rfl, hchecked⟩
        cases hchecked.first
  | cons first rest =>
      have hgetLast : (first :: rest).getLast? = some ((first :: rest).getLast (by simp)) :=
        List.getLast?_eq_getLast_of_ne_nil (by simp)
      have hmake : make vertices (first :: rest) fills = .ok m ↔
          (⟨vertices, first :: rest, fills⟩ : Mesh).Checked ∧
            ⟨vertices, first :: rest, fills⟩ = m := by
        rw [checked_iff]
        simp only [make, List.head?_cons, hgetLast, ite_error_eq_ok, Except.ok.injEq, and_assoc,
          ne_eq, Decidable.not_not, Bool.not_eq_true]
        rfl
      rw [hmake]
      constructor
      · rintro ⟨hchecked, rfl⟩
        exact ⟨rfl, hchecked⟩
      · rintro ⟨rfl, hchecked⟩
        exact ⟨hchecked, rfl⟩

theorem Tiled.checked {m : Mesh} (h : m.Tiled) : m.Checked where
  first := h.first
  last := h.last
  steps span hspan := by
    obtain ⟨hstart, hstep, -⟩ := h.spans_le hspan
    rw [sub_neg_iff hstart (by omega)]
    omega
  fills := h.fills

theorem make_of_tiled {m : Mesh} (h : m.Tiled) : make m.vertices m.offsets m.fills = .ok m :=
  make_eq_ok_iff.mpr ⟨rfl, h.checked⟩

/-- A mesh that passed the checks is tiled exactly if no offset is below zero. -/
theorem Checked.tiled_iff {m : Mesh} (h : m.Checked) :
    m.Tiled ↔ ∀ o ∈ m.offsets, 0 ≤ o.toInt := by
  constructor
  · intro htiled o ho
    exact (htiled.within ho).1
  · intro hnonneg
    obtain ⟨rest, hrest⟩ := List.head?_eq_some_iff.mp h.first
    have hlast := h.last
    have hsteps := h.steps
    rw [lastOffset, hrest, List.getLast?_eq_getLast_of_ne_nil (by simp), Option.getD_some] at hlast
    rw [spans, hrest, List.tail_cons] at hsteps
    rw [hrest] at hnonneg
    have hascend := Ascend.of_steps hnonneg hsteps hlast
    exact ⟨h.first, h.last, hrest ▸ hascend.ascending, h.fills⟩

/-- With up to two polygons there is no room for an offset below zero: the step to it and the step
from it would have to wrap. -/
theorem Checked.nonneg_of_polygonCount_le {m : Mesh} (h : m.Checked) (hcount : m.polygonCount ≤ 2) :
    ∀ o ∈ m.offsets, 0 ≤ o.toInt := by
  obtain ⟨rest, hrest⟩ := List.head?_eq_some_iff.mp h.first
  have hlast := h.last
  have hsteps := h.steps
  rw [polygonCount, hrest, List.length_cons, Nat.add_sub_cancel] at hcount
  rw [spans, hrest, List.tail_cons] at hsteps
  rw [lastOffset, hrest] at hlast
  rw [hrest]
  match rest, hcount with
  | [], _ => simp
  | [stop], _ =>
      simp only [List.getLast?_cons_cons, List.getLast?_singleton, Option.getD_some] at hlast
      simp [hlast]
  | [middle, stop], _ =>
      simp only [List.getLast?_cons_cons, List.getLast?_singleton, Option.getD_some] at hlast
      have hmiddle : ¬ middle - 0 < 0 := hsteps (0, middle) (by simp)
      rw [Int32.sub_zero, Int32.lt_iff_toInt_lt, Int32.toInt_zero] at hmiddle
      simp [hlast, Int.not_lt.mp hmiddle]

/-! ## Meshes from arrays -/

theorem checked_of_ofValues {vertices offsets : Value} {fills : List Fill} {m : Mesh}
    (h : ofValues vertices offsets fills = .ok m) : m.Checked := by
  obtain ⟨vertexGrid, -, h⟩ := bind_eq_ok h
  obtain ⟨offsetGrid, -, h⟩ := bind_eq_ok h
  obtain ⟨vs, -, h⟩ := bind_eq_ok h
  obtain ⟨os, -, h⟩ := bind_eq_ok h
  exact (make_eq_ok_iff.mp h).2

/-- What the offsets of a mesh are for. -/
structure Partitioned (m : Mesh) : Prop where
  tiled : m.Tiled
  within : ∀ o ∈ m.offsets, 0 ≤ o.toInt ∧ o.toInt ≤ m.vertices.length
  /-- Each row has its place in exactly one stretch, in order. -/
  rows : (cut m.spans (List.range m.vertices.length)).flatten = List.range m.vertices.length
  vertices : (cut m.spans m.vertices).flatten = m.vertices

theorem Tiled.partitioned {m : Mesh} (h : m.Tiled) : m.Partitioned where
  tiled := h
  within _ ho := h.within ho
  rows := h.flatten_cut _ List.length_range
  vertices := h.flatten_cut _ rfl

/-- A mesh that was made from arrays has a fill for each pair of neighbouring offsets, and its
offsets begin at zero and end with the number of rows.  They cut the rows into consecutive stretches
exactly if none of them is below zero, as is always the case with up to two polygons. -/
theorem ofValues_partitioned_iff {vertices offsets : Value} {fills : List Fill} {m : Mesh}
    (h : ofValues vertices offsets fills = .ok m) :
    m.offsets.head? = some 0 ∧ m.lastOffset = m.vertices.length ∧
      m.fills.length = m.spans.length ∧
      (m.Partitioned ↔ ∀ o ∈ m.offsets, 0 ≤ o.toInt) ∧
      (m.polygonCount ≤ 2 → m.Partitioned) := by
  have hchecked := checked_of_ofValues h
  have hfills : m.fills.length = m.spans.length := by rw [hchecked.fills, length_spans]
  refine ⟨hchecked.first, hchecked.last, hfills, ⟨?_, ?_⟩, fun hcount => ?_⟩
  · intro hpartitioned o ho
    exact (hpartitioned.within o ho).1
  · intro hnonneg
    exact (hchecked.tiled_iff.mpr hnonneg).partitioned
  · exact (hchecked.tiled_iff.mpr (hchecked.nonneg_of_polygonCount_le hcount)).partitioned

/-- A list of integers as a value. -/
def wholes (ns : List Int) : Value := .list (ns.map fun n => .number (.whole n))

/-- The corners of a square, the first of them again at the end. -/
def squareRows : Value :=
  .list [wholes [0, 0], wholes [1, 0], wholes [1, 1], wholes [0, 1], wholes [0, 0]]

/-- A plain fill. -/
def red : Fill := .color ⟨0.0, 1.0, 0.5, 1.0⟩

/-- Of three polygons, one without rows, the others share the rows of a square. -/
theorem square_partitioned :
    ∃ m, ofValues squareRows (wholes [0, 3, 3, 5]) [red, red, red] = .ok m ∧
      m.polygonCount = 3 ∧ m.Partitioned := by
  have hmade : ∃ m, ofValues squareRows (wholes [0, 3, 3, 5]) [red, red, red] = .ok m ∧
      m.offsets = [0, 3, 3, 5] := ⟨_, rfl, rfl⟩
  obtain ⟨m, hm, hoffsets⟩ := hmade
  obtain ⟨-, -, -, hiff, -⟩ := ofValues_partitioned_iff hm
  refine ⟨m, hm, by simp [polygonCount, hoffsets], hiff.mpr ?_⟩
  rw [hoffsets]
  simp only [List.forall_mem_cons]
  exact ⟨by decide, by decide, by decide, by decide, by simp⟩

/-- Offsets that climb to the greatest word and come back from below zero pass the checks: no step
is a negative word.  The first polygon then takes all five rows, and the last takes two of them
again. -/
theorem wrapped_not_partitioned :
    ∃ m, ofValues squareRows (wholes [0, 2147483647, -2, 5]) [red, red, red] = .ok m ∧
      m.polygons.map (fun polygon => polygon.1.length) = [5, 2] ∧ ¬ m.Partitioned := by
  have hmade : ∃ m, ofValues squareRows (wholes [0, 2147483647, -2, 5]) [red, red, red] =
      .ok m ∧ m.polygons.map (fun polygon => polygon.1.length) = [5, 2] ∧ -2 ∈ m.offsets :=
    ⟨_, rfl, rfl, by decide⟩
  obtain ⟨m, hm, hpolygons, hmem⟩ := hmade
  refine ⟨m, hm, hpolygons, fun hpartitioned => ?_⟩
  have hnonneg := (hpartitioned.within (-2) hmem).1
  exact absurd hnonneg (by decide)

end Mesh
end SeededSketch
