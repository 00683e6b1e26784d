import SeededSketch.Proofs.Tiling

/-!
# Meshes in a row

Putting meshes in a row joins their vertices and their fills, and shifts the offsets of each by the
vertices in front of it, leaving out the zero at which they begin.  With tiled meshes nothing is
lost by that: `concat_ofPieces` says that the meshes of some lists of pieces, put in a row, are the
mesh of the lists put in a row.  Everything else about `Mesh.concat` is then a matter of lists,
among it that brackets and meshes without polygons make no difference.
-/

namespace SeededSketch.Mesh

/-! ## Running sums -/

theorem sums_append (base : Nat) (xs ys : List Nat) :
    sums base (xs ++ ys) = sums base xs ++ (sums (base + xs.sum) ys).tail := by
  induction xs generalizing base with
  | nil =>
      rw [List.nil_append, List.sum_nil, Nat.add_zero, sums_nil, List.singleton_append,
        ← sums_eq_cons]
  | cons x xs ih =>
      rw [List.cons_append, sums_cons, ih, sums_cons, List.cons_append, List.sum_cons,
        Nat.add_assoc]

theorem sums_shift (base shift : Nat) (lengths : List Nat) :
    (sums base lengths).map (· + Int32.ofNat shift) = sums (shift + base) lengths := by
  induction lengths generalizing base with
  | nil => simp [Int32.add_comm]
  | cons n ns ih =>
      rw [sums_cons, List.map_cons, ih, sums_cons, ← Int32.ofNat_add, Nat.add_comm base shift,
        Nat.add_assoc]

/-! ## Pieces in a row -/

@[simp] theorem ofPieces_nil : ofPieces [] = empty := rfl

/-- The number of vertices of some pieces. -/
def pieceSize (ps : List (List Vertex × Fill)) : Nat := (ps.map fun p => p.1.length).sum

@[simp] theorem pieceSize_append (ps qs : List (List Vertex × Fill)) :
    pieceSize (ps ++ qs) = pieceSize ps + pieceSize qs := by
  simp [pieceSize]

theorem pieceSize_le_flatten {pss : List (List (List Vertex × Fill))}
    {ps : List (List Vertex × Fill)} (h : ps ∈ pss) : pieceSize ps ≤ pieceSize pss.flatten := by
  obtain ⟨before, after, rfl⟩ := List.append_of_mem h
  rw [List.flatten_append, List.flatten_cons, pieceSize_append, pieceSize_append]
  omega

@[simp] theorem length_vertices_ofPieces (ps : List (List Vertex × Fill)) :
    (ofPieces ps).vertices.length = pieceSize ps := by
  simp [ofPieces, pieceSize, List.length_flatMap]

theorem flatMap_pieces_ofPieces {pss : List (List (List Vertex × Fill))}
    (h : pieceSize pss.flatten < 2 ^ 31) : (pss.map ofPieces).flatMap pieces = pss.flatten := by
  have hcut (ps : List (List Vertex × Fill)) (hmem : ps ∈ pss) : (ofPieces ps).pieces = ps := by
    apply pieces_ofPieces
    rw [length_vertices_ofPieces]
    exact Nat.lt_of_le_of_lt (pieceSize_le_flatten hmem) h
  rw [List.flatMap_map, List.flatMap_congr hcut, List.flatMap_id']

theorem shiftedOffsets_ofPieces (base : Nat) (pss : List (List (List Vertex × Fill)))
    (hsize : pieceSize pss.flatten < 2 ^ 31) :
    shiftedOffsets base (pss.map ofPieces) =
      (sums base (pss.flatten.map fun p => p.1.length)).tail := by
  induction pss generalizing base with
  | nil => simp [shiftedOffsets]
  | cons ps rest ih =>
      rw [List.flatten_cons, pieceSize_append] at hsize
      have htiled : (ofPieces ps).Tiled :=
        tiled_ofPieces (by rw [length_vertices_ofPieces]; omega)
      have hlast : (ofPieces ps).lastOffset = pieceSize ps := by
        rw [htiled.last, length_vertices_ofPieces]
      have hrest := ih (base + pieceSize ps) (by omega)
      have hshift : (ofPieces ps).offsets.tail.map (· + Int32.ofInt base) =
          (sums base (ps.map fun p => p.1.length)).tail := by
        rw [Int32.ofInt_eq_ofNat, List.map_tail, ofPieces, sums_shift, Nat.add_zero]
      rw [List.map_cons, shiftedOffsets, hlast, ← Int.natCast_add, hrest, hshift, List.flatten_cons,
        List.map_append, sums_append, sums_eq_cons base]
      rfl

/-- The way that `concat` takes for two meshes and more, taken with any number of them. -/
theorem make_row (pss : List (List (List Vertex × Fill)))
    (hsize : pieceSize pss.flatten < 2 ^ 31) :
    make ((pss.map ofPieces).flatMap vertices) (0 :: shiftedOffsets 0 (pss.map ofPieces))
      ((pss.map ofPieces).flatMap fills) = .ok (ofPieces pss.flatten) := by
  have hvertices : (pss.map ofPieces).flatMap vertices = (ofPieces pss.flatten).vertices := by
    simp only [ofPieces, List.flatMap_def, List.map_map, List.map_flatten, List.flatten_flatten]
    rfl
  have hfills : (pss.map ofPieces).flatMap fills = (ofPieces pss.flatten).fills := by
    simp only [ofPieces, List.flatMap_def, List.map_map, List.map_flatten]
    rfl
  have hoffsets : 0 :: shiftedOffsets 0 (pss.map ofPieces) = (ofPieces pss.flatten).offsets := by
    have hshifted := shiftedOffsets_ofPieces 0 pss hsize
    rw [Int.natCast_zero] at hshifted
    rw [hshifted, ofPieces, sums_eq_cons]
    rfl
  rw [hvertices, hfills, hoffsets]
  exact make_of_tiled (tiled_ofPieces (by rwa [length_vertices_ofPieces]))

theorem concat_ofPieces (pss : List (List (List Vertex × Fill)))
    (hsize : pieceSize pss.flatten < 2 ^ 31) :
    concat (pss.map ofPieces) = .ok (ofPieces pss.flatten) := by
  match pss with
  | [] => rfl
  | [ps] => simp [concat]
  | ps :: qs :: rest => exact make_row (ps :: qs :: rest) hsize

/-! ## Tiled meshes in a row -/

theorem tiled_empty : empty.Tiled := ⟨rfl, rfl, by simp [empty], rfl⟩

theorem map_ofPieces_pieces {ms : List Mesh} (htiled : ∀ m ∈ ms, m.Tiled) :
    (ms.map pieces).map ofPieces = ms := by
  induction ms with
  | nil => rfl
  | cons m rest ih =>
      rw [List.forall_mem_cons] at htiled
      rw [List.map_cons, List.map_cons, ih htiled.2, ← htiled.1.eq_ofPieces]

theorem pieceSize_pieces {ms : List Mesh} (htiled : ∀ m ∈ ms, m.Tiled) :
    pieceSize (ms.flatMap pieces) = (ms.map fun m => m.vertices.length).sum := by
  induction ms with
  | nil => rfl
  | cons m rest ih =>
      rw [List.forall_mem_cons] at htiled
      have hsize : pieceSize m.pieces = m.vertices.length := by
        rw [← length_vertices_ofPieces, ← htiled.1.eq_ofPieces]
      rw [List.flatMap_cons, pieceSize_append, ih htiled.2, hsize, List.map_cons, List.sum_cons]

theorem concat_eq_ofPieces {ms : List Mesh} (htiled : ∀ m ∈ ms, m.Tiled)
    (hsize : pieceSize (ms.flatMap pieces) < 2 ^ 31) :
    concat ms = .ok (ofPieces (ms.flatMap pieces)) := by
  have hconcat := concat_ofPieces (ms.map pieces) hsize
  rwa [map_ofPieces_pieces htiled] at hconcat

/-- Putting lists of meshes in a row, and then the outcomes, is putting all the meshes in a row. -/
theorem concat_groups {groups : List (List Mesh)} (htiled : ∀ m ∈ groups.flatten, m.Tiled)
    (hsize : pieceSize (groups.flatten.flatMap pieces) < 2 ^ 31) :
    (groups.mapM concat >>= concat) = .ok (ofPieces (groups.flatten.flatMap pieces)) := by
  have hgroups : groups.mapM concat =
      .ok ((groups.map (List.flatMap pieces)).map ofPieces) := by
    induction groups with
    | nil => rfl
    | cons ms rest ih =>
        rw [List.flatten_cons, List.forall_mem_append] at htiled
        rw [List.flatten_cons, List.flatMap_append, pieceSize_append] at hsize
        rw [List.mapM_cons, concat_eq_ofPieces htiled.1 (by omega), ih htiled.2 (by omega)]
        rfl
  have hflatten : (groups.map (List.flatMap pieces)).flatten = groups.flatten.flatMap pieces := by
    rw [List.flatMap_def, List.map_flatten, List.flatten_flatten, List.map_map]
    rfl
  rw [hgroups, ok_bind, concat_ofPieces _ (by rwa [hflatten]), hflatten]

theorem polygons_of_pieces {m : Mesh} (h : m.Tiled) {ms : List Mesh} (htiled : ∀ m ∈ ms, m.Tiled)
    (hpieces : m.pieces = ms.flatMap pieces) : m.polygons = ms.flatMap polygons := by
  rw [h.polygons_eq_filter, hpieces, List.filter_flatMap]
  exact List.flatMap_congr fun m' hm' => (htiled m' hm').polygons_eq_filter.symm

/-- Tiled meshes whose vertices can be counted by words can be put in a row, and the outcome has
their pieces, and so their polygons, one after the other.  It is the same for none, for one and for
several meshes; brackets do not change it, and neither do meshes without polygons in between. -/
theorem concat_tiled (ms : List Mesh) (htiled : ∀ m ∈ ms, m.Tiled)
    (hsize : (ms.map fun m => m.vertices.length).sum < 2 ^ 31) :
    ∃ m, concat ms = .ok m ∧ m.Tiled ∧
      m.pieces = ms.flatMap pieces ∧
      m.vertices = ms.flatMap vertices ∧ m.fills = ms.flatMap fills ∧
      m.polygons = ms.flatMap polygons ∧
      (m.polygons = m.pieces.filter fun p => 3 ≤ p.1.length) ∧
      make (ms.flatMap vertices) (0 :: shiftedOffsets 0 ms) (ms.flatMap fills) = .ok m ∧
      (∀ groups : List (List Mesh), groups.flatten = ms →
        (groups.mapM concat >>= concat) = .ok m) ∧
      ∀ before after, before ++ after = ms → concat (before ++ empty :: after) = .ok m := by
  have hpieces : pieceSize (ms.flatMap pieces) < 2 ^ 31 := by
    rw [pieceSize_pieces htiled]
    exact hsize
  have hlength : (ofPieces (ms.flatMap pieces)).vertices.length < 2 ^ 31 := by
    rwa [length_vertices_ofPieces]
  have hrow : (ofPieces (ms.flatMap pieces)).Tiled := tiled_ofPieces hlength
  have hcut : (ofPieces (ms.flatMap pieces)).pieces = ms.flatMap pieces := pieces_ofPieces hlength
  have hmake := make_row (ms.map pieces) hpieces
  rw [map_ofPieces_pieces htiled] at hmake
  have hparts := (make_eq_ok_iff.mp hmake).1
  refine ⟨ofPieces (ms.flatMap pieces), concat_eq_ofPieces htiled hpieces, hrow, hcut,
    congrArg vertices hparts, congrArg fills hparts, polygons_of_pieces hrow htiled hcut,
    hrow.polygons_eq_filter, hmake, ?_, ?_⟩
  · rintro groups rfl
    exact concat_groups htiled hpieces
  · rintro before after rfl
    have hinserted : (before ++ empty :: after).flatMap pieces =
        (before ++ after).flatMap pieces := by
      rw [List.flatMap_append, List.flatMap_append, List.flatMap_cons]
      rfl
    rw [← hinserted]
    refine concat_eq_ofPieces (fun m hm => ?_) (by rwa [hinserted])
    rcases List.mem_append.mp hm with hbefore | hafter
    · exact htiled m (List.mem_append_left _ hbefore)
    · rcases List.mem_cons.mp hafter with rfl | hmem
      · exact tiled_empty
      · exact htiled m (List.mem_append_right _ hmem)

/-- A mesh without polygons, a polygon without vertices, and a mesh of three polygons of which the
second has no vertices and the third only one. -/
theorem concat_hollow :
    let v : Vertex := ⟨.zero, .zero, .zero⟩
    let hollow : Mesh := ⟨[], [0, 0], [red]⟩
    let mixed : Mesh := ⟨[v, v, v, v], [0, 3, 3, 4], [red, red, red]⟩
    let ms := [empty, hollow, mixed]
    (∀ m ∈ ms, m.Tiled) ∧ ∃ m, concat ms = .ok m ∧
      m.pieces.map (fun p => p.1.length) = [0, 3, 0, 1] ∧
      m.polygons.map (fun p => p.1.length) = [3] ∧
      (concat [hollow, mixed] >>= fun m' => concat [empty, m']) = .ok m := by
  intro v hollow mixed ms
  have hhollow : hollow.Tiled := ⟨rfl, rfl, by decide, rfl⟩
  have hmixed : mixed.Tiled := ⟨rfl, rfl, by decide, rfl⟩
  have htiled : ∀ m ∈ ms, m.Tiled := by
    simp only [ms, List.forall_mem_cons]
    exact ⟨tiled_empty, hhollow, hmixed, by simp⟩
  obtain ⟨m, hm, -, hpieces, -, -, hpolygons, -, -, hgroups, -⟩ :=
    concat_tiled ms htiled (by decide)
  refine ⟨htiled, m, hm, ?_, ?_, ?_⟩
  · rw [hpieces]
    rfl
  · rw [hpolygons]
    rfl
  · have hone : concat [empty] = .ok empty := rfl
    have hgrouped := hgroups [[empty], [hollow, mixed]] rfl
    rw [List.mapM_cons, List.mapM_cons, List.mapM_nil, hone] at hgrouped
    simpa only [ok_bind, bind_assoc, pure_bind] using hgrouped

end SeededSketch.Mesh
