import Mathlib.Logic.Equiv.Basic
import SeededSketch.Proofs.Correspondence
import SeededSketch.Proofs.Draws

/-!
# Other names

Names only tell references apart.  Where every name of a shape is given another one, and no two
names the same, nothing that can be seen of the shape changes: not its form, not its draws, and the
memo holds the same numbers in the same order under the new names.

The renaming commutes with looking up and with recording (`Memo.find?_rename`,
`Memo.record_rename`), which makes a context and its renaming correspond.  `evaluate_renamed` draws
the conclusion for shapes.
-/

namespace SeededSketch

variable {r : String → String}

/-! ## Renamed memos -/

namespace Memo

/-- The memo with `r name` in the place of every name. -/
def rename (r : String → String) (memo : Memo) : Memo :=
  ⟨memo.entries.map fun entry => (r entry.1, entry.2)⟩

private theorem lookup_map_rename (hr : Function.Injective r) (entries : List (String × Value))
    (name : String) :
    (entries.map fun entry => (r entry.1, entry.2)).lookup (r name) = entries.lookup name := by
  induction entries with
  | nil => rfl
  | cons entry rest ih =>
      have hsame : (r name == r entry.1) = (name == entry.1) := by
        rw [Bool.eq_iff_iff, beq_iff_eq, beq_iff_eq, hr.eq_iff]
      rw [List.map_cons, List.lookup_cons, List.lookup_cons, hsame, ih]

theorem find?_rename (hr : Function.Injective r) (memo : Memo) (name : String) :
    (memo.rename r).find? (r name) = memo.find? name := by
  unfold find? rename
  rw [lookup_map_rename hr]

private theorem put_map_rename (hr : Function.Injective r) (entries : List (String × Value))
    (name : String) (value : Value) :
    record.put (r name) value (entries.map fun entry => (r entry.1, entry.2)) =
      (record.put name value entries).map fun entry => (r entry.1, entry.2) := by
  induction entries with
  | nil => rfl
  | cons entry rest ih =>
      by_cases h : entry.1 = name
      · simp [record.put, h]
      · have hne : r entry.1 ≠ r name := hr.ne h
        simp [record.put, h, hne, ih]

theorem record_rename (hr : Function.Injective r) (memo : Memo) (name : String) (value : Value) :
    (memo.rename r).record (r name) value = (memo.record name value).rename r := by
  unfold record rename
  rw [put_map_rename hr]

theorem IsReal.rename {memo : Memo} (h : memo.IsReal) : (memo.rename r).IsReal := by
  intro entry hentry
  obtain ⟨old, hold, rfl⟩ := List.mem_map.mp hentry
  exact h old hold

end Memo

/-- The context with its memo renamed. -/
def Context.rename (r : String → String) (c : Context) : Context :=
  { c with memo := c.memo.rename r }

/-- If no two names become the same, contexts correspond to their renamings in every name. -/
theorem follows_rename (hr : Function.Injective r) :
    Follows (fun c c' => c' = c.rename r) r Set.univ where
  stream h := by rw [h]; rfl
  find? h name _ := by rw [h]; exact Memo.find?_rename hr _ name
  withStream h stream := by rw [h]; rfl
  record h name _ x := by
    rw [h, Context.rename, Context.record, Context.record, Memo.record_rename hr]
    rfl

/-! ## Renamed shapes -/

namespace Shape

/-- The shape with `r name` in the place of every name, at any depth. -/
def rename (r : String → String) : Shape → Shape := mapPositions (Expr.rename r)

theorem Built.rename {s : Shape} (hs : s.Built) : (s.rename r).Built :=
  hs.mapPositions fun _ he => he.rename r

theorem Built.mentions_rename_iff {s : Shape} (hs : s.Built) (name : String) :
    (s.rename r).Mentions name ↔ ∃ old, s.Mentions old ∧ r old = name := by
  have hpositions : (s.rename r).positions = s.positions.map (Expr.rename r) :=
    positions_mapPositions s
  unfold Mentions
  rw [hpositions]
  constructor
  · rintro ⟨_, hmem, hname⟩
    obtain ⟨e, he, rfl⟩ := List.mem_map.mp hmem
    rw [(hs.of_mem_positions e he).mentions_rename, Finset.mem_image] at hname
    obtain ⟨old, hold, hname⟩ := hname
    exact ⟨old, ⟨e, he, hold⟩, hname⟩
  · rintro ⟨old, ⟨e, he, hold⟩, hname⟩
    refine ⟨e.rename r, List.mem_map_of_mem he, ?_⟩
    rw [(hs.of_mem_positions e he).mentions_rename, Finset.mem_image]
    exact ⟨old, hold, hname⟩

theorem Built.evaluate_rename (hr : Function.Injective r) {s : Shape} (hs : s.Built)
    {c : Context} (hc : c.memo.IsReal) :
    (s.rename r).evaluate (c.rename r) = (s.evaluate c).map fun result =>
      (result.1, result.2.rename r) := by
  have hpositions : (s.rename r).positions = s.positions.map (Expr.rename r) :=
    positions_mapPositions s
  have hagree := Expr.inOrder_rename (follows_rename hr) hs.of_mem_positions
    (fun _ _ name _ => Set.mem_univ name) (rfl : c.rename r = c.rename r)
  rw [← hpositions] at hagree
  have hshapes := hs.plain.evaluate_agree hs.rename.plain (rebuild_mapPositions s) hc hc.rename hagree
  exact hshapes.eq_map

/-- Names matter only up to equality.  Where a renaming gives no two names the same, the renamed
shape in the renamed context has the form of the shape in the context, the stream after it, and the
memo after it renamed; or the same fault.  The renamed shape is a built one, and its names are those
of the shape renamed.  In a pass, which starts from no names, nothing is left of the renaming. -/
theorem evaluate_renamed (hr : Function.Injective r) (s : Shape) (hs : s.Built) (c : Context)
    (hc : c.memo.IsReal) :
    (s.rename r).evaluate (c.rename r) = ((s.evaluate c).map fun result =>
      (result.1, ⟨result.2.stream, result.2.memo.rename r⟩)) ∧
      ((s.rename r).Built ∧
        ∀ name, (s.rename r).Mentions name ↔ ∃ old, s.Mentions old ∧ r old = name) ∧
      ∀ stream, (s.rename r).pass stream = s.pass stream := by
  refine ⟨hs.evaluate_rename hr hc, ⟨hs.rename, hs.mentions_rename_iff⟩, fun stream => ?_⟩
  have hfresh : (s.rename r).evaluate (.fresh stream) = _ :=
    hs.evaluate_rename hr (c := .fresh stream) Memo.isReal_empty
  rw [pass, pass, hfresh]
  cases s.evaluate (.fresh stream) with
  | error fault => rfl
  | ok result => rfl

/-- The place of the first sketch is called `x`.  Where `x` and `y` change places, the entry that
the memo has for `y` goes to `x`, and the place of the renamed sketch is drawn for `y`. -/
theorem evaluate_renamed_demo :
    let r : String → String := Equiv.swap "x" "y"
    let c : Context := ⟨.ofSeed 1, ⟨[("y", .number (.real 3.0))]⟩⟩
    Function.Injective r ∧ Demo.sketch.Built ∧ c.memo.IsReal ∧
      (c.memo.rename r).find? "x" = some (.number (.real 3.0)) ∧
      (c.memo.rename r).find? "y" = none ∧ (Demo.sketch.rename r).Mentions "y" ∧
      ∃ form c₁, Demo.sketch.evaluate c = .ok (form, c₁) ∧
        (Demo.sketch.rename r).evaluate (c.rename r) =
          .ok (form, ⟨c₁.stream, c₁.memo.rename r⟩) := by
  intro r c
  have hr : Function.Injective r := (Equiv.swap "x" "y").injective
  have hc : c.memo.IsReal := by
    intro entry hentry
    exact ⟨3.0, by rw [List.mem_singleton.mp hentry]⟩
  have hplace : Demo.sketch.Mentions "x" := by
    refine ⟨Demo.place, ?_, ?_⟩
    · simp [Demo.sketch, Demo.bar, positions, positionsOfAll]
    · simp [Demo.place, Expr.mentions, Value.display]
  obtain ⟨hevaluate, ⟨-, hmentions⟩, -⟩ := evaluate_renamed hr Demo.sketch Demo.sketch_built c hc
  obtain ⟨form, c₁, hform, -⟩ :=
    (Demo.sketch_built.consumes Demo.sketch_total hc).completes (.inr (Stream.ready_next _))
  rw [hform] at hevaluate
  exact ⟨hr, Demo.sketch_built, hc, rfl, rfl, (hmentions "y").mpr ⟨"x", hplace, rfl⟩,
    form, c₁, hform, hevaluate⟩

end Shape
end SeededSketch
