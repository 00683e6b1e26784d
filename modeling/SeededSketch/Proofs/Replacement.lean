import SeededSketch.Proofs.Draws
import SeededSketch.Proofs.Sharing

/-!
# Other expressions in the same places

`Shape.mapPositions` puts other expressions at the positions of a shape and leaves everything else
as it is.  What comes of it depends on the values at the positions alone (`Plain.evaluate_congr`),
so that two such shapes are compared by evaluating two lists of expressions.

The first use is a name that is recorded before the evaluation begins.  `Shape.withValue` puts the
recorded number wherever the name is referred to.  No entry that the memo has at the start is ever
recorded over (`Built.find?_of_evaluate`): an expression records its own name only if it did not
find it, and what its inner expression has recorded meanwhile was missing at the start as well.  So
at every reference the name is still there, and `evaluate_withValue_of_recorded` says that the two
shapes cannot be told apart.
-/

namespace SeededSketch

/-! ## Expressions at the positions of a shape -/

def Paint.mapPositions (f : Expr → Expr) : Paint → Paint
  | hsla hue saturation lightness alpha => hsla (f hue) (f saturation) (f lightness) (f alpha)
  | stray v => stray v

namespace Shape

mutual

/-- The shape with `f e` in the place of every expression `e`. -/
def mapPositions (f : Expr → Expr) : Shape → Shape
  | rectangle width height paint => rectangle (f width) (f height) (paint.mapPositions f)
  | rotate angle child => rotate (f angle) (child.mapPositions f)
  | move dx dy child => move (f dx) (f dy) (child.mapPositions f)
  | group children => group (mapPositionsOfAll f children)
  | stray v => stray v

def mapPositionsOfAll (f : Expr → Expr) : List Shape → List Shape
  | [] => []
  | shape :: rest => shape.mapPositions f :: mapPositionsOfAll f rest

end

variable {f : Expr → Expr}

theorem mapPositionsOfAll_eq_map (shapes : List Shape) :
    mapPositionsOfAll f shapes = shapes.map (mapPositions f) := by
  induction shapes with
  | nil => rfl
  | cons shape rest ih => rw [mapPositionsOfAll, ih, List.map_cons]

mutual

theorem positions_mapPositions : ∀ shape : Shape,
    (shape.mapPositions f).positions = shape.positions.map f
  | .rectangle width height (.hsla ..) => rfl
  | .rectangle width height (.stray v) => rfl
  | .rotate angle child => by
      rw [mapPositions, positions, positions, positions_mapPositions child, List.map_cons]
  | .move dx dy child => by
      rw [mapPositions, positions, positions, positions_mapPositions child, List.map_cons,
        List.map_cons]
  | .group children => by
      rw [mapPositions, positions, positions, positionsOfAll_mapPositions children]
  | .stray v => rfl

theorem positionsOfAll_mapPositions : ∀ shapes : List Shape,
    positionsOfAll (mapPositionsOfAll f shapes) = (positionsOfAll shapes).map f
  | [] => rfl
  | shape :: rest => by
      rw [mapPositionsOfAll, positionsOfAll, positionsOfAll, positions_mapPositions shape,
        positionsOfAll_mapPositions rest, List.map_append]

end

mutual

/-- The values go to the same places, whatever expressions they are the values of. -/
theorem rebuild_mapPositions : ∀ (shape : Shape) (values : List Value),
    (shape.mapPositions f).rebuild values = shape.rebuild values
  | .rectangle width height paint, values => by
      match values with
      | [] | [_] | [_, _] | [_, _, _] | [_, _, _, _] | [_, _, _, _, _] => rfl
      | _ :: _ :: _ :: _ :: _ :: _ :: rest => rfl
  | .rotate angle child, [] => rfl
  | .rotate angle child, a :: values => by
      rw [mapPositions, rebuild, rebuild, rebuild_mapPositions child]
  | .move dx dy child, [] => rfl
  | .move dx dy child, [_] => rfl
  | .move dx dy child, x :: y :: values => by
      rw [mapPositions, rebuild, rebuild, rebuild_mapPositions child]
  | .group children, values => by
      rw [mapPositions, rebuild, rebuild, rebuildAll_mapPositions children]
  | .stray v, values => rfl

theorem rebuildAll_mapPositions : ∀ (shapes : List Shape) (values : List Value),
    rebuildAll (mapPositionsOfAll f shapes) values = rebuildAll shapes values
  | [], values => rfl
  | shape :: rest, values => by
      rw [mapPositionsOfAll, rebuildAll, rebuildAll, rebuild_mapPositions shape]
      refine bind_congr_of_ok rfl fun r _ => ?_
      dsimp only
      rw [rebuildAll_mapPositions rest]

end

/-- Where built expressions are put at the positions, the shape stays a built one. -/
theorem Built.mapPositions (hf : ∀ e : Expr, e.Built → (f e).Built) {shape : Shape}
    (h : shape.Built) : (shape.mapPositions f).Built := by
  induction h with
  | rectangle hw hh hp =>
      obtain ⟨hhue, hs, hl, ha⟩ := hp
      exact .rectangle (hf _ hw) (hf _ hh) (.hsla (hf _ hhue) (hf _ hs) (hf _ hl) (hf _ ha))
  | rotate ha _ ih => exact .rotate (hf _ ha) ih
  | move hx hy _ ih => exact .move (hf _ hx) (hf _ hy) ih
  | group _ ih =>
      rw [Shape.mapPositions, mapPositionsOfAll_eq_map]
      exact .group (List.forall_mem_map.mpr ih)

theorem Plain.evaluate_eq_rebuild {s : Shape} (hs : s.Plain) {c : Context} (hc : c.memo.IsReal) :
    s.evaluate c = (do
      let (values, c₁) ← Expr.inOrder s.positions c
      let (form, _) ← s.rebuild values
      return (form, c₁)) := by
  cases hs.followsPositions hc with
  | fails fault hp hshape => rw [hp, hshape, error_bind]
  | gives values form c₁ _ hp hform hshape =>
      have hrebuild := hform []
      rw [List.append_nil] at hrebuild
      rw [hp, hshape, ok_bind]
      dsimp only
      rw [hrebuild]
      rfl

/-- A form that a shape gives was made of the values at its positions. -/
theorem Plain.values_of_evaluate {s : Shape} (hs : s.Plain) {c c₁ : Context} {form : Form}
    (hc : c.memo.IsReal) (hrun : s.evaluate c = .ok (form, c₁)) :
    ∃ values rest, Expr.inOrder s.positions c = .ok (values, c₁) ∧
      s.rebuild values = .ok (form, rest) := by
  rw [hs.evaluate_eq_rebuild hc] at hrun
  obtain ⟨⟨values, c₂⟩, hvalues, hrun⟩ := bind_eq_ok hrun
  obtain ⟨⟨form', rest⟩, hform, hrun⟩ := bind_eq_ok hrun
  cases hrun
  exact ⟨values, rest, hvalues, hform⟩

theorem Plain.isReal_of_evaluate {s : Shape} (hs : s.Plain) {c c₁ : Context} {form : Form}
    (hc : c.memo.IsReal) (hrun : s.evaluate c = .ok (form, c₁)) : c₁.memo.IsReal := by
  obtain ⟨values, rest, hvalues, -⟩ := hs.values_of_evaluate hc hrun
  exact (Expr.isReal_of_inOrder _ hc hvalues).2

/-- Two shapes that take their values to the same places are evaluated alike where their positions
are. -/
theorem Plain.evaluate_congr {s t : Shape} (hs : s.Plain) (ht : t.Plain)
    (hrebuild : ∀ values, t.rebuild values = s.rebuild values) {c : Context} (hc : c.memo.IsReal)
    (hpositions : Expr.inOrder t.positions c = Expr.inOrder s.positions c) :
    t.evaluate c = s.evaluate c := by
  rw [hs.evaluate_eq_rebuild hc, ht.evaluate_eq_rebuild hc, hpositions]
  simp only [hrebuild]

end Shape

/-! ## What is recorded stays recorded -/

namespace Expr

/-- An entry that is in the memo at the start is there with the same value at the end. -/
theorem Built.find?_of_evaluate {e : Expr} (he : e.Built) {c c₁ : Context} {value found : Value}
    {name : String} (hfound : c.memo.find? name = some found)
    (hrun : e.evaluate c = .ok (value, c₁)) : c₁.memo.find? name = some found := by
  rcases he.find?_eq_or_missing hrun name with hsame | ⟨-, hmissing⟩
  · exact hsame.trans hfound
  · rw [hmissing] at hfound
    cases hfound

theorem find?_of_inOrder {es : List Expr} (hes : ∀ e ∈ es, e.Built) {c c₁ : Context}
    {values : List Value} {found : Value} {name : String}
    (hfound : c.memo.find? name = some found) (hrun : inOrder es c = .ok (values, c₁)) :
    c₁.memo.find? name = some found := by
  induction es generalizing c c₁ values with
  | nil =>
      cases hrun
      exact hfound
  | cons e rest ih =>
      rw [List.forall_mem_cons] at hes
      obtain ⟨value, more, c₂, hvalue, hmore, rfl⟩ := exists_of_inOrder_cons hrun
      exact ih hes.2 (hes.1.find?_of_evaluate hfound hvalue) hmore

/-! ## A number in the place of a name -/

/-- The expression with the number `x` in the place of everything that is named `name`, together
with what is inside it. -/
def withValue (name : String) (x : Float) : Expr → Expr
  | named (.text other) inner =>
    if other = name then ofReal x else named (.text other) (inner.withValue name x)
  | named v inner => named v (inner.withValue name x)
  | calculated inner f => calculated (inner.withValue name x) f
  | combined f left right => combined f (left.withValue name x) (right.withValue name x)
  | e => e

variable {name : String} {x : Float}

theorem Built.withValue {e : Expr} (he : e.Built) : (e.withValue name x).Built := by
  induction he with
  | constant y => exact .constant y
  | random lo hi => exact .random lo hi
  | @named other inner _ ih =>
      rw [Expr.withValue]
      split
      · exact built_ofReal x
      · exact .named other ih
  | calculated f _ ih => exact .calculated f ih
  | combined f _ _ ihl ihr => exact .combined f ihl ihr

theorem Built.not_mem_mentions_withValue {e : Expr} (he : e.Built) :
    name ∉ (e.withValue name x).mentions := by
  induction he with
  | constant | random => exact Finset.notMem_empty name
  | @named other inner _ ih =>
      rw [Expr.withValue]
      split
      · exact Finset.notMem_empty name
      · next hne =>
          rw [mentions, Finset.mem_insert, not_or]
          exact ⟨fun h => hne h.symm, ih⟩
  | calculated f _ ih => exact ih
  | combined f _ _ ihl ihr =>
      rw [Expr.withValue, mentions, Finset.mem_union, not_or]
      exact ⟨ihl, ihr⟩

theorem Built.evaluate_withValue {e : Expr} (he : e.Built) {c : Context}
    (hfound : c.memo.find? name = some (.number (.real x))) :
    (e.withValue name x).evaluate c = e.evaluate c := by
  induction he generalizing c with
  | constant | random => rfl
  | @named other inner _ ih =>
      rw [Expr.withValue]
      split
      · next hname =>
          rw [evaluate_named_found (hname ▸ hfound)]
          rfl
      · rw [evaluate, evaluate, ih hfound]
  | calculated f _ ih => rw [Expr.withValue, evaluate, evaluate, ih hfound]
  | combined f hl _ ihl ihr =>
      rw [Expr.withValue, evaluate, evaluate]
      refine bind_congr_of_ok (ihl hfound) fun r hr => ?_
      dsimp only
      rw [ihr (hl.find?_of_evaluate hfound hr)]

theorem inOrder_withValue {es : List Expr} (hes : ∀ e ∈ es, e.Built) {c : Context}
    (hfound : c.memo.find? name = some (.number (.real x))) :
    inOrder (es.map (withValue name x)) c = inOrder es c := by
  induction es generalizing c with
  | nil => rfl
  | cons e rest ih =>
      rw [List.forall_mem_cons] at hes
      rw [List.map_cons, inOrder, inOrder]
      refine bind_congr_of_ok (hes.1.evaluate_withValue hfound) fun r hr => ?_
      dsimp only
      rw [ih hes.2 (hes.1.find?_of_evaluate hfound hr)]

end Expr

namespace Shape

/-- The shape with the number `x` in the place of everything that is named `name`. -/
def withValue (name : String) (x : Float) : Shape → Shape :=
  mapPositions (Expr.withValue name x)

/-- A recorded name is as good as its number.  Where the memo holds `x` under a name at the start, a
built shape and the one with `x` in the place of the name have the same outcome: form, stream and
memo, or fault.  The name is not in the second shape any more, which is a built one too.  Whatever
the memo holds at the start it still holds at the end, the name and all others; and with functions
that are total on doubles, and a stream that can be drawn from, there is an end. -/
theorem evaluate_withValue_of_recorded (s : Shape) (hs : s.Built) (name : String) (x : Float)
    (c : Context) (hc : c.memo.IsReal) (hname : c.memo.find? name = some (.number (.real x))) :
    (s.withValue name x).evaluate c = s.evaluate c ∧
      ((s.withValue name x).Built ∧ ∀ e ∈ (s.withValue name x).positions, name ∉ e.mentions) ∧
      (∀ form c₁, s.evaluate c = .ok (form, c₁) →
        c₁.memo.find? name = some (.number (.real x)) ∧
          ∀ other found, c.memo.find? other = some found → c₁.memo.find? other = some found) ∧
      (s.Total → c.stream.Ready → ∃ form c₁, s.evaluate c = .ok (form, c₁)) := by
  have hbuilt : (s.withValue name x).Built := hs.mapPositions fun e he => he.withValue
  have hpositions : (s.withValue name x).positions = s.positions.map (Expr.withValue name x) :=
    positions_mapPositions s
  refine ⟨?_, ⟨hbuilt, ?_⟩, ?_, ?_⟩
  · refine hs.plain.evaluate_congr hbuilt.plain (rebuild_mapPositions s) hc ?_
    rw [hpositions]
    exact Expr.inOrder_withValue hs.of_mem_positions hname
  · rw [hpositions, List.forall_mem_map]
    exact fun e he => (hs.of_mem_positions e he).not_mem_mentions_withValue
  · intro form c₁ hrun
    rw [hs.plain.evaluate_eq_rebuild hc] at hrun
    obtain ⟨⟨values, c₂⟩, hvalues, hrun⟩ := bind_eq_ok hrun
    obtain ⟨⟨form', rest⟩, -, hrun⟩ := bind_eq_ok hrun
    cases hrun
    have hkept (other : String) (found : Value) (hother : c.memo.find? other = some found) :
        c₁.memo.find? other = some found :=
      Expr.find?_of_inOrder hs.of_mem_positions hother hvalues
    exact ⟨hkept name _ hname, hkept⟩
  · intro ht hready
    obtain ⟨form, c₁, hrun, -⟩ := (hs.consumes ht hc).completes (.inr hready)
    exact ⟨form, c₁, hrun⟩

/-- The first sketch refers to its place three times.  Here the place is recorded as ten, beside an
entry of another name. -/
theorem evaluate_withValue_of_recorded_demo :
    let c : Context := ⟨.ofSeed 1, ⟨[("y", .number (.real 3.0)), ("x", .number (.real 10.0))]⟩⟩
    Demo.sketch.Built ∧ c.memo.IsReal ∧ c.memo.find? "x" = some (.number (.real 10.0)) ∧
      ∃ form c₁, Demo.sketch.evaluate c = .ok (form, c₁) ∧
        (Demo.sketch.withValue "x" 10.0).evaluate c = .ok (form, c₁) ∧
        c₁.memo.find? "x" = some (.number (.real 10.0)) ∧
        c₁.memo.find? "y" = some (.number (.real 3.0)) := by
  intro c
  have hc : c.memo.IsReal := by
    intro entry hentry
    simp only [c, List.mem_cons, List.not_mem_nil, or_false] at hentry
    rcases hentry with rfl | rfl
    · exact Value.isReal_real 3.0
    · exact Value.isReal_real 10.0
  have hx : c.memo.find? "x" = some (.number (.real 10.0)) := rfl
  obtain ⟨hsame, -, hkept, htotal⟩ :=
    evaluate_withValue_of_recorded Demo.sketch Demo.sketch_built "x" 10.0 c hc hx
  obtain ⟨form, c₁, hrun⟩ := htotal Demo.sketch_total (Stream.ready_next _)
  obtain ⟨hname, hothers⟩ := hkept form c₁ hrun
  exact ⟨Demo.sketch_built, hc, hx, form, c₁, hrun, hsame.trans hrun, hname,
    hothers "y" _ rfl⟩

end Shape
end SeededSketch
