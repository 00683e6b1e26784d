import SeededSketch.Demo
import SeededSketch.Proofs.Order

/-!
# What the builders build

The constructors of expressions, paints and shapes hold whatever they are given.  The builders
convert and check, and `Built` says what comes out: numbers are doubles, names are texts, and no
plain value is left where an expression, a paint or a shape belongs.

`Supplied` is the other side: plain values, and everything that the builders and the signs make of
what is supplied already.  `Expr.built_iff`, `Paint.built_iff` and `Shape.built_iff` show that the
two describe the same sketches, so a statement about all built sketches is one about all that can
be put together with the builders.
-/

namespace SeededSketch

/-! ## Expressions -/

/-- The function has an outcome for every double. -/
def Unary.IsTotal (f : Unary) : Prop := ∀ x, ∃ y, f.onReal x = .ok y

/-- The function has an outcome for every two doubles. -/
def Binary.IsTotal (f : Binary) : Prop := ∀ x y, ∃ z, f.onReals x y = .ok z

/-- The functions of the table never fail on a double. -/
theorem Unary.isTotal_of_mem_all {f : Unary} (h : f ∈ all) : f.IsTotal := by
  simp only [all, List.mem_cons, List.not_mem_nil, or_false] at h
  rcases h with rfl | rfl | rfl | rfl | rfl | rfl | rfl | rfl | rfl <;> exact fun x => ⟨_, rfl⟩

theorem Binary.isTotal_of_mem_all {f : Binary} (h : f ∈ all) : f.IsTotal := by
  simp only [all, List.mem_cons, List.not_mem_nil, or_false] at h
  rcases h with rfl | rfl | rfl | rfl | rfl | rfl | rfl | rfl | rfl | rfl | rfl <;>
    exact fun x y => ⟨_, rfl⟩

theorem Value.isWritable_text (s : String) : (Value.text s).isWritable = true := by
  simp [Value.isWritable]

namespace Expr

/-- The expressions that the builders build. -/
inductive Built : Expr → Prop
  | constant (x : Float) : Built (.constant (.number (.real x)))
  | random (lo hi : Float) : Built (.random (.number (.real lo)) (.number (.real hi)))
  | named (name : String) {inner : Expr} (h : inner.Built) : Built (.named (.text name) inner)
  | calculated {inner : Expr} (f : Unary) (h : inner.Built) : Built (.calculated inner f)
  | combined (f : Binary) {left right : Expr} (hl : left.Built) (hr : right.Built) :
      Built (.combined f left right)

/-- Every function in the expression is total on doubles. -/
def Total : Expr → Prop
  | named _ inner => inner.Total
  | calculated inner f => inner.Total ∧ f.IsTotal
  | combined f left right => left.Total ∧ right.Total ∧ f.IsTotal
  | _ => True

/-- What can stand for an expression where a sketch is written: a plain value, or what the builders
and the signs make of what is supplied already. -/
inductive Supplied : Expr → Prop
  | plain (v : Value) : Supplied (.stray v)
  | fixed {v : Value} {e : Expr} (h : Expr.fixed v = .ok e) : Supplied e
  | uniform {lo hi : Value} {e : Expr} (h : Expr.uniform lo hi = .ok e) : Supplied e
  | share {name : Value} {a e : Expr} (ha : a.Supplied) (h : a.share name = .ok e) : Supplied e
  | derive {a e : Expr} {f : Unary} (ha : a.Supplied) (h : a.derive f = .ok e) : Supplied e
  | combine {f : Binary} {a b e : Expr} (ha : a.Supplied) (hb : b.Supplied)
      (h : combine f a b = .ok e) : Supplied e
  | operate {sign : Sign} {a b e : Expr} (ha : a.Supplied) (hb : b.Supplied)
      (h : operate sign a b = .ok e) : Supplied e
  | negate {a e : Expr} (ha : a.Supplied) (h : a.negate = .ok e) : Supplied e

/-- What a builder takes: an expression that is built, or a plain value. -/
def Accepted (e : Expr) : Prop := e.Built ∨ ∃ v, e = .stray v

theorem built_ofReal (x : Float) : (ofReal x).Built := .constant x

theorem Built.lift {e : Expr} (h : e.Built) : e.lift = .ok e := by
  cases h <;> rfl

/-- Lifting leaves an expression as it is and makes a fixed one of a number; nothing else passes. -/
theorem built_of_lift {a e : Expr} (ha : a.Accepted) (h : a.lift = .ok e) : e.Built := by
  rcases ha with hb | ⟨v, rfl⟩
  · rw [hb.lift] at h
    cases h
    exact hb
  · cases v with
    | number n =>
        obtain ⟨x, -, hx⟩ := bind_eq_ok h
        cases hx
        exact built_ofReal x
    | _ => cases h

theorem built_of_operand {a e : Expr} (ha : a.Accepted) (h : a.operand? = some (.ok e)) :
    e.Built := by
  rcases ha with hb | ⟨v, rfl⟩
  · have hsome : a.operand? = some (.ok a) := by cases hb <;> rfl
    rw [hsome] at h
    cases h
    exact hb
  · cases v with
    | number n =>
        simp only [operand?, Option.some.injEq] at h
        exact built_of_lift (Or.inr ⟨.number n, rfl⟩) h
    | _ => cases h

private theorem built_of_operate {sign : Sign} {a b e : Expr} (ha : a.Accepted) (hb : b.Accepted)
    (h : operate sign a b = .ok e) : e.Built := by
  unfold operate at h
  split at h
  · next left right hleft hright =>
      obtain ⟨l, hl, h⟩ := bind_eq_ok h
      obtain ⟨r, hr, h⟩ := bind_eq_ok h
      subst hl hr
      cases h
      exact .combined _ (built_of_operand ha hleft) (built_of_operand hb hright)
  · cases h

private theorem accepted_of_negate {a e : Expr} (ha : a.Accepted) (h : a.negate = .ok e) :
    e.Accepted := by
  rcases ha with hb | ⟨v, rfl⟩
  · have hneg : a.negate = .ok (.calculated a .neg) := by cases hb <;> rfl
    rw [hneg] at h
    cases h
    exact Or.inl (.calculated _ hb)
  · cases v with
    | number n =>
        cases h
        exact Or.inr ⟨_, rfl⟩
    | bool b =>
        cases h
        exact Or.inr ⟨_, rfl⟩
    | _ => cases h

theorem Supplied.accepted {e : Expr} (h : e.Supplied) : e.Accepted := by
  induction h with
  | plain v => exact Or.inr ⟨v, rfl⟩
  | fixed h =>
      obtain ⟨x, -, hx⟩ := bind_eq_ok h
      cases hx
      exact Or.inl (built_ofReal x)
  | uniform h =>
      obtain ⟨lo, -, h⟩ := bind_eq_ok h
      obtain ⟨hi, -, h⟩ := bind_eq_ok h
      cases h
      exact Or.inl (.random lo hi)
  | share _ h ih =>
      rw [Expr.share] at h
      split at h
      · obtain ⟨inner, hinner, h⟩ := bind_eq_ok h
        cases h
        exact Or.inl (.named _ (built_of_lift ih hinner))
      · cases h
  | derive _ h ih =>
      obtain ⟨inner, hinner, h⟩ := bind_eq_ok h
      cases h
      exact Or.inl (.calculated _ (built_of_lift ih hinner))
  | combine _ _ h iha ihb =>
      obtain ⟨left, hleft, h⟩ := bind_eq_ok h
      obtain ⟨right, hright, h⟩ := bind_eq_ok h
      cases h
      exact Or.inl (.combined _ (built_of_lift iha hleft) (built_of_lift ihb hright))
  | operate _ _ h iha ihb => exact Or.inl (built_of_operate iha ihb h)
  | negate _ h ih => exact accepted_of_negate ih h

theorem Built.supplied {e : Expr} (h : e.Built) : e.Supplied := by
  induction h with
  | constant x => exact @Supplied.fixed (.number (.real x)) _ rfl
  | random lo hi => exact @Supplied.uniform (.number (.real lo)) (.number (.real hi)) _ rfl
  | named name h ih =>
      refine @Supplied.share (.text name) _ _ ih ?_
      rw [Expr.share, if_pos (Value.isWritable_text name), h.lift]
      rfl
  | calculated f h ih =>
      refine @Supplied.derive _ _ f ih ?_
      simp only [Expr.derive, h.lift, ok_bind, pure_eq_ok]
  | combined f hl hr ihl ihr =>
      refine @Supplied.combine f _ _ _ ihl ihr ?_
      simp only [Expr.combine, hl.lift, hr.lift, ok_bind, pure_eq_ok]

theorem Built.not_stray {e : Expr} (h : e.Built) (v : Value) : e ≠ .stray v := by
  cases h <;> exact Expr.noConfusion

/-- The built expressions are those among the supplied that are no plain values. -/
theorem built_iff (e : Expr) : e.Built ↔ e.Supplied ∧ ∀ v, e ≠ .stray v := by
  constructor
  · exact fun h => ⟨h.supplied, h.not_stray⟩
  · rintro ⟨h, hno⟩
    exact h.accepted.resolve_right fun ⟨v, hv⟩ => hno v hv

end Expr

/-! ## Paints -/

namespace Paint

/-- The paints that the builder builds. -/
inductive Built : Paint → Prop
  | hsla {hue saturation lightness alpha : Expr} (hh : hue.Built) (hs : saturation.Built)
      (hl : lightness.Built) (ha : alpha.Built) : Built (.hsla hue saturation lightness alpha)

/-- What can stand for a paint where a sketch is written. -/
inductive Supplied : Paint → Prop
  | plain (v : Value) : Supplied (.stray v)
  | build {hue saturation lightness alpha : Expr} {p : Paint} (hh : hue.Supplied)
      (hs : saturation.Supplied) (hl : lightness.Supplied) (ha : alpha.Supplied)
      (h : Paint.build hue saturation lightness alpha = .ok p) : Supplied p

theorem Supplied.built_or_stray {p : Paint} (h : p.Supplied) : p.Built ∨ ∃ v, p = .stray v := by
  cases h with
  | plain v => exact Or.inr ⟨v, rfl⟩
  | build hh hs hl ha h =>
      obtain ⟨hue, hhue, h⟩ := bind_eq_ok h
      obtain ⟨saturation, hsaturation, h⟩ := bind_eq_ok h
      obtain ⟨lightness, hlightness, h⟩ := bind_eq_ok h
      obtain ⟨alpha, halpha, h⟩ := bind_eq_ok h
      cases h
      exact Or.inl (.hsla (Expr.built_of_lift hh.accepted hhue)
        (Expr.built_of_lift hs.accepted hsaturation) (Expr.built_of_lift hl.accepted hlightness)
        (Expr.built_of_lift ha.accepted halpha))

theorem Built.supplied {p : Paint} (h : p.Built) : p.Supplied := by
  obtain ⟨hh, hs, hl, ha⟩ := h
  refine .build hh.supplied hs.supplied hl.supplied ha.supplied ?_
  simp only [Paint.build, hh.lift, hs.lift, hl.lift, ha.lift, ok_bind, pure_eq_ok]

/-- The built paints are those among the supplied that are no plain values. -/
theorem built_iff (p : Paint) : p.Built ↔ p.Supplied ∧ ∀ v, p ≠ .stray v := by
  constructor
  · intro h
    exact ⟨h.supplied, fun v => by cases h; exact Paint.noConfusion⟩
  · rintro ⟨h, hno⟩
    exact h.built_or_stray.resolve_right fun ⟨v, hv⟩ => hno v hv

end Paint

/-! ## Shapes -/

namespace Shape

/-- The shapes that the builders build. -/
inductive Built : Shape → Prop
  | rectangle {width height : Expr} {paint : Paint} (hw : width.Built) (hh : height.Built)
      (hp : paint.Built) : Built (.rectangle width height paint)
  | rotate {angle : Expr} {child : Shape} (ha : angle.Built) (hc : child.Built) :
      Built (.rotate angle child)
  | move {dx dy : Expr} {child : Shape} (hx : dx.Built) (hy : dy.Built) (hc : child.Built) :
      Built (.move dx dy child)
  | group {children : List Shape} (h : ∀ s ∈ children, s.Built) : Built (.group children)

/-- What can stand for a shape where a sketch is written. -/
inductive Supplied : Shape → Prop
  | plain (v : Value) : Supplied (.stray v)
  | rectangle {width height : Expr} {paint : Paint} {s : Shape} (hw : width.Supplied)
      (hh : height.Supplied) (hp : paint.Supplied)
      (h : buildRectangle width height paint = .ok s) : Supplied s
  | rotate {angle : Expr} {child s : Shape} (ha : angle.Supplied) (hc : child.Supplied)
      (h : buildRotate angle child = .ok s) : Supplied s
  | move {dx dy : Expr} {child s : Shape} (hx : dx.Supplied) (hy : dy.Supplied)
      (hc : child.Supplied) (h : buildMove dx dy child = .ok s) : Supplied s
  | group {children : List Shape} {s : Shape} (hcs : ∀ t ∈ children, t.Supplied)
      (h : buildGroup children = .ok s) : Supplied s

theorem Built.require {s : Shape} (h : s.Built) : s.require = .ok s := by
  cases h <;> rfl

theorem built_of_require {s t : Shape} (hs : s.Built ∨ ∃ v, s = .stray v)
    (h : s.require = .ok t) : t.Built := by
  rcases hs with hb | ⟨v, rfl⟩
  · rw [hb.require] at h
    cases h
    exact hb
  · cases h

private theorem built_of_mapM_require {children shapes : List Shape}
    (hcs : ∀ t ∈ children, t.Built ∨ ∃ v, t = .stray v)
    (h : children.mapM require = .ok shapes) : ∀ t ∈ shapes, t.Built := by
  induction children generalizing shapes with
  | nil =>
      cases h
      simp
  | cons s rest ih =>
      rw [List.mapM_cons] at h
      rw [List.forall_mem_cons] at hcs
      obtain ⟨t, ht, h⟩ := bind_eq_ok h
      obtain ⟨ts, hts, h⟩ := bind_eq_ok h
      cases h
      exact List.forall_mem_cons.mpr ⟨built_of_require hcs.1 ht, ih hcs.2 hts⟩

theorem Supplied.built_or_stray {s : Shape} (h : s.Supplied) : s.Built ∨ ∃ v, s = .stray v := by
  induction h with
  | plain v => exact Or.inr ⟨v, rfl⟩
  | @rectangle width height paint s hw hh hp h =>
      rcases hp.built_or_stray with hb | ⟨v, rfl⟩
      · cases hb with
        | hsla =>
            obtain ⟨w, hw', h⟩ := bind_eq_ok h
            obtain ⟨h', hh', h⟩ := bind_eq_ok h
            cases h
            exact Or.inl (.rectangle (Expr.built_of_lift hw.accepted hw')
              (Expr.built_of_lift hh.accepted hh') (.hsla ‹_› ‹_› ‹_› ‹_›))
      · cases h
  | rotate ha _ h ih =>
      obtain ⟨a, ha', h⟩ := bind_eq_ok h
      obtain ⟨s, hs, h⟩ := bind_eq_ok h
      cases h
      exact Or.inl (.rotate (Expr.built_of_lift ha.accepted ha') (built_of_require ih hs))
  | move hx hy _ h ih =>
      obtain ⟨x, hx', h⟩ := bind_eq_ok h
      obtain ⟨y, hy', h⟩ := bind_eq_ok h
      obtain ⟨s, hs, h⟩ := bind_eq_ok h
      cases h
      exact Or.inl (.move (Expr.built_of_lift hx.accepted hx')
        (Expr.built_of_lift hy.accepted hy') (built_of_require ih hs))
  | group _ h ih =>
      obtain ⟨shapes, hshapes, h⟩ := bind_eq_ok h
      cases h
      exact Or.inl (.group (built_of_mapM_require ih hshapes))

private theorem mapM_require_of_built {children : List Shape} (h : ∀ s ∈ children, s.Built) :
    children.mapM require = .ok children := by
  induction children with
  | nil => rfl
  | cons s rest ih =>
      rw [List.forall_mem_cons] at h
      rw [List.mapM_cons, h.1.require, ih h.2]
      rfl

theorem Built.supplied {s : Shape} (h : s.Built) : s.Supplied := by
  induction h with
  | rectangle hw hh hp =>
      refine .rectangle hw.supplied hh.supplied hp.supplied ?_
      cases hp
      simp only [buildRectangle, hw.lift, hh.lift, ok_bind, pure_eq_ok]
  | rotate ha hc ih =>
      refine .rotate ha.supplied ih ?_
      simp only [buildRotate, ha.lift, hc.require, ok_bind, pure_eq_ok]
  | move hx hy hc ih =>
      refine .move hx.supplied hy.supplied ih ?_
      simp only [buildMove, hx.lift, hy.lift, hc.require, ok_bind, pure_eq_ok]
  | group h ih =>
      refine .group ih ?_
      simp only [buildGroup, mapM_require_of_built h, ok_bind, pure_eq_ok]

/-- The built shapes are those among the supplied that are no plain values. -/
theorem built_iff (s : Shape) : s.Built ↔ s.Supplied ∧ ∀ v, s ≠ .stray v := by
  constructor
  · intro h
    exact ⟨h.supplied, fun v => by cases h <;> exact Shape.noConfusion⟩
  · rintro ⟨h, hno⟩
    exact h.built_or_stray.resolve_right fun ⟨v, hv⟩ => hno v hv

/-! ### Built shapes by their positions -/

theorem Built.plain {s : Shape} (h : s.Built) : s.Plain := by
  induction h with
  | rectangle hw hh hp =>
      obtain ⟨hhue, hs, hl, ha⟩ := hp
      exact .rectangle ..
  | rotate _ _ ih => exact .rotate _ ih
  | move _ _ _ ih => exact .move _ _ ih
  | group _ ih => exact .group ih

theorem mem_positionsOfAll {children : List Shape} {e : Expr} :
    e ∈ positionsOfAll children ↔ ∃ s ∈ children, e ∈ s.positions := by
  induction children with
  | nil => simp [positionsOfAll]
  | cons s rest ih => simp [positionsOfAll, ih]

/-- At every position of a built shape stands a built expression. -/
theorem Built.of_mem_positions {s : Shape} (h : s.Built) : ∀ e ∈ s.positions, e.Built := by
  induction h with
  | rectangle hw hh hp =>
      obtain ⟨hhue, hs, hl, ha⟩ := hp
      simp only [positions, Paint.positions, List.forall_mem_cons]
      exact ⟨hw, hh, hhue, hs, hl, ha, by simp⟩
  | rotate ha _ ih =>
      rw [positions, List.forall_mem_cons]
      exact ⟨ha, ih⟩
  | move hx hy _ ih =>
      rw [positions, List.forall_mem_cons, List.forall_mem_cons]
      exact ⟨hx, hy, ih⟩
  | group _ ih =>
      intro e he
      rw [positions, mem_positionsOfAll] at he
      obtain ⟨s, hs, he⟩ := he
      exact ih s hs e he

/-- Every function in the shape is total on doubles. -/
def Total (s : Shape) : Prop := ∀ e ∈ s.positions, e.Total

end Shape

/-! ## The first sketch -/

namespace Demo

theorem place_built : place.Built := .named "x" (.random _ _)

theorem bar_built : bar.Built :=
  .move place_built (.random _ _) (.rotate (.random _ _)
    (.rectangle (.combined _ place_built (.random _ _)) (.random _ _)
      (.hsla (.random _ _) (.constant _) (.random _ _) (.constant _))))

theorem shadow_built : shadow.Built :=
  .move (.combined _ place_built (.constant _)) (.constant _)
    (.rectangle (.constant _) (.constant _)
      (.hsla (.constant _) (.constant _) (.constant _) (.constant _)))

theorem sketch_built : sketch.Built := by
  refine .group fun s hs => ?_
  simp only [List.mem_cons, List.not_mem_nil, or_false] at hs
  rcases hs with rfl | rfl
  · exact shadow_built
  · exact bar_built

theorem bar_total : bar.Total := by
  have hfifth : Binary.fifthPlus.IsTotal := Binary.isTotal_of_mem_all (by simp [Binary.all])
  simp only [Shape.Total, bar, Shape.positions, Paint.positions, List.forall_mem_cons]
  refine ⟨trivial, trivial, trivial, ⟨trivial, trivial, hfifth⟩, trivial, ?_⟩
  exact ⟨trivial, trivial, trivial, trivial, by simp⟩

theorem shadow_total : shadow.Total := by
  have hadd : Binary.add.IsTotal := Binary.isTotal_of_mem_all (by simp [Binary.all])
  simp only [Shape.Total, shadow, Shape.positions, Paint.positions, List.forall_mem_cons]
  refine ⟨⟨trivial, trivial, hadd⟩, trivial, trivial, trivial, ?_⟩
  exact ⟨trivial, trivial, trivial, trivial, by simp⟩

theorem sketch_total : sketch.Total := by
  intro e he
  rw [sketch, Shape.positions, Shape.mem_positionsOfAll] at he
  obtain ⟨s, hs, he⟩ := he
  simp only [List.mem_cons, List.not_mem_nil, or_false] at hs
  rcases hs with rfl | rfl
  · exact shadow_total e he
  · exact bar_total e he

end Demo
end SeededSketch
