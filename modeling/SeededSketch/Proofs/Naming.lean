import SeededSketch.Proofs.Correspondence
import SeededSketch.Proofs.Draws

/-!
# Names that nothing refers to

An expression may be given a name without any effect, as long as the name stands nowhere else.
The named expression is evaluated where the expression was, draws what it drew, and gives its
number; the number is recorded besides, and nobody asks for it.

From the named expression on the two evaluations have different memos.  They stay the same in all
but the new name (`Context.SameExcept`), through everything that does not mention it; and it is
still missing when the named expression is met, since nothing before has recorded it.
`NamedOnce.evaluate_agree` follows the place of the name into the expression.
`Shape.ChangesOne` says where in a shape that expression stands, and comes down to one place in the
list of its positions (`ChangesOne.positions`).  `pass_of_namedOnce` is the conclusion.
-/

namespace SeededSketch

/-! ## One expression of a list -/

namespace Expr

/-- One expression of the list is another one, which `R` relates to it. -/
inductive ChangesOneOf (R : Expr → Expr → Prop) : List Expr → List Expr → Prop
  | here {e e' : Expr} (rest : List Expr) (h : R e e') : ChangesOneOf R (e :: rest) (e' :: rest)
  | later (first : Expr) {es es' : List Expr} (h : ChangesOneOf R es es') :
      ChangesOneOf R (first :: es) (first :: es')

namespace ChangesOneOf

variable {R : Expr → Expr → Prop} {es es' : List Expr}

theorem append_left (h : ChangesOneOf R es es') (front : List Expr) :
    ChangesOneOf R (front ++ es) (front ++ es') := by
  induction front with
  | nil => exact h
  | cons first rest ih => exact .later first ih

theorem append_right (h : ChangesOneOf R es es') (back : List Expr) :
    ChangesOneOf R (es ++ back) (es' ++ back) := by
  induction h with
  | here rest h => exact .here (rest ++ back) h
  | later first _ ih => exact .later first ih

/-- The other one is in the new list. -/
theorem exists_mem (h : ChangesOneOf R es es') : ∃ e, ∃ e' ∈ es', R e e' := by
  induction h with
  | here rest h => exact ⟨_, _, List.mem_cons_self, h⟩
  | later first _ ih =>
      obtain ⟨e, e', hmem, h⟩ := ih
      exact ⟨e, e', List.mem_cons_of_mem first hmem, h⟩

end ChangesOneOf
end Expr

/-! ## One expression of a shape -/

/-- One of the four expressions is another one, which `R` relates to it. -/
inductive Paint.ChangesOne (R : Expr → Expr → Prop) : Paint → Paint → Prop
  | hue {e e' : Expr} (saturation lightness alpha : Expr) (h : R e e') :
      ChangesOne R (.hsla e saturation lightness alpha) (.hsla e' saturation lightness alpha)
  | saturation (hue : Expr) {e e' : Expr} (lightness alpha : Expr) (h : R e e') :
      ChangesOne R (.hsla hue e lightness alpha) (.hsla hue e' lightness alpha)
  | lightness (hue saturation : Expr) {e e' : Expr} (alpha : Expr) (h : R e e') :
      ChangesOne R (.hsla hue saturation e alpha) (.hsla hue saturation e' alpha)
  | alpha (hue saturation lightness : Expr) {e e' : Expr} (h : R e e') :
      ChangesOne R (.hsla hue saturation lightness e) (.hsla hue saturation lightness e')

theorem Paint.ChangesOne.positions {R : Expr → Expr → Prop} {p q : Paint} (h : p.ChangesOne R q) :
    Expr.ChangesOneOf R p.positions q.positions := by
  cases h with
  | hue saturation lightness alpha h => exact .here _ h
  | saturation hue lightness alpha h => exact .later hue (.here _ h)
  | lightness hue saturation alpha h => exact .later hue (.later saturation (.here _ h))
  | alpha hue saturation lightness h =>
      exact .later hue (.later saturation (.later lightness (.here _ h)))

theorem Paint.ChangesOne.built {R : Expr → Expr → Prop} (hR : ∀ e e', R e e' → e.Built → e'.Built)
    {p q : Paint} (h : p.ChangesOne R q) (hp : p.Built) : q.Built := by
  obtain ⟨hh, hs, hl, ha⟩ := hp
  cases h with
  | hue _ _ _ h => exact .hsla (hR _ _ h hh) hs hl ha
  | saturation _ _ _ h => exact .hsla hh (hR _ _ h hs) hl ha
  | lightness _ _ _ h => exact .hsla hh hs (hR _ _ h hl) ha
  | alpha _ _ _ h => exact .hsla hh hs hl (hR _ _ h ha)

namespace Shape

/-- One of the expressions, somewhere in the shape, is another one, which `R` relates to it. -/
inductive ChangesOne (R : Expr → Expr → Prop) : Shape → Shape → Prop
  | width {e e' : Expr} (height : Expr) (paint : Paint) (h : R e e') :
      ChangesOne R (.rectangle e height paint) (.rectangle e' height paint)
  | height (width : Expr) {e e' : Expr} (paint : Paint) (h : R e e') :
      ChangesOne R (.rectangle width e paint) (.rectangle width e' paint)
  | paint (width height : Expr) {p q : Paint} (h : p.ChangesOne R q) :
      ChangesOne R (.rectangle width height p) (.rectangle width height q)
  | angle {e e' : Expr} (child : Shape) (h : R e e') :
      ChangesOne R (.rotate e child) (.rotate e' child)
  | turned (angle : Expr) {s t : Shape} (h : ChangesOne R s t) :
      ChangesOne R (.rotate angle s) (.rotate angle t)
  | dx {e e' : Expr} (dy : Expr) (child : Shape) (h : R e e') :
      ChangesOne R (.move e dy child) (.move e' dy child)
  | dy (dx : Expr) {e e' : Expr} (child : Shape) (h : R e e') :
      ChangesOne R (.move dx e child) (.move dx e' child)
  | moved (dx dy : Expr) {s t : Shape} (h : ChangesOne R s t) :
      ChangesOne R (.move dx dy s) (.move dx dy t)
  | child (front back : List Shape) {s t : Shape} (h : ChangesOne R s t) :
      ChangesOne R (.group (front ++ s :: back)) (.group (front ++ t :: back))

theorem positionsOfAll_append (front back : List Shape) :
    positionsOfAll (front ++ back) = positionsOfAll front ++ positionsOfAll back := by
  induction front with
  | nil => rfl
  | cons s rest ih => rw [List.cons_append, positionsOfAll, positionsOfAll, ih, List.append_assoc]

namespace ChangesOne

variable {R : Expr → Expr → Prop} {s t : Shape}

theorem positions (h : s.ChangesOne R t) : Expr.ChangesOneOf R s.positions t.positions := by
  induction h with
  | width height paint h => exact .here _ h
  | height width paint h => exact .later width (.here _ h)
  | paint width height h => exact .later width (.later height h.positions)
  | angle child h => exact .here _ h
  | turned angle _ ih => exact .later angle ih
  | dx dy child h => exact .here _ h
  | dy dx child h => exact .later dx (.here _ h)
  | moved dx dy _ ih => exact .later dx (.later dy ih)
  | child front back _ ih =>
      rw [Shape.positions, Shape.positions, positionsOfAll_append, positionsOfAll_append]
      exact (ih.append_right (positionsOfAll back)).append_left (positionsOfAll front)

/-- With the same expression at every position there is no difference any more. -/
theorem mapPositions_eq (h : s.ChangesOne R t) (e : Expr) :
    t.mapPositions (fun _ => e) = s.mapPositions fun _ => e := by
  induction h with
  | paint width height h => cases h <;> rfl
  | turned angle _ ih => rw [mapPositions, mapPositions, ih]
  | moved dx dy _ ih => rw [mapPositions, mapPositions, ih]
  | child front back _ ih =>
      simp only [mapPositions, mapPositionsOfAll_eq_map, List.map_append, List.map_cons, ih]
  | width | height | angle | dx | dy => rfl

theorem rebuild (h : s.ChangesOne R t) (values : List Value) :
    t.rebuild values = s.rebuild values := by
  rw [← rebuild_mapPositions (f := fun _ => Expr.ofReal 0.0) t, h.mapPositions_eq,
    rebuild_mapPositions]

theorem built (hR : ∀ e e', R e e' → e.Built → e'.Built) (h : s.ChangesOne R t) (hs : s.Built) :
    t.Built := by
  induction h with
  | width height paint h =>
      cases hs with
      | rectangle hw hh hp => exact .rectangle (hR _ _ h hw) hh hp
  | height width paint h =>
      cases hs with
      | rectangle hw hh hp => exact .rectangle hw (hR _ _ h hh) hp
  | paint width height h =>
      cases hs with
      | rectangle hw hh hp => exact .rectangle hw hh (h.built hR hp)
  | angle child h =>
      cases hs with
      | rotate ha hc => exact .rotate (hR _ _ h ha) hc
  | turned angle _ ih =>
      cases hs with
      | rotate ha hc => exact .rotate ha (ih hc)
  | dx dy child h =>
      cases hs with
      | move hx hy hc => exact .move (hR _ _ h hx) hy hc
  | dy dx child h =>
      cases hs with
      | move hx hy hc => exact .move hx (hR _ _ h hy) hc
  | moved dx dy _ ih =>
      cases hs with
      | move hx hy hc => exact .move hx hy (ih hc)
  | child front back _ ih =>
      cases hs with
      | group hcs =>
          rw [List.forall_mem_append, List.forall_mem_cons] at hcs
          apply Built.group
          rw [List.forall_mem_append, List.forall_mem_cons]
          exact ⟨hcs.1, ih hcs.2.1, hcs.2.2⟩

end ChangesOne
end Shape

/-! ## Contexts with one name more -/

/-- The contexts have the same stream, and hold the same under every name but this one. -/
structure Context.SameExcept (name : String) (c c' : Context) : Prop where
  stream : c'.stream = c.stream
  find? (other : String) (h : other ≠ name) : c'.memo.find? other = c.memo.find? other

theorem Context.SameExcept.record_right {name : String} {c c' : Context}
    (h : c.SameExcept name c') (x : Float) :
    c.SameExcept name (c'.record name (.number (.real x))) where
  stream := h.stream
  find? other hother := by
    rw [Context.memo_record, Memo.find?_record, if_neg hother, h.find? other hother]

/-- Such contexts answer alike, and go on doing so, where the name is not in question. -/
theorem follows_sameExcept (name : String) :
    Follows (Context.SameExcept name) id {other | other ≠ name} where
  stream h := h.stream
  find? h other hother := h.find? other hother
  withStream h stream := ⟨rfl, h.find?⟩
  record h recorded _ x := by
    refine ⟨h.stream, fun other hother => ?_⟩
    rw [Context.memo_record, Context.memo_record, Memo.find?_record, Memo.find?_record,
      h.find? other hother]
    rfl

namespace Expr

variable {name : String} {c c' : Context}

/-- What does not mention the name cannot tell the contexts apart. -/
theorem Built.evaluate_sameExcept {e : Expr} (he : e.Built) (hname : name ∉ e.mentions)
    (h : c.SameExcept name c') :
    AgreeUpTo (Context.SameExcept name) (e.evaluate c) (e.evaluate c') := by
  have hothers : ∀ other ∈ e.mentions, other ∈ {other | other ≠ name} := by
    rintro other hother rfl
    exact hname hother
  have hagree := he.evaluate_rename (follows_sameExcept name) hothers h
  rwa [rename_id] at hagree

theorem inOrder_sameExcept {es : List Expr} (hes : ∀ e ∈ es, e.Built)
    (hname : ∀ e ∈ es, name ∉ e.mentions) (h : c.SameExcept name c') :
    AgreeUpTo (Context.SameExcept name) (inOrder es c) (inOrder es c') := by
  have hothers : ∀ e ∈ es, ∀ other ∈ e.mentions, other ∈ {other | other ≠ name} := by
    rintro e he other hother rfl
    exact hname e he hother
  have hagree := inOrder_rename (follows_sameExcept name) hes hothers h
  have hid : rename id = id := funext rename_id
  rwa [hid, List.map_id] at hagree

/-! ## A name in an expression -/

/-- One expression, the whole of it or one at any depth, is given the name. -/
inductive NamedOnce (name : String) : Expr → Expr → Prop
  | here (e : Expr) : NamedOnce name e (.named (.text name) e)
  | named (other : Value) {inner inner' : Expr} (h : NamedOnce name inner inner') :
      NamedOnce name (.named other inner) (.named other inner')
  | calculated (f : Unary) {inner inner' : Expr} (h : NamedOnce name inner inner') :
      NamedOnce name (.calculated inner f) (.calculated inner' f)
  | left (f : Binary) {left left' : Expr} (right : Expr) (h : NamedOnce name left left') :
      NamedOnce name (.combined f left right) (.combined f left' right)
  | right (f : Binary) (left : Expr) {right right' : Expr} (h : NamedOnce name right right') :
      NamedOnce name (.combined f left right) (.combined f left right')

namespace NamedOnce

variable {e e' : Expr}

theorem built (h : NamedOnce name e e') (he : e.Built) : e'.Built := by
  induction h with
  | here e => exact .named name he
  | named other _ ih =>
      cases he with
      | named other hinner => exact .named other (ih hinner)
  | calculated f _ ih =>
      cases he with
      | calculated f hinner => exact .calculated f (ih hinner)
  | left f right _ ih =>
      cases he with
      | combined f hl hr => exact .combined f (ih hl) hr
  | right f left _ ih =>
      cases he with
      | combined f hl hr => exact .combined f hl (ih hr)

theorem mem_mentions (h : NamedOnce name e e') : name ∈ e'.mentions := by
  induction h with
  | here e => exact Finset.mem_insert_self name e.mentions
  | named other _ ih => exact Finset.mem_insert_of_mem ih
  | calculated f _ ih => exact ih
  | left f right _ ih => exact Finset.mem_union_left _ ih
  | right f left _ ih => exact Finset.mem_union_right _ ih

/-- An expression and the one with the new name in it take the same steps, as long as the name has
not been recorded yet; only that the one of them records it. -/
theorem evaluate_agree (h : NamedOnce name e e') (he : e.Built) (hname : name ∉ e.mentions)
    (hc : c.SameExcept name c') (hreal : c'.memo.IsReal) (hfree : c'.memo.find? name = none) :
    AgreeUpTo (Context.SameExcept name) (e.evaluate c) (e'.evaluate c') := by
  induction h generalizing c c' with
  | here e =>
      have hagree := he.evaluate_sameExcept hname hc
      rw [evaluate_named_missing hfree, ← bind_pure (e.evaluate c)]
      refine hagree.bind fun value c₁ c₁' _ hrun h₁ => ?_
      obtain ⟨x, rfl⟩ := (isReal_of_evaluate e hreal hrun).1
      exact .gives _ (h₁.record_right x)
  | named other _ ih =>
      cases he with
      | named own hinner =>
          rw [mentions, Finset.mem_insert, not_or] at hname
          have hown : own ≠ name := Ne.symm hname.1
          exact named_agree hc (hc.find? own hown) (ih hinner hname.2 hc hreal hfree)
            fun h₁ => (follows_sameExcept name).record h₁ hown
  | calculated f _ ih =>
      cases he with
      | calculated f hinner => exact calculated_agree f (ih hinner hname hc hreal hfree)
  | left f right _ ih =>
      cases he with
      | combined f hl hr =>
          rw [mentions, Finset.mem_union, not_or] at hname
          exact combined_agree f (ih hl hname.1 hc hreal hfree) fun _ _ _ _ _ h₁ =>
            hr.evaluate_sameExcept hname.2 h₁
  | right f left _ ih =>
      cases he with
      | combined f hl hr =>
          rw [mentions, Finset.mem_union, not_or] at hname
          refine combined_agree f (hl.evaluate_sameExcept hname.1 hc) fun a c₁ c₁' _ hrun h₁ => ?_
          -- The left side has not recorded the name, for it does not mention it.
          exact ih hr hname.2 h₁ (isReal_of_evaluate left hreal hrun).2
            ((hl.find?_of_not_mem hname.1 hrun).trans hfree)

end NamedOnce

theorem inOrder_namedOnce {es es' : List Expr} (h : ChangesOneOf (NamedOnce name) es es')
    (hbuilt : ∀ e ∈ es, e.Built) (hname : ∀ e ∈ es, name ∉ e.mentions)
    (hc : c.SameExcept name c') (hreal : c'.memo.IsReal) (hfree : c'.memo.find? name = none) :
    AgreeUpTo (Context.SameExcept name) (inOrder es c) (inOrder es' c') := by
  induction h generalizing c c' with
  | here rest h =>
      rw [List.forall_mem_cons] at hbuilt hname
      have hfirst := h.evaluate_agree hbuilt.1 hname.1 hc hreal hfree
      exact inOrder_cons_agree hfirst fun _ _ _ _ _ h₁ =>
        inOrder_sameExcept hbuilt.2 hname.2 h₁
  | later first _ ih =>
      rw [List.forall_mem_cons] at hbuilt hname
      have hfirst := hbuilt.1.evaluate_sameExcept hname.1 hc
      refine inOrder_cons_agree hfirst fun value c₁ c₁' _ hrun h₁ => ?_
      exact ih hbuilt.2 hname.2 h₁ (isReal_of_evaluate first hreal hrun).2
        ((hbuilt.1.find?_of_not_mem hname.1 hrun).trans hfree)

end Expr

/-! ## Passes -/

namespace Shape

/-- Naming is invisible until the name is used again.  If one expression of a built shape, at any
depth, is given a name that is nowhere in the shape, then what comes of it is a built shape that
mentions the name, and from every stream a pass of it has the form and the stream after it that a
pass of the shape has, or the same fault. -/
theorem pass_of_namedOnce {s t : Shape} (hs : s.Built) {name : String} (hname : ¬ s.Mentions name)
    (h : s.ChangesOne (Expr.NamedOnce name) t) :
    t.Built ∧ t.Mentions name ∧ ∀ stream, t.pass stream = s.pass stream := by
  have ht : t.Built := h.built (fun _ _ h he => h.built he) hs
  obtain ⟨e, e', hmem, hnamed⟩ := h.positions.exists_mem
  refine ⟨ht, ⟨e', hmem, hnamed.mem_mentions⟩, fun stream => ?_⟩
  have hreal : (Context.fresh stream).memo.IsReal := Memo.isReal_empty
  have hout : ∀ a ∈ s.positions, name ∉ a.mentions := fun a ha hmem => hname ⟨a, ha, hmem⟩
  have hvalues :=
    Expr.inOrder_namedOnce h.positions hs.of_mem_positions hout ⟨rfl, fun _ _ => rfl⟩ hreal rfl
  have hagree := hs.plain.evaluate_agree ht.plain h.rebuild hreal hreal hvalues
  refine hagree.bind_eq fun form c c' hsame => ?_
  show Except.ok (form, c'.stream) = .ok (form, c.stream)
  rw [hsame.stream]

/-- The first sketch, with a name for the draw that its place stands for where the shadow refers to
it.  The place is met there for the first time, so the draw is recorded under both names. -/
def namedDraw : Shape :=
  .group [.move (.combined .add (.named (.text "x") (.named (.text "w")
        (.random (.number (.real (-250.0))) (.number (.real 250.0))))) (.ofReal 3.0))
      (.ofReal (-3.0))
      (.rectangle (.ofReal 4.0) (.ofReal 300.0)
        (.hsla (.ofReal 0.0) (.ofReal 0.0) (.ofReal 1.0) (.ofReal 0.05))),
    Demo.bar]

theorem pass_of_namedOnce_demo :
    Demo.sketch.Built ∧ ¬ Demo.sketch.Mentions "w" ∧
      Demo.sketch.ChangesOne (Expr.NamedOnce "w") namedDraw ∧ namedDraw.Mentions "w" ∧
      ∃ form next, Demo.sketch.pass (.ofSeed 1) = .ok (form, next) ∧
        namedDraw.pass (.ofSeed 1) = .ok (form, next) := by
  have hname : ¬ Demo.sketch.Mentions "w" := by
    unfold Mentions
    decide
  have hchanges : Demo.sketch.ChangesOne (Expr.NamedOnce "w") namedDraw :=
    .child [] [Demo.bar] (.dx _ _ (.left _ _ (.named _ (.here _))))
  obtain ⟨-, hmentions, hpass⟩ := pass_of_namedOnce Demo.sketch_built hname hchanges
  have hmemo : (Context.fresh (.ofSeed 1)).memo.IsReal := Memo.isReal_empty
  obtain ⟨form, c, hform, -⟩ :=
    (Demo.sketch_built.consumes Demo.sketch_total hmemo).completes (.inr (Stream.ready_next _))
  have hdone : Demo.sketch.pass (.ofSeed 1) = .ok (form, c.stream) := by
    rw [pass, hform]
    rfl
  exact ⟨Demo.sketch_built, hname, hchanges, hmentions, form, c.stream, hdone,
    (hpass _).trans hdone⟩

end Shape
end SeededSketch
