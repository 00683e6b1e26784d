import SeededSketch.Proofs.Memo
import SeededSketch.Shape

/-!
# The order of evaluation

A shape has its numbers at fixed positions, and evaluating it means nothing more than evaluating
the expressions at these positions one after the other.  `Shape.positions` lists them as they are
written, `Expr.inOrder` evaluates a list from left to right, each expression in the context that
the one before it left, and `Shape.rebuild` puts values back where the expressions stood.

The main statement is `evaluate_eq_inOrder`: for a memo of doubles these three together are the
evaluator, in the form, in the context it leaves and in the fault it fails with.  It reduces every
statement about shapes to one about lists of expressions.
-/

namespace SeededSketch

/-! ## Steps that can fail -/

@[simp] theorem ok_bind {ε α β : Type} (a : α) (f : α → Except ε β) :
    (Except.ok a >>= f) = f a := rfl

@[simp] theorem error_bind {ε α β : Type} (fault : ε) (f : α → Except ε β) :
    ((Except.error fault : Except ε α) >>= f) = .error fault := rfl

@[simp] theorem pure_eq_ok {ε α : Type} (a : α) : (pure a : Except ε α) = .ok a := rfl

/-- What a sequence of two steps gives was given by the second on the outcome of the first. -/
theorem bind_eq_ok {ε α β : Type} {x : Except ε α} {f : α → Except ε β} {b : β}
    (h : x >>= f = .ok b) : ∃ a, x = .ok a ∧ f a = .ok b := by
  cases x with
  | error fault => cases h
  | ok a => exact ⟨a, rfl, h⟩

/-- Two sequences that begin alike, and go on alike from what they begin with, are the same. -/
theorem bind_congr_of_ok {ε α β : Type} {o o' : Except ε α} {f g : α → Except ε β} (h : o' = o)
    (hnext : ∀ a, o = .ok a → f a = g a) : (o' >>= f) = (o >>= g) := by
  subst h
  cases o' with
  | error fault => rfl
  | ok a => exact hnext a rfl

/-- Two outcomes that look alike are the same fault, or results that look alike. -/
theorem cases_of_map_eq {ε α γ : Type} {view : α → γ} {o o' : Except ε α}
    (h : o'.map view = o.map view) :
    (∃ fault, o = .error fault ∧ o' = .error fault) ∨
      ∃ a a', o = .ok a ∧ o' = .ok a' ∧ view a' = view a := by
  match o, o', h with
  | .error fault, .error fault', h => exact .inl ⟨fault, rfl, by cases h; rfl⟩
  | .ok a, .ok a', h => exact .inr ⟨a, a', rfl, rfl, Except.ok.inj h⟩

/-! ## Expressions one after the other -/

namespace Expr

/-- The values of expressions from left to right, each evaluated in the context that the one before
it left, and the context after the last. -/
def inOrder : List Expr → Context → Except Fault (List Value × Context)
  | [], c => .ok ([], c)
  | e :: rest, c => do
    let (value, c₁) ← e.evaluate c
    let (values, c₂) ← inOrder rest c₁
    return (value :: values, c₂)

theorem inOrder_append (es rest : List Expr) (c : Context) :
    inOrder (es ++ rest) c = (do
      let (values, c₁) ← inOrder es c
      let (more, c₂) ← inOrder rest c₁
      return (values ++ more, c₂)) := by
  induction es generalizing c with
  | nil =>
      simp only [List.nil_append, inOrder, ok_bind, pure_eq_ok]
      exact (bind_pure _).symm
  | cons e es ih =>
      simp only [List.cons_append, inOrder, ih, bind_assoc, pure_bind]

/-- A list of expressions fails exactly with the fault of the first that fails, in the context that
those before it left. -/
theorem inOrder_eq_error_iff (es : List Expr) (c : Context) (fault : Fault) :
    inOrder es c = .error fault ↔
      ∃ before e after values c₁, es = before ++ e :: after ∧
        inOrder before c = .ok (values, c₁) ∧ e.evaluate c₁ = .error fault := by
  constructor
  · intro h
    induction es generalizing c with
    | nil => cases h
    | cons e es ih =>
        cases he : e.evaluate c with
        | error fault' =>
            simp only [inOrder, he, error_bind, Except.error.injEq] at h
            subst h
            exact ⟨[], e, es, [], c, rfl, rfl, he⟩
        | ok r =>
            cases hes : inOrder es r.2 with
            | ok r' => simp [inOrder, he, hes] at h
            | error fault' =>
                simp only [inOrder, he, hes, ok_bind, error_bind, Except.error.injEq] at h
                subst h
                obtain ⟨before, e', after, values, c₁, rfl, hbefore, he'⟩ := ih r.2 hes
                refine ⟨e :: before, e', after, r.1 :: values, c₁, rfl, ?_, he'⟩
                simp only [inOrder, he, hbefore, ok_bind, pure_eq_ok]
  · rintro ⟨before, e, after, values, c₁, rfl, hbefore, he⟩
    simp only [inOrder_append, inOrder, hbefore, he, ok_bind, error_bind]

/-! ### Doubles in, doubles out -/

theorem recorded?_eq_some {name value : Value} {c : Context}
    (h : recorded? name c = .ok (some value)) :
    c.memo.find? name.display = some value := by
  unfold recorded? at h
  split at h
  · exact Except.ok.inj h
  · exact Except.ok.inj h
  · split at h <;> cases h

/-- With a memo of doubles every expression that gives a value gives a double and leaves a memo of
doubles. -/
theorem isReal_of_evaluate (e : Expr) {c c₁ : Context} {value : Value} (hc : c.memo.IsReal)
    (h : e.evaluate c = .ok (value, c₁)) : value.IsReal ∧ c₁.memo.IsReal := by
  induction e generalizing c c₁ value with
  | constant v =>
      obtain ⟨x, -, hx⟩ := bind_eq_ok h
      cases hx
      exact ⟨Value.isReal_real x, hc⟩
  | random lo hi =>
      obtain ⟨r, -, hr⟩ := bind_eq_ok h
      cases hr
      exact ⟨Value.isReal_real r.1, hc⟩
  | named name inner ih =>
      obtain ⟨found, hfound, h⟩ := bind_eq_ok h
      cases found with
      | some v =>
          cases h
          exact ⟨hc.find? (recorded?_eq_some hfound), hc⟩
      | none =>
          obtain ⟨r, hr, h⟩ := bind_eq_ok h
          obtain ⟨hv, hm⟩ := ih hc hr
          obtain ⟨x, -, h⟩ := bind_eq_ok h
          cases h
          exact ⟨hv, hm.record _ x⟩
  | calculated inner f ih =>
      obtain ⟨r, hr, h⟩ := bind_eq_ok h
      obtain ⟨x, -, h⟩ := bind_eq_ok h
      cases h
      exact ⟨Value.isReal_real x, (ih hc hr).2⟩
  | combined f left right ihl ihr =>
      obtain ⟨r, hr, h⟩ := bind_eq_ok h
      obtain ⟨r', hr', h⟩ := bind_eq_ok h
      obtain ⟨x, -, h⟩ := bind_eq_ok h
      cases h
      exact ⟨Value.isReal_real x, (ihr (ihl hc hr).2 hr').2⟩
  | stray v => cases h

theorem exists_of_inOrder_cons {e : Expr} {es : List Expr} {c c₂ : Context} {values : List Value}
    (h : inOrder (e :: es) c = .ok (values, c₂)) :
    ∃ value rest c₁, e.evaluate c = .ok (value, c₁) ∧ inOrder es c₁ = .ok (rest, c₂) ∧
      values = value :: rest := by
  obtain ⟨⟨value, c₁⟩, hvalue, h⟩ := bind_eq_ok h
  obtain ⟨⟨rest, _⟩, hrest, h⟩ := bind_eq_ok h
  cases h
  exact ⟨value, rest, c₁, hvalue, hrest, rfl⟩

theorem isReal_of_inOrder (es : List Expr) {c c₁ : Context} {values : List Value}
    (hc : c.memo.IsReal) (h : inOrder es c = .ok (values, c₁)) :
    (∀ value ∈ values, value.IsReal) ∧ c₁.memo.IsReal := by
  induction es generalizing c c₁ values with
  | nil =>
      cases h
      exact ⟨by simp, hc⟩
  | cons e es ih =>
      obtain ⟨value, rest, c₂, hvalue, hrest, rfl⟩ := exists_of_inOrder_cons h
      obtain ⟨hv, hm⟩ := isReal_of_evaluate e hc hvalue
      obtain ⟨hvs, hm'⟩ := ih hm hrest
      exact ⟨List.forall_mem_cons.mpr ⟨hv, hvs⟩, hm'⟩

/-- Every expression of a list that is evaluated gives one value. -/
theorem length_of_inOrder {es : List Expr} {c c₁ : Context} {values : List Value}
    (h : inOrder es c = .ok (values, c₁)) : values.length = es.length := by
  induction es generalizing c c₁ values with
  | nil =>
      cases h
      rfl
  | cons e es ih =>
      obtain ⟨value, rest, c₂, -, hrest, rfl⟩ := exists_of_inOrder_cons h
      exact congrArg Nat.succ (ih hrest)

end Expr

/-! ## The positions of a shape -/

/-- The four expressions of a paint in the order of their evaluation. -/
def Paint.positions : Paint → List Expr
  | hsla hue saturation lightness alpha => [hue, saturation, lightness, alpha]
  | stray _ => []

namespace Shape

mutual

/-- The expressions of a shape, in the order in which they are written. -/
def positions : Shape → List Expr
  | rectangle width height paint => width :: height :: paint.positions
  | rotate angle child => angle :: child.positions
  | move dx dy child => dx :: dy :: child.positions
  | group children => positionsOfAll children
  | stray _ => []

def positionsOfAll : List Shape → List Expr
  | [] => []
  | shape :: rest => shape.positions ++ positionsOfAll rest

end

mutual

/-- The form of a shape with values in place of its expressions, and the values that are left over.
A rectangle takes its colour from the last four of its values, the hue in degrees.  With too few
values there is no form. -/
def rebuild : Shape → List Value → Except Fault (Form × List Value)
  | rectangle .., width :: height :: hue :: saturation :: lightness :: alpha :: rest => do
    return (.rectangle width height (← Fill.ofDegrees hue saturation lightness alpha), rest)
  | rotate _ child, angle :: values => do
    let (form, rest) ← child.rebuild values
    return (.rotated angle form, rest)
  | move _ _ child, dx :: dy :: values => do
    let (form, rest) ← child.rebuild values
    return (.translated dx dy form, rest)
  | group children, values => do
    let (forms, rest) ← rebuildAll children values
    return (.stacked forms, rest)
  | _, values => .ok (.stray .null, values)

def rebuildAll : List Shape → List Value → Except Fault (List Form × List Value)
  | [], values => .ok ([], values)
  | shape :: more, values => do
    let (form, rest) ← shape.rebuild values
    let (forms, rest') ← rebuildAll more rest
    return (form :: forms, rest')

end

/-- The shapes that hold shapes and paints where these belong.  In the place of an expression
anything can stand. -/
inductive Plain : Shape → Prop
  | rectangle (width height hue saturation lightness alpha : Expr) :
      Plain (.rectangle width height (.hsla hue saturation lightness alpha))
  | rotate (angle : Expr) {child : Shape} (h : child.Plain) : Plain (.rotate angle child)
  | move (dx dy : Expr) {child : Shape} (h : child.Plain) : Plain (.move dx dy child)
  | group {children : List Shape} (h : ∀ s ∈ children, s.Plain) : Plain (.group children)

/-- A shape does in a context what its positions do there: it fails as they fail, or it leaves the
context that they leave and its form has their values at its positions. -/
inductive FollowsPositions (s : Shape) (c : Context) : Prop
  | fails (fault : Fault) (hpositions : Expr.inOrder s.positions c = .error fault)
      (hshape : s.evaluate c = .error fault)
  | gives (values : List Value) (form : Form) (c₁ : Context) (hreal : c₁.memo.IsReal)
      (hpositions : Expr.inOrder s.positions c = .ok (values, c₁))
      (hform : ∀ rest, s.rebuild (values ++ rest) = .ok (form, rest))
      (hshape : s.evaluate c = .ok (form, c₁))

/-- A rectangle is evaluated position by position; only then its colour is made. -/
private theorem evaluate_rectangle (width height hue saturation lightness alpha : Expr)
    (c : Context) :
    (rectangle width height (.hsla hue saturation lightness alpha)).evaluate c = (do
      let (values, c₁) ←
        Expr.inOrder [width, height, hue, saturation, lightness, alpha] c
      let (form, _) ←
        (rectangle width height (.hsla hue saturation lightness alpha)).rebuild values
      return (form, c₁)) := by
  simp only [evaluate, Paint.evaluate, Expr.inOrder, rebuild, Fill.ofDegrees, bind_assoc,
    pure_bind, ok_bind]

private theorem follows_rectangle (width height hue saturation lightness alpha : Expr)
    {c : Context} (hc : c.memo.IsReal) :
    (rectangle width height (.hsla hue saturation lightness alpha)).FollowsPositions c := by
  cases hp : Expr.inOrder [width, height, hue, saturation, lightness, alpha] c with
  | error fault =>
      refine .fails fault hp ?_
      rw [evaluate_rectangle, hp, error_bind]
  | ok r =>
      obtain ⟨values, c₁⟩ := r
      obtain ⟨hvalues, hc₁⟩ := Expr.isReal_of_inOrder _ hc hp
      have hlength := Expr.length_of_inOrder hp
      match values, hlength with
      | [w, h, deg, s, l, a], _ =>
          -- The colour is made of doubles, so nothing can fail after the last position.
          simp only [List.forall_mem_cons] at hvalues
          obtain ⟨-, -, ⟨deg, rfl⟩, ⟨s, rfl⟩, ⟨l, rfl⟩, ⟨a, rfl⟩, -⟩ := hvalues
          refine .gives _ (.rectangle w h (.color (.ofDegrees deg s l a))) c₁ hc₁ hp
            (fun rest => rfl) ?_
          rw [evaluate_rectangle, hp]
          rfl

private theorem follows_rotate (angle : Expr) {child : Shape} {c : Context} (hc : c.memo.IsReal)
    (ih : ∀ {c : Context}, c.memo.IsReal → child.FollowsPositions c) :
    (rotate angle child).FollowsPositions c := by
  cases ha : angle.evaluate c with
  | error fault =>
      exact .fails fault (by simp [positions, Expr.inOrder, ha]) (by simp [evaluate, ha])
  | ok r =>
      cases ih (Expr.isReal_of_evaluate angle hc ha).2 with
      | fails fault hp hs =>
          exact .fails fault (by simp [positions, Expr.inOrder, ha, hp])
            (by simp [evaluate, ha, hs])
      | gives values form c₁ hc₁ hp hform hs =>
          refine .gives (r.1 :: values) (.rotated r.1 form) c₁ hc₁ ?_ ?_ ?_
          · simp [positions, Expr.inOrder, ha, hp]
          · intro rest
            simp [rebuild, hform]
          · simp [evaluate, ha, hs]

private theorem follows_move (dx dy : Expr) {child : Shape} {c : Context} (hc : c.memo.IsReal)
    (ih : ∀ {c : Context}, c.memo.IsReal → child.FollowsPositions c) :
    (move dx dy child).FollowsPositions c := by
  cases hx : dx.evaluate c with
  | error fault =>
      exact .fails fault (by simp [positions, Expr.inOrder, hx]) (by simp [evaluate, hx])
  | ok x =>
      have hc₁ := (Expr.isReal_of_evaluate dx hc hx).2
      cases hy : dy.evaluate x.2 with
      | error fault =>
          exact .fails fault (by simp [positions, Expr.inOrder, hx, hy])
            (by simp [evaluate, hx, hy])
      | ok y =>
          cases ih (Expr.isReal_of_evaluate dy hc₁ hy).2 with
          | fails fault hp hs =>
              exact .fails fault (by simp [positions, Expr.inOrder, hx, hy, hp])
                (by simp [evaluate, hx, hy, hs])
          | gives values form c₂ hc₂ hp hform hs =>
              refine .gives (x.1 :: y.1 :: values) (.translated x.1 y.1 form) c₂ hc₂ ?_ ?_ ?_
              · simp [positions, Expr.inOrder, hx, hy, hp]
              · intro rest
                simp [rebuild, hform]
              · simp [evaluate, hx, hy, hs]

/-- The children of a group, the one after the other, do what their positions do. -/
private theorem follows_all (children : List Shape) {c : Context} (hc : c.memo.IsReal)
    (ih : ∀ s ∈ children, ∀ {c : Context}, c.memo.IsReal → s.FollowsPositions c) :
    (∃ fault, Expr.inOrder (positionsOfAll children) c = .error fault ∧
      evaluateAll children c = .error fault) ∨
    ∃ values forms c₁, c₁.memo.IsReal ∧
      Expr.inOrder (positionsOfAll children) c = .ok (values, c₁) ∧
      (∀ rest, rebuildAll children (values ++ rest) = .ok (forms, rest)) ∧
      evaluateAll children c = .ok (forms, c₁) := by
  induction children generalizing c with
  | nil => exact Or.inr ⟨[], [], c, hc, rfl, fun rest => rfl, rfl⟩
  | cons s more ihmore =>
      rw [List.forall_mem_cons] at ih
      cases ih.1 hc with
      | fails fault hp hs =>
          refine Or.inl ⟨fault, ?_, ?_⟩
          · simp [positionsOfAll, Expr.inOrder_append, hp]
          · simp [evaluateAll, hs]
      | gives values form c₁ hc₁ hp hform hs =>
          rcases ihmore hc₁ ih.2 with
            ⟨fault, hp', hs'⟩ | ⟨values', forms, c₂, hc₂, hp', hforms, hs'⟩
          · refine Or.inl ⟨fault, ?_, ?_⟩
            · simp [positionsOfAll, Expr.inOrder_append, hp, hp']
            · simp [evaluateAll, hs, hs']
          · -- The first child takes its own values and hands the others on.
            refine Or.inr ⟨values ++ values', form :: forms, c₂, hc₂, ?_, ?_, ?_⟩
            · simp [positionsOfAll, Expr.inOrder_append, hp, hp']
            · intro rest
              simp [rebuildAll, hform, hforms]
            · simp [evaluateAll, hs, hs']

/-- Every shape follows its positions, whatever stands there, as long as the memo holds doubles:
then a colour cannot fail after its expressions have been evaluated. -/
theorem Plain.followsPositions {s : Shape} (h : s.Plain) {c : Context} (hc : c.memo.IsReal) :
    s.FollowsPositions c := by
  induction h generalizing c with
  | rectangle width height hue saturation lightness alpha =>
      exact follows_rectangle width height hue saturation lightness alpha hc
  | rotate angle _ ih => exact follows_rotate angle hc ih
  | move dx dy _ ih => exact follows_move dx dy hc ih
  | @group children _ ih =>
      rcases follows_all children hc ih with
        ⟨fault, hp, hs⟩ | ⟨values, forms, c₁, hc₁, hp, hform, hs⟩
      · exact .fails fault (by simpa [positions] using hp) (by simp [evaluate, hs])
      · refine .gives values (.stacked forms) c₁ hc₁ (by simpa [positions] using hp) ?_ ?_
        · intro rest
          simp [rebuild, hform]
        · simp [evaluate, hs]

/-- The form of a shape and the context after it, by way of its positions. -/
def readInOrder (s : Shape) (c : Context) : Except Fault (Form × Context) := do
  let (values, c₁) ← Expr.inOrder s.positions c
  let (form, _) ← s.rebuild values
  return (form, c₁)

/-- Evaluating a shape is evaluating the expressions at its positions from left to right and putting
their values back in their places; and it fails exactly when one of them does, with the fault of
the first. -/
theorem evaluate_eq_readInOrder (s : Shape) (hs : s.Plain) (c : Context) (hc : c.memo.IsReal) :
    s.evaluate c = s.readInOrder c ∧
      ∀ fault, s.evaluate c = .error fault ↔
        ∃ before e after values c₁, s.positions = before ++ e :: after ∧
          Expr.inOrder before c = .ok (values, c₁) ∧ e.evaluate c₁ = .error fault := by
  cases hs.followsPositions hc with
  | fails fault hp hshape =>
      refine ⟨by simp [readInOrder, hshape, hp], fun fault' => ?_⟩
      rw [← Expr.inOrder_eq_error_iff s.positions c fault', hshape, hp]
      simp
  | gives values form c₁ _ hp hform hshape =>
      have hrebuild := hform []
      rw [List.append_nil] at hrebuild
      refine ⟨by simp [readInOrder, hshape, hp, hrebuild], fun fault => ?_⟩
      rw [← Expr.inOrder_eq_error_iff s.positions c fault, hshape, hp]
      simp

/-- A turned child whose width is a text, after a moved one that draws: the evaluator and the
positions in order agree in the fault, although the first child has been evaluated by then. -/
theorem evaluate_eq_readInOrder_late_fault :
    let paint : Paint := .hsla (.ofReal 0.0) (.ofReal 1.0) (.ofReal 0.5) (.ofReal 1.0)
    let width : Expr := .named (.text "w") (.random (.number (.real 0.0)) (.number (.real 1.0)))
    let first := rectangle width (.ofReal 1.0) paint
    let second := rectangle (.stray (.text "wide")) (.ofReal 1.0) paint
    let s := group [move (.ofReal 1.0) (.ofReal 2.0) first, rotate (.ofReal 0.0) second]
    let c : Context := ⟨.ofSeed 5, ⟨[("h", .number (.real 3.0))]⟩⟩
    s.Plain ∧ c.memo.IsReal ∧ s.evaluate c = s.readInOrder c ∧
      ∃ before e after values c₁, s.positions = before ++ e :: after ∧
        Expr.inOrder before c = .ok (values, c₁) ∧
        e.evaluate c₁ = .error (.unknownExpr (.text "wide")) := by
  intro paint width first second s c
  have hs : s.Plain := by
    refine .group fun t ht => ?_
    simp only [List.mem_cons, List.not_mem_nil, or_false] at ht
    rcases ht with rfl | rfl
    · exact .move _ _ (.rectangle _ _ _ _ _ _)
    · exact .rotate _ (.rectangle _ _ _ _ _ _)
  have hc : c.memo.IsReal := by
    intro entry hentry
    simp only [c, List.mem_singleton] at hentry
    exact ⟨3.0, by rw [hentry]⟩
  obtain ⟨heq, hfault⟩ := evaluate_eq_readInOrder s hs c hc
  refine ⟨hs, hc, heq, (hfault _).mp ?_⟩
  rfl

end Shape
end SeededSketch
