import SeededSketch.Proofs.Order

/-!
# What happens on the way

The evaluator gives a value and a context, or a fault.  What it did on the way is not in its
outcome: how often it drew, which names it found and which it recorded.  `Expr.observe` is the same
evaluation with these events written down, in their order and up to the fault if there is one.

`Expr.outcome_observe` and `Shape.outcome_observe` say that it is the evaluator when the events are
left out.
-/

namespace SeededSketch

/-- What an evaluation does besides computing: it draws, it finds a name in the memo, or it records
a number under a name. -/
inductive Event where
  | drawn
  | found (name : String) (value : Value)
  | recorded (name : String) (x : Float)

/-- An evaluation's outcome, and the events up to it. -/
structure Observed (α : Type) where
  events : List Event
  outcome : Except Fault α

namespace Observed

/-- A step without events. -/
def silent {α : Type} (outcome : Except Fault α) : Observed α := ⟨[], outcome⟩

/-- The event that just happens. -/
def note (event : Event) : Observed Unit := ⟨[event], .ok ()⟩

/-- One step after the other; after a fault nothing happens any more. -/
def andThen {α β : Type} (x : Observed α) (f : α → Observed β) : Observed β :=
  match x.outcome with
  | .ok a => ⟨x.events ++ (f a).events, (f a).outcome⟩
  | .error fault => ⟨x.events, .error fault⟩

instance : Monad Observed where
  pure a := silent (.ok a)
  bind := andThen

variable {α β : Type}

@[simp] theorem outcome_silent (o : Except Fault α) : (silent o).outcome = o := rfl

@[simp] theorem events_silent (o : Except Fault α) : (silent o).events = [] := rfl

@[simp] theorem outcome_pure (a : α) : (pure a : Observed α).outcome = .ok a := rfl

@[simp] theorem events_pure (a : α) : (pure a : Observed α).events = [] := rfl

@[simp] theorem outcome_note (event : Event) : (note event).outcome = .ok () := rfl

@[simp] theorem events_note (event : Event) : (note event).events = [event] := rfl

@[simp] theorem outcome_bind (x : Observed α) (f : α → Observed β) :
    (x >>= f).outcome = x.outcome >>= fun a => (f a).outcome := by
  show (x.andThen f).outcome = _
  unfold andThen
  cases x.outcome <;> rfl

theorem events_bind_ok {x : Observed α} {a : α} (h : x.outcome = .ok a) (f : α → Observed β) :
    (x >>= f).events = x.events ++ (f a).events := by
  show (x.andThen f).events = _
  unfold andThen
  rw [h]

theorem events_bind_error {x : Observed α} {fault : Fault} (h : x.outcome = .error fault)
    (f : α → Observed β) : (x >>= f).events = x.events := by
  show (x.andThen f).events = _
  unfold andThen
  rw [h]

end Observed

namespace Expr

open Observed

/-- The evaluation of an expression with its events. -/
def observe : Expr → Context → Observed (Value × Context)
  | random lo hi, c => do
    let (x, stream) ← silent (c.stream.draw lo hi)
    note .drawn
    return (.number (.real x), c.withStream stream)
  | named name inner, c => do
    match ← silent (recorded? name c) with
    | some value =>
      note (.found name.display value)
      return (value, c)
    | none =>
      let (value, c₁) ← inner.observe c
      let x ← silent value.toReal
      note (.recorded name.display x)
      return (value, c₁.record name.display (.number (.real x)))
  | calculated inner f, c => do
    let (value, c₁) ← inner.observe c
    let x ← silent (f.apply value)
    return (.number (.real x), c₁)
  | combined f left right, c => do
    let (a, c₁) ← left.observe c
    let (b, c₂) ← right.observe c₁
    let x ← silent (f.apply a b)
    return (.number (.real x), c₂)
  | e, c => silent (e.evaluate c)

/-- The evaluation of expressions from left to right with its events. -/
def observeEach : List Expr → Context → Observed (List Value × Context)
  | [], c => return ([], c)
  | e :: rest, c => do
    let (value, c₁) ← e.observe c
    let (values, c₂) ← observeEach rest c₁
    return (value :: values, c₂)

@[simp] theorem outcome_observe (e : Expr) (c : Context) :
    (e.observe c).outcome = e.evaluate c := by
  induction e generalizing c with
  | named name inner ih =>
      simp only [observe, evaluate, outcome_bind, outcome_silent]
      congr 1
      funext found
      cases found with
      | some value => rfl
      | none => simp only [outcome_bind, outcome_silent, outcome_note, outcome_pure, ih, ok_bind,
          pure_eq_ok]
  | calculated inner f ih => simp [observe, evaluate, ih]
  | combined f left right ihl ihr => simp [observe, evaluate, ihl, ihr]
  | random lo hi => simp [observe, evaluate]
  | _ => rfl

@[simp] theorem outcome_observeEach (es : List Expr) (c : Context) :
    (observeEach es c).outcome = inOrder es c := by
  induction es generalizing c with
  | nil => rfl
  | cons e es ih => simp [observeEach, inOrder, ih]

/-! ## Names in the memo, case by case -/

theorem evaluate_named_found {name : String} {inner : Expr} {c : Context} {value : Value}
    (h : c.memo.find? name = some value) :
    (named (.text name) inner).evaluate c = .ok (value, c) := by
  simp only [evaluate, recorded?, h]
  rfl

theorem evaluate_named_missing {name : String} {inner : Expr} {c : Context}
    (h : c.memo.find? name = none) :
    (named (.text name) inner).evaluate c = (do
      let (value, c₁) ← inner.evaluate c
      let x ← value.toReal
      return (value, c₁.record name (.number (.real x)))) := by
  simp only [evaluate, recorded?, h]
  rfl

theorem observe_named_found {name : String} {inner : Expr} {c : Context} {value : Value}
    (h : c.memo.find? name = some value) :
    (named (.text name) inner).observe c = ⟨[.found name value], .ok (value, c)⟩ := by
  simp only [observe, recorded?, h]
  rfl

theorem observe_named_missing {name : String} {inner : Expr} {c : Context}
    (h : c.memo.find? name = none) :
    (named (.text name) inner).observe c = (do
      let (value, c₁) ← inner.observe c
      let x ← silent value.toReal
      note (.recorded name x)
      return (value, c₁.record name (.number (.real x)))) := by
  simp only [observe, recorded?, h]
  rfl

end Expr

/-! ## Shapes -/

/-- The evaluation of a shape with its events: those of its positions in their order. -/
def Shape.observe (s : Shape) (c : Context) : Observed (Form × Context) := do
  let (values, c₁) ← Expr.observeEach s.positions c
  let (form, _) ← Observed.silent (s.rebuild values)
  return (form, c₁)

theorem Shape.outcome_observe {s : Shape} (hs : s.Plain) {c : Context} (hc : c.memo.IsReal) :
    (s.observe c).outcome = s.evaluate c := by
  simp only [observe, Observed.outcome_bind, Expr.outcome_observeEach, Observed.outcome_silent,
    Observed.outcome_pure]
  cases hs.followsPositions hc with
  | fails fault hp hshape => rw [hp, hshape, error_bind]
  | gives values form c₁ _ hp hform hshape =>
      have hrebuild := hform []
      rw [List.append_nil] at hrebuild
      rw [hp, hshape, ok_bind, hrebuild, ok_bind]

/-- Putting values back in their places is no event. -/
theorem Shape.events_observe (s : Shape) (c : Context) :
    (s.observe c).events = (Expr.observeEach s.positions c).events := by
  unfold observe
  cases hp : Expr.inOrder s.positions c with
  | error fault => rw [Observed.events_bind_error (by rw [Expr.outcome_observeEach, hp])]
  | ok r =>
      rw [Observed.events_bind_ok (by rw [Expr.outcome_observeEach, hp])]
      cases hr : s.rebuild r.1 with
      | error fault =>
          rw [Observed.events_bind_error (by rw [Observed.outcome_silent, hr])]
          simp
      | ok r' =>
          rw [Observed.events_bind_ok (by rw [Observed.outcome_silent, hr])]
          simp

end SeededSketch
