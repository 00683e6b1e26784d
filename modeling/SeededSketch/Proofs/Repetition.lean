import SeededSketch.Proofs.Draws
import SeededSketch.Proofs.Replacement

/-!
# Evaluating again

Within a pass a name keeps what has been recorded under it.  An expression all of whose draws lie
under names is therefore settled once it has been evaluated: to evaluate it again gives the same
number, takes no draw and records nothing.

The two evaluations go different ways.  The first may have to record names inside the expressions
of other names, and record one of them over.  But all that lies inside a name is passed over the
second time; outside of names, what the first evaluation has found or recorded is still in the memo
when it ends (`Built.find?_of_evaluate`).  So the induction asks nothing of the second context but
that it still holds what the first evaluation left (`Built.observe_again`), and under a name it
need not go on.

`evaluate_again` states it for expressions and for shapes, with the events of the second run.
-/

namespace SeededSketch

/-- The later memo still holds what the memo holds, name by name. -/
def Memo.KeptBy (memo later : Memo) : Prop :=
  ∀ name value, memo.find? name = some value → later.find? name = some value

def Event.IsFound : Event → Prop
  | found .. => True
  | _ => False

/-! ## Runs that only look names up -/

namespace Observed

variable {α β : Type} {run : Observed (α × Context)} {a : α} {b : β} {c : Context}

/-- The run gives `a`, and all that happens on the way is that names are found: the context stays
as it is. -/
structure OnlyFinds (run : Observed (α × Context)) (a : α) (c : Context) : Prop where
  outcome : run.outcome = .ok (a, c)
  events : ∀ event ∈ run.events, event.IsFound

theorem OnlyFinds.pure (a : α) (c : Context) :
    OnlyFinds (Pure.pure (a, c) : Observed (α × Context)) a c :=
  ⟨rfl, fun _ h => nomatch h⟩

theorem OnlyFinds.bind (h : run.OnlyFinds a c) {f : α × Context → Observed (β × Context)}
    (hf : (f (a, c)).OnlyFinds b c) : (run >>= f).OnlyFinds b c := by
  constructor
  · rw [outcome_bind, h.outcome, ok_bind, hf.outcome]
  · rw [events_bind_ok h.outcome, List.forall_mem_append]
    exact ⟨h.events, hf.events⟩

/-- What is only computed looks nothing up. -/
theorem OnlyFinds.compute {γ : Type} {o : Except Fault γ} {x : γ} (h : o = .ok x) (g : γ → α)
    (c : Context) : OnlyFinds (silent o >>= fun x => Pure.pure (g x, c)) (g x) c := by
  subst h
  exact .pure (g x) c

end Observed

/-! ## Expressions -/

namespace Expr

open Observed

/-- Every draw of the expression lies inside something that has a name. -/
def DrawsUnderNames : Expr → Prop
  | random .. => False
  | calculated inner _ => inner.DrawsUnderNames
  | combined _ left right => left.DrawsUnderNames ∧ right.DrawsUnderNames
  | _ => True

/-- In every memo that still holds what the evaluation left, evaluating again only looks up. -/
theorem Built.observe_again {e : Expr} (he : e.Built) (hdraws : e.DrawsUnderNames)
    {c c₁ later : Context} {value : Value} (hc : c.memo.IsReal)
    (hrun : e.evaluate c = .ok (value, c₁)) (hkept : c₁.memo.KeptBy later.memo) :
    (e.observe later).OnlyFinds value later := by
  induction he generalizing c c₁ value with
  | constant x =>
      cases hrun
      exact .pure _ later
  | random lo hi => exact hdraws.elim
  | @named name inner _ _ =>
      -- Found or recorded by the first evaluation, the name is in its memo with its value.
      have hrecorded : c₁.memo.find? name = some value := by
        cases hfind : c.memo.find? name with
        | some found =>
            rw [evaluate_named_found hfind] at hrun
            cases hrun
            exact hfind
        | none =>
            rw [evaluate_named_missing hfind] at hrun
            obtain ⟨⟨inside, c₂⟩, hinner, hrun⟩ := bind_eq_ok hrun
            obtain ⟨x, rfl⟩ := (isReal_of_evaluate inner hc hinner).1
            cases hrun
            rw [Context.memo_record, Memo.find?_record, if_pos rfl]
      rw [observe_named_found (hkept name value hrecorded)]
      exact ⟨rfl, by simp [Event.IsFound]⟩
  | @calculated inner f _ ih =>
      obtain ⟨⟨inside, c₂⟩, hinner, hrun⟩ := bind_eq_ok hrun
      obtain ⟨x, hx, hrun⟩ := bind_eq_ok hrun
      cases hrun
      exact (ih hdraws hc hinner hkept).bind (.compute hx _ later)
  | @combined f left right hl hr ihl ihr =>
      obtain ⟨⟨a, c₂⟩, hleft, hrun⟩ := bind_eq_ok hrun
      obtain ⟨⟨b, c₃⟩, hright, hrun⟩ := bind_eq_ok hrun
      obtain ⟨x, hx, hrun⟩ := bind_eq_ok hrun
      cases hrun
      have hc₂ : c₂.memo.IsReal := (isReal_of_evaluate left hc hleft).2
      have hkeptLeft : c₂.memo.KeptBy later.memo := fun name found hfound =>
        hkept name found (hr.find?_of_evaluate hfound hright)
      have hagainLeft := ihl hdraws.1 hc hleft hkeptLeft
      have hagainRight := ihr hdraws.2 hc₂ hright hkept
      exact hagainLeft.bind (hagainRight.bind (.compute hx _ later))

theorem observeEach_again {es : List Expr} (hes : ∀ e ∈ es, e.Built)
    (hdraws : ∀ e ∈ es, e.DrawsUnderNames) {c c₁ later : Context} {values : List Value}
    (hc : c.memo.IsReal) (hrun : inOrder es c = .ok (values, c₁))
    (hkept : c₁.memo.KeptBy later.memo) : (observeEach es later).OnlyFinds values later := by
  induction es generalizing c c₁ values with
  | nil =>
      cases hrun
      exact .pure _ later
  | cons e rest ih =>
      rw [List.forall_mem_cons] at hes hdraws
      obtain ⟨value, more, c₂, hvalue, hmore, rfl⟩ := exists_of_inOrder_cons hrun
      have hc₂ : c₂.memo.IsReal := (isReal_of_evaluate e hc hvalue).2
      have hkeptFirst : c₂.memo.KeptBy later.memo := fun name found hfound =>
        hkept name found (find?_of_inOrder hes.2 hfound hmore)
      have hagainFirst := hes.1.observe_again hdraws.1 hc hvalue hkeptFirst
      have hagainRest := ih hes.2 hdraws.2 hc₂ hmore hkept
      exact hagainFirst.bind (hagainRest.bind (.pure _ later))

/-- One more than a draw, all under the name `x`, and so is the draw. -/
def knot : Expr :=
  named (.text "x") (combined .add
    (named (.text "x") (random (.number (.real 0.0)) (.number (.real 1.0)))) (ofReal 1.0))

theorem knot_built : knot.Built :=
  .named "x" (.combined _ (.named "x" (.random 0.0 1.0)) (.constant _))

theorem knot_total : knot.Total :=
  ⟨trivial, trivial, Binary.isTotal_of_mem_all (by simp [Binary.all])⟩

end Expr

/-! ## Shapes -/

namespace Shape

/-- Every draw of the shape lies inside something that has a name. -/
def DrawsUnderNames (s : Shape) : Prop := ∀ e ∈ s.positions, e.DrawsUnderNames

theorem Built.observe_again {s : Shape} (hs : s.Built) (hdraws : s.DrawsUnderNames)
    {c c₁ later : Context} {form : Form} (hc : c.memo.IsReal)
    (hrun : s.evaluate c = .ok (form, c₁)) (hkept : c₁.memo.KeptBy later.memo) :
    (s.observe later).OnlyFinds form later := by
  obtain ⟨values, rest, hvalues, hform⟩ := hs.plain.values_of_evaluate hc hrun
  have hagain := Expr.observeEach_again hs.of_mem_positions hdraws hc hvalues hkept
  exact hagain.bind (.compute hform Prod.fst later)

/-- Within a pass, evaluating again changes nothing.  Where every draw of a built expression or of
a built shape lies inside something that has a name, and it has been evaluated in a context with a
memo of doubles, then in the context that this left it gives the same number or form once more and
leaves the context as it is.  Nothing happens on the way but that names are found: there is no
draw, and nothing is recorded. -/
theorem evaluate_again (c : Context) (hc : c.memo.IsReal) :
    (∀ e : Expr, e.Built → e.DrawsUnderNames → ∀ value c₁, e.evaluate c = .ok (value, c₁) →
      e.evaluate c₁ = .ok (value, c₁) ∧ ∀ event ∈ (e.observe c₁).events, event.IsFound) ∧
    (∀ s : Shape, s.Built → s.DrawsUnderNames → ∀ form c₁, s.evaluate c = .ok (form, c₁) →
      s.evaluate c₁ = .ok (form, c₁) ∧ ∀ event ∈ (s.observe c₁).events, event.IsFound) := by
  have hsame (memo : Memo) : memo.KeptBy memo := fun _ _ h => h
  constructor
  · intro e he hdraws value c₁ hrun
    have hagain := he.observe_again hdraws hc hrun (hsame c₁.memo)
    rw [← Expr.outcome_observe]
    exact ⟨hagain.outcome, hagain.events⟩
  · intro s hs hdraws form c₁ hrun
    have hc₁ : c₁.memo.IsReal := hs.plain.isReal_of_evaluate hc hrun
    have hagain := hs.observe_again hdraws hc hrun (hsame c₁.memo)
    rw [← outcome_observe hs.plain hc₁]
    exact ⟨hagain.outcome, hagain.events⟩

/-- A shape that refers to `x` again, inside of `y`, which lies inside itself as well. -/
def knotted : Shape :=
  .move .knot (.named (.text "y") (.combined .mul .knot
      (.named (.text "y") (.random (.number (.real 0.0)) (.number (.real 1.0))))))
    (.rectangle (.ofReal 1.0) (.ofReal 1.0)
      (.hsla (.ofReal 0.0) (.ofReal 1.0) (.ofReal 0.5) (.ofReal 1.0)))

theorem knotted_built : knotted.Built := by
  refine .move Expr.knot_built ?_ ?_
  · exact .named "y" (.combined _ Expr.knot_built (.named "y" (.random 0.0 1.0)))
  · exact .rectangle (.constant _) (.constant _)
      (.hsla (.constant _) (.constant _) (.constant _) (.constant _))

theorem knotted_total : knotted.Total := by
  have hmul : Binary.mul.IsTotal := Binary.isTotal_of_mem_all (by simp [Binary.all])
  simp only [Shape.Total, knotted, positions, Paint.positions, List.forall_mem_cons]
  refine ⟨Expr.knot_total, ⟨Expr.knot_total, trivial, hmul⟩, ?_⟩
  exact ⟨trivial, trivial, trivial, trivial, trivial, trivial, by simp⟩

/-- The first time two numbers are drawn, and both names are recorded over; the second time nothing
happens any more. -/
theorem evaluate_again_knotted :
    let c : Context := .fresh (.ofSeed 1)
    c.memo.IsReal ∧ Expr.knot.Built ∧ Expr.knot.DrawsUnderNames ∧ knotted.Built ∧
      knotted.DrawsUnderNames ∧ (knotted.observe c).drawCount = 2 ∧
      (∃ value c₁, Expr.knot.evaluate c = .ok (value, c₁) ∧
        Expr.knot.evaluate c₁ = .ok (value, c₁)) ∧
      ∃ form c₁, knotted.evaluate c = .ok (form, c₁) ∧ knotted.evaluate c₁ = .ok (form, c₁) ∧
        ∀ event ∈ (knotted.observe c₁).events, event.IsFound := by
  intro c
  have hc : c.memo.IsReal := Memo.isReal_empty
  have hready : c.stream.Ready := Stream.ready_next _
  have hunder : knotted.DrawsUnderNames := by
    simp [DrawsUnderNames, knotted, Expr.knot, positions, Paint.positions, Expr.DrawsUnderNames,
      Expr.ofReal]
  obtain ⟨hexpr, hshape⟩ := evaluate_again c hc
  obtain ⟨value, c₁, hvalue, -⟩ :=
    (Expr.knot_built.observe_draws Expr.knot_total hc).completes (.inr hready)
  obtain ⟨form, c₂, hform, hcount, -⟩ :=
    (knotted_built.consumes knotted_total hc).completes (.inr hready)
  have hdraws : knotted.draws c.memo.names = 2 := by decide
  rw [Expr.outcome_observe] at hvalue
  refine ⟨hc, Expr.knot_built, trivial, knotted_built, hunder, hcount.trans hdraws, ?_, ?_⟩
  · exact ⟨value, c₁, hvalue, (hexpr .knot Expr.knot_built trivial value c₁ hvalue).1⟩
  · exact ⟨form, c₂, hform, hshape knotted knotted_built hunder form c₂ hform⟩

end Shape
end SeededSketch
