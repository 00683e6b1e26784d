import Mathlib.Data.Finset.Lattice.Basic
import SeededSketch.Proofs.Builders
import SeededSketch.Proofs.Observation

/-!
# Sharing numbers under names

A name stands for one number throughout a pass: the first that is recorded under it.  This holds as
long as no expression that is named contains the same name again.  Where it does, the inner
occurrence records a number, the outer one computes with it and records its own result over it, and
the name changes its number in the middle of the pass.

`SharesNames` says of the events of a pass that every reference to a name gives the number first
recorded under it.  `Shape.Settled` says of a shape that whenever a named expression has itself
recorded its own name, its value is the number recorded.  `sharesNames_iff_settled` shows that the
second is exactly what the first needs, and that a shape in which no name lies inside itself has it.
-/

namespace SeededSketch

namespace Event

/-- The memo after the events, from the one before them. -/
def replay : List Event → Memo → Memo
  | [], memo => memo
  | recorded name x :: rest, memo => replay rest (memo.record name (.number (.real x)))
  | drawn :: rest, memo => replay rest memo
  | found .. :: rest, memo => replay rest memo

/-- The numbers recorded in the events, with their names, the first first. -/
def recordings : List Event → List (String × Value)
  | [] => []
  | recorded name x :: rest => (name, .number (.real x)) :: recordings rest
  | drawn :: rest => recordings rest
  | found .. :: rest => recordings rest

/-- What references to names gave, whether they found a number or recorded it. -/
def references : List Event → List (String × Value)
  | [] => []
  | recorded name x :: rest => (name, .number (.real x)) :: references rest
  | found name value :: rest => (name, value) :: references rest
  | drawn :: rest => references rest

/-- Every reference to a name gives the number first recorded under it; in particular whatever is
recorded under the name later is that number again. -/
def SharesNames (events : List Event) : Prop :=
  ∀ name value, (name, value) ∈ references events → (recordings events).lookup name = some value

/-- Nothing is recorded in place of another number. -/
def Keeps : List Event → Memo → Prop
  | [], _ => True
  | recorded name x :: rest, memo =>
    (∀ value, memo.find? name = some value → value = .number (.real x)) ∧
      Keeps rest (memo.record name (.number (.real x)))
  | drawn :: rest, memo => Keeps rest memo
  | found .. :: rest, memo => Keeps rest memo

/-- What is found is what the memo holds at that moment. -/
def Faithful : List Event → Memo → Prop
  | [], _ => True
  | recorded name x :: rest, memo => Faithful rest (memo.record name (.number (.real x)))
  | drawn :: rest, memo => Faithful rest memo
  | found name value :: rest, memo => memo.find? name = some value ∧ Faithful rest memo

theorem replay_append (events more : List Event) (memo : Memo) :
    replay (events ++ more) memo = replay more (replay events memo) := by
  induction events generalizing memo with
  | nil => rfl
  | cons event rest ih => cases event <;> exact ih _

theorem keeps_append (events more : List Event) (memo : Memo) :
    Keeps (events ++ more) memo ↔ Keeps events memo ∧ Keeps more (replay events memo) := by
  induction events generalizing memo with
  | nil => simp [Keeps, replay]
  | cons event rest ih => cases event <;> simp [Keeps, replay, ih, and_assoc]

theorem faithful_append (events more : List Event) (memo : Memo) :
    Faithful (events ++ more) memo ↔ Faithful events memo ∧ Faithful more (replay events memo) := by
  induction events generalizing memo with
  | nil => simp [Faithful, replay]
  | cons event rest ih => cases event <;> simp [Faithful, replay, ih, and_assoc]

/-- Where nothing is recorded in place of another number, a reference gives the number that the memo
held at first, or else the one recorded first. -/
theorem first_of_keeps {events : List Event} {memo : Memo} (hf : Faithful events memo)
    (hk : Keeps events memo) {name : String} {value : Value}
    (h : (name, value) ∈ references events) :
    (memo.find? name).or ((recordings events).lookup name) = some value := by
  induction events generalizing memo with
  | nil => cases h
  | cons event rest ih =>
      cases event with
      | drawn => exact ih hf hk h
      | found other found =>
          rcases List.mem_cons.mp h with heq | h
          · cases heq
            rw [hf.1, Option.some_or]
          · exact ih hf.2 hk h
      | recorded other x =>
          -- Whatever the memo holds under the name already is the number recorded here.
          have hother : (memo.find? other).or (some (.number (.real x))) =
              some (.number (.real x)) := by
            cases hm : memo.find? other with
            | none => rfl
            | some old => rw [hk.1 old hm, Option.some_or]
          rcases List.mem_cons.mp h with heq | h
          · cases heq
            simpa [recordings] using hother
          · have hrest := ih hf hk.2 h
            rw [Memo.find?_record] at hrest
            by_cases hname : name = other
            · subst hname
              rw [if_pos rfl, Option.some_or] at hrest
              rw [← hrest]
              simpa [recordings] using hother
            · have hne : (name == other) = false := by simpa using hname
              rw [if_neg hname] at hrest
              simpa only [recordings, List.lookup_cons, hne] using hrest

/-- The converse: when every reference gives the first number, no number takes another's place. -/
theorem keeps_of_first {events : List Event} {memo : Memo}
    (h : ∀ name value, (name, value) ∈ references events →
      (memo.find? name).or ((recordings events).lookup name) = some value) :
    Keeps events memo := by
  induction events generalizing memo with
  | nil => exact trivial
  | cons event rest ih =>
      cases event with
      | drawn => exact ih h
      | found other found =>
          exact ih fun name value hmem => h name value (List.mem_cons_of_mem _ hmem)
      | recorded other x =>
          have hother := h other (.number (.real x)) (List.mem_cons_self ..)
          have hold : ∀ value, memo.find? other = some value → value = .number (.real x) := by
            intro value hvalue
            rw [hvalue, Option.some_or] at hother
            exact Option.some.inj hother
          refine ⟨hold, ih fun name value hmem => ?_⟩
          have hfirst := h name value (List.mem_cons_of_mem _ hmem)
          rw [Memo.find?_record]
          by_cases hname : name = other
          · subst hname
            rw [if_pos rfl, Option.some_or, ← hother, hfirst]
          · have hne : (name == other) = false := by simpa using hname
            rw [if_neg hname]
            simpa only [recordings, List.lookup_cons, hne] using hfirst

/-- Starting from an empty memo, names are shared exactly if nothing is recorded in place of another
number. -/
theorem sharesNames_iff_keeps {events : List Event} (hf : Faithful events .empty) :
    SharesNames events ↔ Keeps events .empty := by
  constructor
  · intro h
    refine keeps_of_first fun name value hmem => ?_
    rw [Memo.find?_empty, Option.none_or]
    exact h name value hmem
  · intro hk name value hmem
    have hfirst := first_of_keeps hf hk hmem
    rwa [Memo.find?_empty, Option.none_or] at hfirst

/-- Where nothing is recorded in place of another number, the memo at the end holds under each name
the number from before, or else the one recorded first. -/
theorem find?_replay_of_keeps {events : List Event} {memo : Memo} (hk : Keeps events memo)
    (name : String) : (replay events memo).find? name =
      (memo.find? name).or ((recordings events).lookup name) := by
  induction events generalizing memo with
  | nil => simp [replay, recordings]
  | cons event rest ih =>
      cases event with
      | drawn => exact ih hk
      | found => exact ih hk
      | recorded other x =>
          rw [replay, ih hk.2, Memo.find?_record, recordings, List.lookup_cons]
          by_cases hname : name = other
          · subst hname
            rw [if_pos rfl, Option.some_or, beq_self_eq_true]
            cases hm : memo.find? name with
            | none => rfl
            | some old => rw [hk.1 old hm, Option.some_or]
          · have hne : (name == other) = false := by simpa using hname
            rw [if_neg hname, hne]

end Event

namespace Observed

open Event

variable {α β : Type}

/-- The events tell the truth about the memo: what is found was there, and the memo of the outcome
is the one from before with the recordings carried out. -/
structure Honest (run : Observed (α × Context)) (c : Context) : Prop where
  faithful : Faithful run.events c.memo
  memo : ∀ a c₁, run.outcome = .ok (a, c₁) → c₁.memo = replay run.events c.memo

variable {run : Observed (α × Context)} {c : Context}

theorem Honest.bind (h : run.Honest c) {f : α × Context → Observed (β × Context)}
    (hf : ∀ a c₁, run.outcome = .ok (a, c₁) → (f (a, c₁)).Honest c₁) : (run >>= f).Honest c := by
  cases hrun : run.outcome with
  | error fault =>
      constructor
      · rw [events_bind_error hrun]
        exact h.faithful
      · intro b c₂ hb
        rw [outcome_bind, hrun] at hb
        cases hb
  | ok r =>
      obtain ⟨a, c₁⟩ := r
      have hnext := hf a c₁ hrun
      have hmemo := h.memo a c₁ hrun
      constructor
      · rw [events_bind_ok hrun, faithful_append, ← hmemo]
        exact ⟨h.faithful, hnext.faithful⟩
      · intro b c₂ hb
        rw [outcome_bind, hrun, ok_bind] at hb
        rw [events_bind_ok hrun, replay_append, ← hmemo]
        exact hnext.memo b c₂ hb

/-- A step without events, before anything that is honest whatever the step gives. -/
theorem Honest.silent_bind {o : Except Fault α} {f : α → Observed (β × Context)}
    (hf : ∀ a, o = .ok a → (f a).Honest c) : (silent o >>= f).Honest c := by
  cases o with
  | error fault => exact ⟨trivial, fun _ _ h => by cases h⟩
  | ok a => exact hf a rfl

theorem Honest.pure (b : β) : (pure (b, c) : Observed (β × Context)).Honest c :=
  ⟨trivial, fun _ _ h => by cases h; rfl⟩

/-- In a sequence of runs nothing takes another number's place exactly if this holds of the first
run and, when that gives something, of the second. -/
theorem keeps_bind (h : run.Honest c) (f : α × Context → Observed (β × Context)) :
    Keeps (run >>= f).events c.memo ↔ Keeps run.events c.memo ∧
      ∀ a c₁, run.outcome = .ok (a, c₁) → Keeps (f (a, c₁)).events c₁.memo := by
  cases hrun : run.outcome with
  | error fault =>
      rw [events_bind_error hrun]
      simp
  | ok r =>
      obtain ⟨a, c₁⟩ := r
      rw [events_bind_ok hrun, keeps_append, ← h.memo a c₁ hrun]
      refine and_congr_right fun _ => ⟨?_, fun hf => hf a c₁ rfl⟩
      rintro hf _ _ ⟨⟩
      exact hf

/-- What is only computed has no events. -/
theorem events_compute (o : Except Fault α) (f : α → β) :
    (silent o >>= fun a => Pure.pure (f a)).events = [] := by
  cases o <;> rfl

end Observed

namespace Expr

open Event Observed

theorem observe_honest (e : Expr) (c : Context) : (e.observe c).Honest c := by
  induction e generalizing c with
  | constant v =>
      refine ⟨trivial, fun _ _ h => ?_⟩
      obtain ⟨x, -, hx⟩ := bind_eq_ok h
      cases hx
      rfl
  | random lo hi =>
      refine Honest.silent_bind fun r _ => ?_
      exact ⟨trivial, fun _ _ h => by cases h; rfl⟩
  | named name inner ih =>
      refine Honest.silent_bind fun found hfound => ?_
      cases found with
      | some value =>
          exact ⟨⟨recorded?_eq_some hfound, trivial⟩, fun _ _ h => by cases h; rfl⟩
      | none =>
          refine (ih c).bind fun value c₁ _ => ?_
          refine Honest.silent_bind fun x _ => ?_
          exact ⟨trivial, fun _ _ h => by cases h; rfl⟩
  | calculated inner f ih =>
      exact (ih c).bind fun value c₁ _ => Honest.silent_bind fun x _ => Honest.pure _
  | combined f left right ihl ihr =>
      refine (ihl c).bind fun a c₁ _ => (ihr c₁).bind fun b c₂ _ => ?_
      exact Honest.silent_bind fun x _ => Honest.pure _
  | stray v => exact ⟨trivial, fun _ _ h => by cases h⟩

theorem observeEach_honest (es : List Expr) (c : Context) : (observeEach es c).Honest c := by
  induction es generalizing c with
  | nil => exact Honest.pure _
  | cons e rest ih =>
      refine (e.observe_honest c).bind fun value c₁ _ => ?_
      exact (ih c₁).bind fun values c₂ _ => Honest.pure _

/-! ## The condition on expressions -/

/-- Wherever the expression of a name is evaluated for the name, it either leaves the name free or
gives the number that it has recorded under it. -/
def Settled : Expr → Context → Prop
  | named (.text name) inner, c => c.memo.find? name = none → inner.Settled c ∧
      ∀ x c₁, inner.evaluate c = .ok (.number (.real x), c₁) →
        ∀ value, c₁.memo.find? name = some value → value = .number (.real x)
  | calculated inner _, c => inner.Settled c
  | combined _ left right, c => left.Settled c ∧
      ∀ a c₁, left.evaluate c = .ok (a, c₁) → right.Settled c₁
  | _, _ => True

def SettledEach : List Expr → Context → Prop
  | [], _ => True
  | e :: rest, c => e.Settled c ∧ ∀ value c₁, e.evaluate c = .ok (value, c₁) → SettledEach rest c₁

/-- A built expression keeps the numbers of all names exactly if it is settled. -/
theorem Built.keeps_iff {e : Expr} (he : e.Built) {c : Context} (hc : c.memo.IsReal) :
    Keeps (e.observe c).events c.memo ↔ e.Settled c := by
  induction he generalizing c with
  | constant x => exact Iff.rfl
  | random lo hi =>
      simp only [Settled, iff_true, observe]
      cases c.stream.draw (.number (.real lo)) (.number (.real hi)) <;> exact trivial
  | @named name inner _ ih =>
      cases hfind : c.memo.find? name with
      | some value =>
          rw [observe_named_found hfind]
          simp [Keeps, Settled, hfind]
      | none =>
          rw [observe_named_missing hfind, keeps_bind (inner.observe_honest c), ih hc]
          simp only [Settled, hfind, true_implies, outcome_observe]
          refine and_congr_right fun _ => ⟨?_, ?_⟩
          · intro h x c₁ hrun value hvalue
            exact (h _ c₁ hrun).1 value hvalue
          · intro h value c₁ hrun
            obtain ⟨x, rfl⟩ := (isReal_of_evaluate inner hc hrun).1
            exact ⟨h x c₁ hrun, trivial⟩
  | calculated f _ ih =>
      rw [observe, keeps_bind (observe_honest _ c), ih hc]
      simp [events_compute, Keeps, Settled]
  | combined f _ _ ihl ihr =>
      rw [observe, keeps_bind (observe_honest _ c), ihl hc]
      simp only [Settled, outcome_observe]
      refine and_congr_right fun _ => forall_congr' fun a => forall_congr' fun c₁ =>
        imp_congr_right fun hrun => ?_
      rw [keeps_bind (observe_honest _ c₁), ihr (isReal_of_evaluate _ hc hrun).2]
      simp [events_compute, Keeps]

theorem keepsEach_iff {es : List Expr} (hes : ∀ e ∈ es, e.Built) {c : Context}
    (hc : c.memo.IsReal) : Keeps (observeEach es c).events c.memo ↔ SettledEach es c := by
  induction es generalizing c with
  | nil => exact Iff.rfl
  | cons e rest ih =>
      rw [List.forall_mem_cons] at hes
      rw [observeEach, keeps_bind (e.observe_honest c), hes.1.keeps_iff hc]
      simp only [SettledEach, outcome_observe]
      refine and_congr_right fun _ => forall_congr' fun value => forall_congr' fun c₁ =>
        imp_congr_right fun hrun => ?_
      rw [keeps_bind (observeEach_honest rest c₁), ih hes.2 (isReal_of_evaluate e hc hrun).2]
      simp [Keeps]

/-! ## Names that do not lie inside themselves -/

/-- The names in an expression, at any depth. -/
def mentions : Expr → Finset String
  | named name inner => insert name.display inner.mentions
  | calculated inner _ => inner.mentions
  | combined _ left right => left.mentions ∪ right.mentions
  | _ => ∅

/-- No name lies inside the expression of that name. -/
def SelfFree : Expr → Prop
  | named name inner => name.display ∉ inner.mentions ∧ inner.SelfFree
  | calculated inner _ => inner.SelfFree
  | combined _ left right => left.SelfFree ∧ right.SelfFree
  | _ => True

instance decidableSelfFree : (e : Expr) → Decidable e.SelfFree
  | constant _ => isTrue trivial
  | random .. => isTrue trivial
  | named name inner =>
    have := decidableSelfFree inner
    inferInstanceAs (Decidable (name.display ∉ inner.mentions ∧ inner.SelfFree))
  | calculated inner _ => decidableSelfFree inner
  | combined _ left right =>
    have := decidableSelfFree left
    have := decidableSelfFree right
    inferInstanceAs (Decidable (left.SelfFree ∧ right.SelfFree))
  | stray _ => isTrue trivial

/-- Evaluating an expression records nothing but names that are in it and were missing at the
start. -/
theorem Built.find?_eq_or_missing {e : Expr} (he : e.Built) {c c₁ : Context} {value : Value}
    (hrun : e.evaluate c = .ok (value, c₁)) (other : String) :
    c₁.memo.find? other = c.memo.find? other ∨
      (other ∈ e.mentions ∧ c.memo.find? other = none) := by
  induction he generalizing c c₁ value with
  | constant x =>
      obtain ⟨x, -, hx⟩ := bind_eq_ok hrun
      cases hx
      exact .inl rfl
  | random lo hi =>
      obtain ⟨r, -, hr⟩ := bind_eq_ok hrun
      cases hr
      exact .inl rfl
  | @named name inner _ ih =>
      cases hfind : c.memo.find? name with
      | some found =>
          rw [evaluate_named_found hfind] at hrun
          cases hrun
          exact .inl rfl
      | none =>
          rw [evaluate_named_missing hfind] at hrun
          obtain ⟨r, hr, hrun⟩ := bind_eq_ok hrun
          obtain ⟨x, -, hrun⟩ := bind_eq_ok hrun
          cases hrun
          by_cases hother : other = name
          · rw [hother]
            exact .inr ⟨Finset.mem_insert_self name inner.mentions, hfind⟩
          · rw [Context.memo_record, Memo.find?_record, if_neg hother]
            exact (ih hr).imp id fun h => ⟨Finset.mem_insert_of_mem h.1, h.2⟩
  | calculated f _ ih =>
      obtain ⟨r, hr, hrun⟩ := bind_eq_ok hrun
      obtain ⟨x, -, hrun⟩ := bind_eq_ok hrun
      cases hrun
      exact ih hr
  | combined f _ _ ihl ihr =>
      obtain ⟨r, hr, hrun⟩ := bind_eq_ok hrun
      obtain ⟨r', hr', hrun⟩ := bind_eq_ok hrun
      obtain ⟨x, -, hrun⟩ := bind_eq_ok hrun
      cases hrun
      rcases ihl hr with hleft | ⟨hmem, hmissing⟩
      · -- The left side has left the name alone, so the right side meets it as it was.
        rw [← hleft]
        exact (ihr hr').imp id fun h => ⟨Finset.mem_union_right _ h.1, h.2⟩
      · exact .inr ⟨Finset.mem_union_left _ hmem, hmissing⟩

/-- Evaluating an expression does not touch a name that is not in it. -/
theorem Built.find?_of_not_mem {e : Expr} (he : e.Built) {c c₁ : Context} {value : Value}
    {other : String} (hother : other ∉ e.mentions) (hrun : e.evaluate c = .ok (value, c₁)) :
    c₁.memo.find? other = c.memo.find? other :=
  (he.find?_eq_or_missing hrun other).resolve_right fun h => hother h.1

theorem Built.settled {e : Expr} (he : e.Built) (hfree : e.SelfFree) (c : Context) :
    e.Settled c := by
  induction he generalizing c with
  | constant | random => exact trivial
  | @named name inner h ih =>
      intro hnone
      have hout : name ∉ inner.mentions := hfree.1
      refine ⟨ih hfree.2 c, fun x c₁ hrun value hvalue => ?_⟩
      -- The name is still free after its own expression, so nothing can differ.
      rw [h.find?_of_not_mem hout hrun, hnone] at hvalue
      cases hvalue
  | calculated f _ ih => exact ih hfree c
  | combined f _ _ ihl ihr => exact ⟨ihl hfree.1 c, fun _ c₁ _ => ihr hfree.2 c₁⟩

theorem settledEach {es : List Expr} (hes : ∀ e ∈ es, e.Built) (hfree : ∀ e ∈ es, e.SelfFree)
    (c : Context) : SettledEach es c := by
  induction es generalizing c with
  | nil => exact trivial
  | cons e rest ih =>
      rw [List.forall_mem_cons] at hes hfree
      exact ⟨hes.1.settled hfree.1 c, fun _ c₁ _ => ih hes.2 hfree.2 c₁⟩

end Expr

/-! ## Passes -/

namespace Shape

open Event

/-- The shape is settled at all its positions in the course of an evaluation that starts in `c`. -/
def Settled (s : Shape) (c : Context) : Prop := Expr.SettledEach s.positions c

/-- No name in the shape lies inside the expression of that name. -/
def SelfFree (s : Shape) : Prop := ∀ e ∈ s.positions, e.SelfFree

/-- In a pass all references to a name share the number first recorded under it exactly if every
named expression that records its own name gives the number recorded, and so always if no name lies
inside itself.  The numbers shared are then those of the memo at the end of the pass. -/
theorem sharesNames_iff_settled (s : Shape) (hs : s.Built) (stream : Stream) :
    (SharesNames (s.observe (.fresh stream)).events ↔ s.Settled (.fresh stream)) ∧
      (s.SelfFree → SharesNames (s.observe (.fresh stream)).events) ∧
      ∀ form c, s.evaluate (.fresh stream) = .ok (form, c) →
        SharesNames (s.observe (.fresh stream)).events →
        ∀ name, c.memo.find? name =
          (recordings (s.observe (.fresh stream)).events).lookup name := by
  have hreal : (Context.fresh stream).memo.IsReal := Memo.isReal_empty
  have hhonest := Expr.observeEach_honest s.positions (.fresh stream)
  have hkeeps := sharesNames_iff_keeps hhonest.faithful
  have hsettled := Expr.keepsEach_iff hs.of_mem_positions hreal
  rw [events_observe]
  refine ⟨hkeeps.trans hsettled, fun hfree => ?_, fun form c hrun hshares name => ?_⟩
  · exact hkeeps.mpr (hsettled.mpr (Expr.settledEach hs.of_mem_positions hfree _))
  · cases hs.plain.followsPositions hreal with
    | fails fault _ hshape =>
        rw [hshape] at hrun
        cases hrun
    | gives values form' c' _ hp _ hshape =>
        rw [hshape] at hrun
        cases hrun
        rw [hhonest.memo values c (by rw [Expr.outcome_observeEach, hp]),
          Context.memo_fresh, find?_replay_of_keeps (hkeeps.mp hshares), Memo.find?_empty,
          Option.none_or]

/-- The first sketch has one name, which stands for a draw. -/
theorem sketch_sharesNames :
    Demo.sketch.Built ∧ Demo.sketch.SelfFree ∧
      SharesNames (Demo.sketch.observe (.fresh (.ofSeed 0))).events := by
  have hfree : Demo.sketch.SelfFree := by
    unfold SelfFree
    decide
  have hshares := sharesNames_iff_settled Demo.sketch Demo.sketch_built (.ofSeed 0)
  exact ⟨Demo.sketch_built, hfree, hshares.2.1 hfree⟩

/-- A shape whose name `x` lies inside itself: `x` is one more than `x`, which is one. -/
def selfNamed : Shape :=
  .move (.named (.text "x") (.combined .add (.named (.text "x") (.ofReal 1.0)) (.ofReal 1.0)))
    (.named (.text "x") (.ofReal 1.0)) (.rectangle (.ofReal 1.0) (.ofReal 1.0)
      (.hsla (.ofReal 0.0) (.ofReal 1.0) (.ofReal 0.5) (.ofReal 1.0)))

theorem selfNamed_built : selfNamed.Built := by
  have hx : (Expr.named (.text "x") (.ofReal 1.0)).Built := .named "x" (.constant _)
  refine .move (.named "x" (.combined _ hx (.constant _))) hx ?_
  exact .rectangle (.constant _) (.constant _)
    (.hsla (.constant _) (.constant _) (.constant _) (.constant _))

/-- Two numbers are recorded under `x`, one and then two, and two is what the reference after them
finds. -/
theorem selfNamed_not_sharesNames :
    selfNamed.Built ∧
      references (selfNamed.observe (.fresh (.ofSeed 0))).events =
        [("x", .number (.real 1.0)), ("x", .number (.real 2.0)), ("x", .number (.real 2.0))] ∧
      ¬ SharesNames (selfNamed.observe (.fresh (.ofSeed 0))).events := by
  have hrefs : references (selfNamed.observe (.fresh (.ofSeed 0))).events =
      [("x", .number (.real 1.0)), ("x", .number (.real 2.0)), ("x", .number (.real 2.0))] := rfl
  have hfirst : (recordings (selfNamed.observe (.fresh (.ofSeed 0))).events).lookup "x" =
      some (.number (.real 1.0)) := rfl
  refine ⟨selfNamed_built, hrefs, fun hshares => ?_⟩
  have htwo := hshares "x" (.number (.real 2.0)) (by rw [hrefs]; simp)
  rw [hfirst] at htwo
  simp only [Option.some.injEq, Value.number.injEq, Number.real.injEq] at htwo
  exact absurd htwo (by decide)

end Shape
end SeededSketch
