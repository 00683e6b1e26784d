import SeededSketch.Proofs.Builders
import SeededSketch.Proofs.Observation
import SeededSketch.Proofs.Stream

/-!
# How much randomness an evaluation takes

What a built expression draws is settled before any number is known: it depends on the expression
and on the names that are recorded already.  `Expr.draws` counts the draws and `Expr.namesAfter`
gives the names recorded afterwards, both by following the order of evaluation, and neither looks
at a number.

`Observed.Draws` says that a run takes exactly that much from its context.  Runs in sequence add
up (`Observed.Draws.bind`), which carries the count from draws and names through expressions and
lists of positions to whole shapes.  The conclusion is `evaluate_consumes_equally`: two contexts
with the same names recorded, whatever is recorded under them and whatever the streams are, see the
same number of draws.
-/

namespace SeededSketch

/-! ## Counting without evaluating -/

namespace Expr

/-- The recorded names after an expression, from those before it. -/
def namesAfter : Expr → Finset String → Finset String
  | named (.text name) inner, names =>
    if name ∈ names then names else insert name (inner.namesAfter names)
  | calculated inner _, names => inner.namesAfter names
  | combined _ left right, names => right.namesAfter (left.namesAfter names)
  | _, names => names

/-- The number of draws of an expression where `names` are recorded.  An expression under a recorded
name is passed over. -/
def draws : Expr → Finset String → Nat
  | random .., _ => 1
  | named (.text name) inner, names => if name ∈ names then 0 else inner.draws names
  | calculated inner _, names => inner.draws names
  | combined _ left right, names => left.draws names + right.draws (left.namesAfter names)
  | _, _ => 0

def namesAfterEach : List Expr → Finset String → Finset String
  | [], names => names
  | e :: rest, names => namesAfterEach rest (e.namesAfter names)

def drawsEach : List Expr → Finset String → Nat
  | [], _ => 0
  | e :: rest, names => e.draws names + drawsEach rest (e.namesAfter names)

end Expr

/-- The number of draws of a shape where `names` are recorded. -/
def Shape.draws (s : Shape) (names : Finset String) : Nat := Expr.drawsEach s.positions names

/-- The recorded names after a shape, from those before it. -/
def Shape.namesAfter (s : Shape) (names : Finset String) : Finset String :=
  Expr.namesAfterEach s.positions names

/-! ## Runs that draw a given number of times -/

def Event.isDrawn : Event → Bool
  | drawn => true
  | _ => false

namespace Observed

variable {α β : Type}

/-- How often a run draws. -/
def drawCount (run : Observed α) : Nat := run.events.countP Event.isDrawn

/-- From the context `c` the run draws exactly `k` times and leaves exactly `names` recorded; its
result is `good`.  It fails only where it has to draw from a stream that is not ready. -/
structure Draws (run : Observed (α × Context)) (good : α → Prop) (c : Context) (k : Nat)
    (names : Finset String) : Prop where
  completes : k = 0 ∨ c.stream.Ready → ∃ a c₁, run.outcome = .ok (a, c₁) ∧ good a ∧
    run.drawCount = k ∧ c₁.stream = Stream.next^[2 * k] c.stream ∧ c₁.memo.IsReal ∧
    c₁.memo.names = names
  fails : ¬ (k = 0 ∨ c.stream.Ready) → run.outcome = .error .negativeShift

variable {run : Observed (α × Context)} {good : α → Prop} {good' : β → Prop} {c : Context}
  {k k' : Nat} {names names' : Finset String}

/-- A run that leaves the stream alone draws nothing. -/
theorem Draws.quiet {a : α} {c₁ : Context} {events : List Event} (ha : good a)
    (hevents : events.countP Event.isDrawn = 0) (hstream : c₁.stream = c.stream)
    (hc₁ : c₁.memo.IsReal) : Draws ⟨events, .ok (a, c₁)⟩ good c 0 c₁.memo.names where
  completes _ := ⟨a, c₁, rfl, ha, hevents, hstream, hc₁, rfl⟩
  fails h := absurd (Or.inl rfl) h

/-- The draws of two runs in sequence add up, and the second goes on from the names that the first
has left. -/
theorem Draws.bind (h : run.Draws good c k names) {f : α × Context → Observed (β × Context)}
    (hf : ∀ a c₁, good a → c₁.memo.IsReal → c₁.memo.names = names →
      (f (a, c₁)).Draws good' c₁ k' names') :
    (run >>= f).Draws good' c (k + k') names' := by
  constructor
  · intro hready
    have hfirst : k = 0 ∨ c.stream.Ready := by
      rcases hready with hk | hready
      · exact Or.inl (by omega)
      · exact Or.inr hready
    obtain ⟨a, c₁, hrun, ha, hcount, hstream, hc₁, hnames⟩ := h.completes hfirst
    have hsecond : k' = 0 ∨ c₁.stream.Ready := by
      rcases hready with hk | hready
      · exact Or.inl (by omega)
      · exact Or.inr (hstream ▸ hready.iterate _)
    obtain ⟨b, c₂, hrun', hb, hcount', hstream', hc₂, hnames'⟩ :=
      (hf a c₁ ha hc₁ hnames).completes hsecond
    refine ⟨b, c₂, ?_, hb, ?_, ?_, hc₂, hnames'⟩
    · rw [outcome_bind, hrun, ok_bind, hrun']
    · rw [drawCount, events_bind_ok hrun, List.countP_append]
      exact congrArg₂ (· + ·) hcount hcount'
    · rw [hstream', hstream, ← Function.iterate_add_apply]
      congr 1
      omega
  · intro hready
    -- Either the first run fails at a draw of its own, or it draws nothing and the second one fails.
    by_cases hfirst : k = 0 ∨ c.stream.Ready
    · obtain ⟨a, c₁, hrun, ha, -, hstream, hc₁, hnames⟩ := h.completes hfirst
      have hk : k = 0 := hfirst.resolve_right fun hr => hready (Or.inr hr)
      have hsame : c₁.stream = c.stream := by rw [hstream, hk]; rfl
      have hsecond : ¬ (k' = 0 ∨ c₁.stream.Ready) := by
        rw [hsame]
        exact fun hor => hready (hor.imp_left fun hk' => by omega)
      rw [outcome_bind, hrun, ok_bind]
      exact (hf a c₁ ha hc₁ hnames).fails hsecond
    · rw [outcome_bind, h.fails hfirst, error_bind]

/-- A second run without draws costs nothing more. -/
theorem Draws.bind_quiet (h : run.Draws good c k names) {f : α × Context → Observed (β × Context)}
    (hf : ∀ a c₁, good a → c₁.memo.IsReal → c₁.memo.names = names →
      (f (a, c₁)).Draws good' c₁ 0 names') :
    (run >>= f).Draws good' c k names' := by
  have hsum : (run >>= f).Draws good' c (k + 0) names' := h.bind hf
  exact hsum

end Observed

/-! ## Built sketches -/

namespace Expr

open Observed

/-- An evaluation of a built expression draws as often as the expression says. -/
theorem Built.observe_draws {e : Expr} (he : e.Built) (ht : e.Total) {c : Context}
    (hc : c.memo.IsReal) :
    (e.observe c).Draws Value.IsReal c (e.draws c.memo.names) (e.namesAfter c.memo.names) := by
  induction he generalizing c with
  | constant x => exact Draws.quiet (Value.isReal_real x) rfl rfl hc
  | random lo hi =>
      constructor
      · intro hready
        have hs : c.stream.Ready := hready.resolve_left (by simp [draws])
        obtain ⟨x, hx⟩ := Stream.draw_of_ready hs lo hi
        refine ⟨_, c.withStream c.stream.next.next, ?_, Value.isReal_real x, ?_, rfl, hc, rfl⟩
        · rw [outcome_observe, evaluate, hx]
          rfl
        · simp only [drawCount, observe]
          rw [events_bind_ok (by rw [outcome_silent, hx])]
          rfl
      · intro hready
        have hs : ¬ c.stream.Ready := fun h => hready (Or.inr h)
        rw [outcome_observe, evaluate, Stream.draw_of_not_ready hs]
        rfl
  | @named name inner h ih =>
      by_cases hname : name ∈ c.memo.names
      · cases hfind : c.memo.find? name with
        | none => exact absurd hname ((hc.find?_eq_none_iff name).mp hfind)
        | some value =>
            rw [observe_named_found hfind, draws, namesAfter, if_pos hname, if_pos hname]
            exact Draws.quiet (hc.find? hfind) rfl rfl hc
      · rw [observe_named_missing ((hc.find?_eq_none_iff name).mpr hname), draws, namesAfter,
          if_neg hname, if_neg hname]
        refine (ih ht hc).bind_quiet ?_
        rintro _ c₁ ⟨x, rfl⟩ hc₁ hnames
        have hafter : (c₁.record name (.number (.real x))).memo.IsReal := hc₁.record name x
        rw [← hnames, ← Memo.names_record c₁.memo name (.number (.real x))]
        exact Draws.quiet (Value.isReal_real x) rfl rfl hafter
  | calculated f _ ih =>
      rw [draws, namesAfter]
      refine (ih ht.1 hc).bind_quiet ?_
      rintro _ c₁ ⟨x, rfl⟩ hc₁ hnames
      rw [← hnames]
      obtain ⟨y, hy⟩ := ht.2 x
      simp only [Unary.apply, hy]
      exact Draws.quiet (Value.isReal_real y) rfl rfl hc₁
  | combined f _ _ ihl ihr =>
      rw [draws, namesAfter]
      refine (ihl ht.1 hc).bind ?_
      rintro _ c₁ ⟨x, rfl⟩ hc₁ hnames
      rw [← hnames]
      refine (ihr ht.2.1 hc₁).bind_quiet ?_
      rintro _ c₂ ⟨y, rfl⟩ hc₂ hnames'
      rw [← hnames']
      obtain ⟨z, hz⟩ := ht.2.2 x y
      simp only [Binary.apply, hz]
      exact Draws.quiet (Value.isReal_real z) rfl rfl hc₂

/-- Expressions one after the other draw as often as they do together. -/
theorem observeEach_draws {es : List Expr} (hes : ∀ e ∈ es, e.Built) (ht : ∀ e ∈ es, e.Total)
    {c : Context} (hc : c.memo.IsReal) :
    (observeEach es c).Draws (fun values => ∀ value ∈ values, value.IsReal) c
      (drawsEach es c.memo.names) (namesAfterEach es c.memo.names) := by
  induction es generalizing c with
  | nil => exact Draws.quiet (by simp) rfl rfl hc
  | cons e rest ih =>
      rw [List.forall_mem_cons] at hes ht
      rw [drawsEach, namesAfterEach]
      refine (hes.1.observe_draws ht.1 hc).bind ?_
      intro value c₁ hvalue hc₁ hnames
      rw [← hnames]
      refine (ih hes.2 ht.2 hc₁).bind_quiet ?_
      rintro values c₂ hvalues hc₂ hnames'
      rw [← hnames']
      exact Draws.quiet (List.forall_mem_cons.mpr ⟨hvalue, hvalues⟩) rfl rfl hc₂

end Expr

namespace Shape

/-- Evaluating the shape in `c` draws `k` times, which are `2 * k` steps of the stream, and leaves
exactly `names` recorded; it can only fail at its first draw, on a stream that is not ready. -/
structure Consumes (s : Shape) (c : Context) (k : Nat) (names : Finset String) : Prop where
  completes : k = 0 ∨ c.stream.Ready → ∃ form c₁, s.evaluate c = .ok (form, c₁) ∧
    (s.observe c).drawCount = k ∧ c₁.stream = Stream.next^[2 * k] c.stream ∧
    c₁.stream.increment = c.stream.increment ∧ c₁.memo.names = names
  fails : ¬ (k = 0 ∨ c.stream.Ready) → s.evaluate c = .error .negativeShift

theorem Built.consumes {s : Shape} (hs : s.Built) (ht : s.Total) {c : Context}
    (hc : c.memo.IsReal) : s.Consumes c (s.draws c.memo.names) (s.namesAfter c.memo.names) := by
  have hdraws := Expr.observeEach_draws hs.of_mem_positions ht hc
  have hcount : (s.observe c).drawCount = (Expr.observeEach s.positions c).drawCount := by
    rw [Observed.drawCount, events_observe, Observed.drawCount]
  constructor
  · intro hready
    obtain ⟨values, c₁, hp, -, hk, hstream, -, hnames⟩ := hdraws.completes hready
    rw [Expr.outcome_observeEach] at hp
    cases hs.plain.followsPositions hc with
    | fails fault hp' _ =>
        rw [hp] at hp'
        cases hp'
    | gives values' form c₂ _ hp' _ hshape =>
        rw [hp] at hp'
        cases hp'
        exact ⟨form, c₁, hshape, hcount.trans hk, hstream,
          by rw [hstream, Stream.increment_iterate], hnames⟩
  · intro hready
    have hp := hdraws.fails hready
    rw [Expr.outcome_observeEach] at hp
    cases hs.plain.followsPositions hc with
    | fails fault hp' hshape =>
        rw [hp] at hp'
        cases hp'
        exact hshape
    | gives values form c₁ _ hp' _ _ =>
        rw [hp] at hp'
        cases hp'

/-- Two evaluations of a built shape take the same number of draws from their streams and leave the
same names recorded, as long as the same names were recorded before.  The number is counted from
the shape and these names; recorded numbers, results of functions and streams have no part in it.
Streams that hold a word are ready, so on these no evaluation fails. -/
theorem evaluate_consumes_equally (s : Shape) (hs : s.Built) (ht : s.Total) (c₁ c₂ : Context)
    (h₁ : c₁.memo.IsReal) (h₂ : c₂.memo.IsReal) (hnames : c₁.memo.names = c₂.memo.names) :
    s.Consumes c₁ (s.draws c₁.memo.names) (s.namesAfter c₁.memo.names) ∧
      s.Consumes c₂ (s.draws c₁.memo.names) (s.namesAfter c₁.memo.names) := by
  refine ⟨hs.consumes ht h₁, ?_⟩
  rw [hnames]
  exact hs.consumes ht h₂

/-- The bars of the first sketch share their place under one name.  Where a place is recorded
already it is not drawn, whatever it is: six draws are left of seven. -/
theorem demo_consumes_equally :
    let c₁ : Context := ⟨.ofSeed 1, ⟨[("x", .number (.real 10.0))]⟩⟩
    let c₂ : Context := ⟨.ofSeed 2, ⟨[("x", .number (.real (-10.0)))]⟩⟩
    Demo.sketch.Built ∧ Demo.sketch.Total ∧ c₁.memo.IsReal ∧ c₂.memo.IsReal ∧
      c₁.memo.names = c₂.memo.names ∧ Demo.sketch.draws ∅ = 7 ∧
      Demo.sketch.Consumes c₁ 6 {"x"} ∧ Demo.sketch.Consumes c₂ 6 {"x"} := by
  intro c₁ c₂
  have h₁ : c₁.memo.IsReal := by
    intro entry hentry
    exact ⟨10.0, by rw [List.mem_singleton.mp hentry]⟩
  have h₂ : c₂.memo.IsReal := by
    intro entry hentry
    exact ⟨-10.0, by rw [List.mem_singleton.mp hentry]⟩
  have hcount : Demo.sketch.draws c₁.memo.names = 6 := by decide
  have hafter : Demo.sketch.namesAfter c₁.memo.names = {"x"} := by decide
  have heq := evaluate_consumes_equally Demo.sketch Demo.sketch_built Demo.sketch_total c₁ c₂ h₁ h₂
    rfl
  rw [hcount, hafter] at heq
  exact ⟨Demo.sketch_built, Demo.sketch_total, h₁, h₂, rfl, by decide, heq⟩

end Shape
end SeededSketch
