import Mathlib.Data.Finset.Image
import SeededSketch.Proofs.Replacement

/-!
# Two evaluations side by side

An evaluation sees of the memo only what it looks up.  Two contexts that answer all its look-ups
alike, perhaps under other names, lead it through the same steps: it finds and misses the same
names, it draws the same numbers from the same stream, and what it records on one side it records
on the other.

Two evaluations agree up to a relation between contexts (`AgreeUpTo`) where they give the same and
leave related contexts.  The constructors of expressions keep agreement, each under the condition
that its own step keeps the relation (`named_agree`, `calculated_agree`, `combined_agree`).

A relation `Follows` a renaming when it says so much of the names in question and is kept by draws
and by recordings.  `Built.evaluate_rename` is the induction: an expression in one context and the
renamed expression in a related one agree.  From there it goes to lists of expressions and, through
their positions, to shapes.
-/

namespace SeededSketch

/-! ## Outcomes that agree -/

/-- The same fault, or the same result with contexts that are related. -/
inductive AgreeUpTo {α : Type} (R : Context → Context → Prop) :
    Except Fault (α × Context) → Except Fault (α × Context) → Prop
  | fails (fault : Fault) : AgreeUpTo R (.error fault) (.error fault)
  | gives (a : α) {c c' : Context} (h : R c c') : AgreeUpTo R (.ok (a, c)) (.ok (a, c'))

namespace AgreeUpTo

variable {α β γ : Type} {R S : Context → Context → Prop} {o o' : Except Fault (α × Context)}
  {c c' : Context}

/-- Agreement goes on from two first steps that agree to the second ones. -/
theorem bind (h : AgreeUpTo R o o') {f g : α × Context → Except Fault (β × Context)}
    (hnext : ∀ a c c', o = .ok (a, c) → o' = .ok (a, c') → R c c' →
      AgreeUpTo S (f (a, c)) (g (a, c'))) : AgreeUpTo S (o >>= f) (o' >>= g) := by
  cases h with
  | fails fault => exact .fails fault
  | gives a hR => exact hnext a _ _ rfl rfl hR

/-- What is only computed from the same values agrees, and so does what comes after it. -/
theorem bind_same (x : Except Fault γ) {f g : γ → Except Fault (β × Context)}
    (hnext : ∀ y, AgreeUpTo R (f y) (g y)) : AgreeUpTo R (x >>= f) (x >>= g) := by
  cases x with
  | error fault => exact .fails fault
  | ok y => exact hnext y

/-- Where the second steps come to the same in related contexts, so do the outcomes. -/
theorem bind_eq (h : AgreeUpTo R o o') {f g : α × Context → Except Fault β}
    (hnext : ∀ a c c', R c c' → g (a, c') = f (a, c)) : (o' >>= g) = (o >>= f) := by
  cases h with
  | fails fault => rfl
  | gives a hR => exact hnext a _ _ hR

theorem eq_map {view : Context → Context} (h : AgreeUpTo (fun c c' => c' = view c) o o') :
    o' = o.map fun r => (r.1, view r.2) := by
  cases h with
  | fails fault => rfl
  | gives a hview => rw [hview]; rfl

end AgreeUpTo

namespace Expr

variable {R : Context → Context → Prop} {c c' : Context}

/-- What is named agrees if both find it or both miss it, and if in the second case the inner
expressions agree and recording what they gave keeps the relation. -/
theorem named_agree {name name' : String} {inner inner' : Expr} (h : R c c')
    (hfind : c'.memo.find? name' = c.memo.find? name)
    (hinner : AgreeUpTo R (inner.evaluate c) (inner'.evaluate c'))
    (hrecord : ∀ {c₁ c₁'}, R c₁ c₁' → ∀ x : Float,
      R (c₁.record name (.number (.real x))) (c₁'.record name' (.number (.real x)))) :
    AgreeUpTo R ((named (.text name) inner).evaluate c)
      ((named (.text name') inner').evaluate c') := by
  cases hown : c.memo.find? name with
  | some found =>
      rw [evaluate_named_found hown, evaluate_named_found (hfind.trans hown)]
      exact .gives found h
  | none =>
      rw [evaluate_named_missing hown, evaluate_named_missing (hfind.trans hown)]
      refine hinner.bind fun value c₁ c₁' _ _ h₁ => ?_
      exact .bind_same _ fun x => .gives value (hrecord h₁ x)

theorem calculated_agree (f : Unary) {inner inner' : Expr}
    (hinner : AgreeUpTo R (inner.evaluate c) (inner'.evaluate c')) :
    AgreeUpTo R ((calculated inner f).evaluate c) ((calculated inner' f).evaluate c') := by
  rw [evaluate, evaluate]
  refine hinner.bind fun value c₁ c₁' _ _ h₁ => ?_
  exact .bind_same _ fun x => .gives _ h₁

theorem combined_agree (f : Binary) {left left' right right' : Expr}
    (hleft : AgreeUpTo R (left.evaluate c) (left'.evaluate c'))
    (hright : ∀ a c₁ c₁', left.evaluate c = .ok (a, c₁) → left'.evaluate c' = .ok (a, c₁') →
      R c₁ c₁' → AgreeUpTo R (right.evaluate c₁) (right'.evaluate c₁')) :
    AgreeUpTo R ((combined f left right).evaluate c) ((combined f left' right').evaluate c') := by
  rw [evaluate, evaluate]
  refine hleft.bind fun a c₁ c₁' hrun hrun' h₁ => ?_
  refine (hright a c₁ c₁' hrun hrun' h₁).bind fun b c₂ c₂' _ _ h₂ => ?_
  exact .bind_same _ fun x => .gives _ h₂

theorem inOrder_cons_agree {e e' : Expr} {rest rest' : List Expr}
    (hfirst : AgreeUpTo R (e.evaluate c) (e'.evaluate c'))
    (hrest : ∀ a c₁ c₁', e.evaluate c = .ok (a, c₁) → e'.evaluate c' = .ok (a, c₁') →
      R c₁ c₁' → AgreeUpTo R (inOrder rest c₁) (inOrder rest' c₁')) :
    AgreeUpTo R (inOrder (e :: rest) c) (inOrder (e' :: rest') c') := by
  rw [inOrder, inOrder]
  refine hfirst.bind fun value c₁ c₁' hrun hrun' h₁ => ?_
  refine (hrest value c₁ c₁' hrun hrun' h₁).bind fun values c₂ c₂' _ _ h₂ => ?_
  exact .gives (value :: values) h₂

end Expr

/-! ## Renamed expressions -/

namespace Expr

/-- The expression with `r name` in the place of every name. -/
def rename (r : String → String) : Expr → Expr
  | named (.text name) inner => named (.text (r name)) (inner.rename r)
  | named v inner => named v (inner.rename r)
  | calculated inner f => calculated (inner.rename r) f
  | combined f left right => combined f (left.rename r) (right.rename r)
  | constant v => constant v
  | random lo hi => random lo hi
  | stray v => stray v

theorem rename_id (e : Expr) : e.rename id = e := by
  induction e with
  | named name inner ih =>
      cases name with
      | text name => rw [rename, ih]; rfl
      | _ => rw [rename, ih]; simp
  | calculated inner f ih => rw [rename, ih]
  | combined f left right ihl ihr => rw [rename, ihl, ihr]
  | constant | random | stray => rfl

theorem Built.rename (r : String → String) {e : Expr} (he : e.Built) : (e.rename r).Built := by
  induction he with
  | constant x => exact .constant x
  | random lo hi => exact .random lo hi
  | named name _ ih => exact .named (r name) ih
  | calculated f _ ih => exact .calculated f ih
  | combined f _ _ ihl ihr => exact .combined f ihl ihr

theorem Built.mentions_rename (r : String → String) {e : Expr} (he : e.Built) :
    (e.rename r).mentions = e.mentions.image r := by
  induction he with
  | constant | random => rfl
  | @named name inner _ ih =>
      rw [Expr.rename, mentions, mentions, ih, Finset.image_insert]
      rfl
  | calculated f _ ih => rw [Expr.rename, mentions, mentions, ih]
  | combined f _ _ ihl ihr => rw [Expr.rename, mentions, mentions, ihl, ihr, Finset.image_union]

end Expr

/-! ## Contexts that answer alike -/

/-- Related contexts have the same stream and hold the same under each of the `names` and its new
name; and this stays so when both go on to the same stream, or record the same number under one of
the names and its new name. -/
structure Follows (R : Context → Context → Prop) (r : String → String) (names : Set String) :
    Prop where
  stream {c c' : Context} (h : R c c') : c'.stream = c.stream
  find? {c c' : Context} (h : R c c') {name : String} (hname : name ∈ names) :
    c'.memo.find? (r name) = c.memo.find? name
  withStream {c c' : Context} (h : R c c') (stream : Stream) :
    R (c.withStream stream) (c'.withStream stream)
  record {c c' : Context} (h : R c c') {name : String} (hname : name ∈ names) (x : Float) :
    R (c.record name (.number (.real x))) (c'.record (r name) (.number (.real x)))

namespace Expr

variable {R : Context → Context → Prop} {r : String → String} {names : Set String}

/-- An expression in one context, and the renamed expression in a related one, take the same
steps. -/
theorem Built.evaluate_rename (hR : Follows R r names) {e : Expr} (he : e.Built)
    (hnames : ∀ name ∈ e.mentions, name ∈ names) {c c' : Context} (h : R c c') :
    AgreeUpTo R (e.evaluate c) ((e.rename r).evaluate c') := by
  induction he generalizing c c' with
  | constant x => exact .gives _ h
  | random lo hi =>
      rw [Expr.rename, evaluate, evaluate, hR.stream h]
      exact .bind_same _ fun drawn => .gives _ (hR.withStream h drawn.2)
  | @named name inner _ ih =>
      rw [mentions, Finset.forall_mem_insert] at hnames
      exact named_agree h (hR.find? h hnames.1) (ih hnames.2 h) fun h₁ => hR.record h₁ hnames.1
  | calculated f _ ih => exact calculated_agree f (ih hnames h)
  | combined f _ _ ihl ihr =>
      rw [mentions, Finset.forall_mem_union] at hnames
      exact combined_agree f (ihl hnames.1 h) fun _ _ _ _ _ h₁ => ihr hnames.2 h₁

theorem inOrder_rename (hR : Follows R r names) {es : List Expr} (hes : ∀ e ∈ es, e.Built)
    (hnames : ∀ e ∈ es, ∀ name ∈ e.mentions, name ∈ names) {c c' : Context} (h : R c c') :
    AgreeUpTo R (inOrder es c) (inOrder (es.map (rename r)) c') := by
  induction es generalizing c c' with
  | nil => exact .gives [] h
  | cons e rest ih =>
      rw [List.forall_mem_cons] at hes hnames
      have hfirst := hes.1.evaluate_rename hR hnames.1 h
      exact inOrder_cons_agree hfirst fun _ _ _ _ _ h₁ => ih hes.2 hnames.2 h₁

end Expr

namespace Shape

/-- The name is somewhere in the shape, at any depth. -/
def Mentions (s : Shape) (name : String) : Prop := ∃ e ∈ s.positions, name ∈ e.mentions

/-- Two shapes that take their values to the same places agree where their positions do. -/
theorem Plain.evaluate_agree {R : Context → Context → Prop} {s t : Shape} (hs : s.Plain)
    (ht : t.Plain) (hrebuild : ∀ values, t.rebuild values = s.rebuild values) {c c' : Context}
    (hc : c.memo.IsReal) (hc' : c'.memo.IsReal)
    (h : AgreeUpTo R (Expr.inOrder s.positions c) (Expr.inOrder t.positions c')) :
    AgreeUpTo R (s.evaluate c) (t.evaluate c') := by
  rw [hs.evaluate_eq_rebuild hc, ht.evaluate_eq_rebuild hc']
  refine h.bind fun values c₁ c₁' _ _ h₁ => ?_
  dsimp only
  rw [hrebuild]
  exact .bind_same _ fun built => .gives built.1 h₁

end Shape
end SeededSketch
