import SeededSketch.Proofs.Order
import SeededSketch.Proofs.Precision
import SeededSketch.Proofs.Signs

/-!
# Formulas

In a sketch, expressions and plain numbers are joined by the signs of arithmetic, and what comes out
is an expression.  `Formula` is what is written and `Formula.build` what the signs make of it.
`Formula.evaluate` reads the same formula from the left to the right, without building anything: the
left side is evaluated before the right one, whichever of them is a number, and then the sign is
carried out on two doubles.

`Formula.evaluate_build` says that both ways lead to the same double in the same context.  It is
shown for every part of a formula (`Formula.outcome`): a part is an expression that means the same
as the part, or a plain number, which becomes one where a sign joins it to an expression.

A formula cannot be built only where it holds an integer that is too large for a double, and then
it has no double from the left to the right either.
-/

namespace SeededSketch

/-- What is written with signs between expressions and plain numbers. -/
inductive Formula where
  | leaf (e : Expr)
  | number (n : Number)
  | negative (f : Formula)
  | joined (sign : Sign) (left right : Formula)

/-- What a sign stands for between doubles. -/
def Sign.onReals : Sign → Float → Float → Float
  | .plus, x, y => x + y
  | .minus, x, y => x - y
  | .times, x, y => x * y
  | .over, x, y => x / y

/-! ## Division -/

namespace Double

/-- The double `z` is the quotient of `x` and `y`: the rounded quotient of two numbers, an infinity
with the sign of both where the divisor is zero, and no number where zero, or what is no number, is
divided by zero. -/
structure IsQuotient (x y z : Float) : Prop where
  rounded {v w : ℚ} (hx : value? x = some v) (hy : value? y = some w) (hw : w ≠ 0) :
    IsRounding (v / w) z
  infinite (hx : value? x ≠ some 0) (hnan : x.isNaN = false) (hy : value? y = some 0) :
    reading z = .infinite (isNegative x != isNegative y)
  undefined (hx : value? x = some 0 ∨ x.isNaN = true) (hy : value? y = some 0) : reading z = .nan

theorem isQuotient_div (x y : Float) : IsQuotient x y (x / y) := by
  have hread (negative : Bool) :
      reading (if negative then -infinity else infinity) = .infinite negative := by
    cases negative <;> decide +kernel
  refine ⟨.div, fun hx hnan hy => ?_, fun hx hy => ?_⟩
  · have hbits := toBits_div_zero (x := x) ((beq_zero_iff y).mpr hy)
    have hzero : (x == 0.0) = false := Bool.eq_false_iff.mpr fun h => hx ((beq_zero_iff x).mp h)
    rw [hzero, hnan, Bool.or_self, if_neg Bool.false_ne_true] at hbits
    rw [Float.toBits_inj.mp hbits, hread]
  · have hbits := toBits_div_zero (x := x) ((beq_zero_iff y).mpr hy)
    rw [← beq_zero_iff, ← Bool.or_eq_true] at hx
    rw [if_pos hx] at hbits
    rw [Float.toBits_inj.mp hbits]
    decide +kernel

end Double

/-! ## The methods of the signs -/

namespace Expr

/-- The expression is one, and no plain value in the place of one. -/
def IsNode (e : Expr) : Prop := ∀ v, e ≠ .stray v

/-- What a sign's method of an expression makes of the expression and another operand, if the other
can be one.  The method for the reflected sign has the other operand on the left. -/
def method (sign : Sign) (reflected : Bool) (self other : Expr) : Option (Except Fault Expr) :=
  other.operand?.map fun outcome => do
    let operand ← outcome
    return if reflected then combined (signFunction sign) operand self
      else combined (signFunction sign) self operand

theorem IsNode.operand? {e : Expr} (h : e.IsNode) : e.operand? = some (.ok e) := by
  cases e with
  | stray v => exact absurd rfl (h v)
  | _ => rfl

theorem IsNode.lift {e : Expr} (h : e.IsNode) : e.lift = .ok e := by
  cases e with
  | stray v => exact absurd rfl (h v)
  | _ => rfl

theorem IsNode.negate {e : Expr} (h : e.IsNode) : e.negate = .ok (.calculated e .neg) := by
  cases e with
  | stray v => exact absurd rfl (h v)
  | _ => rfl

/-- An expression on the left joins itself to what is on its right. -/
theorem operate_eq_method {a : Expr} (ha : a.IsNode) (sign : Sign) (b : Expr) :
    operate sign a b = (method sign false a b).getD (.error (operandFault sign a b)) := by
  rw [operate, method, ha.operand?]
  cases b.operand? <;> rfl

/-- An expression on the right joins what is on its left to itself. -/
theorem operate_eq_reflected {b : Expr} (hb : b.IsNode) (sign : Sign) (a : Expr) :
    operate sign a b = (method sign true b a).getD (.error (operandFault sign a b)) := by
  rw [operate, method, hb.operand?]
  cases a.operand? <;> rfl

/-- The function of a sign never fails on doubles. -/
theorem apply_signFunction (sign : Sign) (x y : Float) :
    (signFunction sign).apply (.number (.real x)) (.number (.real y)) =
      .ok (sign.onReals x y) := by
  match sign with
  | .plus | .minus | .times => rfl
  | .over => exact congrArg Except.ok (Number.realDivision_eq x y)

end Expr

namespace Formula

/-! ## Building and evaluating -/

/-- The number that a formula is if it is no expression: a number with any minus signs in front. -/
def plain? : Formula → Option Number
  | number n => some n
  | negative f => f.plain?.map Number.neg
  | _ => none

/-- What the signs make of a formula. -/
def build : Formula → Except Fault Expr
  | leaf e => .ok e
  | number n => .ok (.stray (.number n))
  | negative f => do (← f.build).negate
  | joined sign left right => do
    let a ← left.build
    let b ← right.build
    Expr.operate sign a b

/-- The double of a formula, from the left to the right, and the context after it. -/
def evaluate : Formula → Context → Except Fault (Float × Context)
  | leaf e, c => do
    let (value, c₁) ← e.evaluate c
    return (← value.toReal, c₁)
  | number n, c => do return (← n.toReal, c)
  | negative f, c =>
    match f.plain? with
    | some n => do return (← n.neg.toReal, c)
    | none => do
      let (x, c₁) ← f.evaluate c
      return (-x, c₁)
  | joined sign left right, c => do
    let (x, c₁) ← left.evaluate c
    let (y, c₂) ← right.evaluate c₁
    return (sign.onReals x y, c₂)

/-- Every leaf is an expression, and every sign between two sides has an expression on one of
them. -/
inductive Written : Formula → Prop
  | leaf {e : Expr} (h : e.IsNode) : Written (.leaf e)
  | number (n : Number) : Written (.number n)
  | negative {f : Formula} (h : f.Written) : Written (.negative f)
  | joined (sign : Sign) {left right : Formula} (hl : left.Written) (hr : right.Written)
      (h : left.plain? = none ∨ right.plain? = none) : Written (.joined sign left right)

/-- Every number in the formula has a double. -/
def Fits : Formula → Prop
  | leaf _ => True
  | number n => ∃ x, n.toReal = .ok x
  | negative f => f.Fits
  | joined _ left right => left.Fits ∧ right.Fits

/-! ## Plain numbers -/

theorem exists_toReal_neg (n : Number) :
    (∃ x, n.neg.toReal = .ok x) ↔ ∃ x, n.toReal = .ok x := by
  by_cases hn : n = .whole 0
  · rw [hn]
    exact Iff.rfl
  · rw [Number.toReal_neg hn]
    cases n.toReal with
    | ok x => exact iff_of_true ⟨-x, rfl⟩ ⟨x, rfl⟩
    | error fault => exact iff_of_false (fun ⟨_, h⟩ => by cases h) (fun ⟨_, h⟩ => by cases h)

theorem fits_iff_of_plain {f : Formula} {n : Number} (h : f.plain? = some n) :
    f.Fits ↔ ∃ x, n.toReal = .ok x := by
  induction f generalizing n with
  | number m =>
      cases h
      exact Iff.rfl
  | negative f ih =>
      obtain ⟨m, hm, rfl⟩ := Option.map_eq_some_iff.mp h
      rw [exists_toReal_neg]
      exact ih hm
  | leaf e => cases h
  | joined sign left right => cases h

theorem evaluate_of_plain {f : Formula} {n : Number} (h : f.plain? = some n) (c : Context) :
    f.evaluate c = n.toReal.map fun x => (x, c) := by
  cases f with
  | number m =>
      cases h
      rw [evaluate]
      cases n.toReal <;> rfl
  | negative f =>
      obtain ⟨m, hm, rfl⟩ := Option.map_eq_some_iff.mp h
      simp only [evaluate, hm]
      cases m.neg.toReal <;> rfl
  | leaf e => cases h
  | joined sign left right => cases h

/-- The only number without a double is an integer that is too large. -/
theorem toReal_eq_tooLarge {n : Number} (h : ¬∃ x, n.toReal = .ok x) :
    n.toReal = .error .tooLargeForReal := by
  cases n with
  | real x => exact absurd ⟨x, rfl⟩ h
  | whole m =>
      rw [Number.toReal, Number.ofWhole] at h ⊢
      cases hm : Double.ofInt? m with
      | some x =>
          rw [hm] at h
          exact absurd ⟨x, rfl⟩ h
      | none => rfl

/-- A formula with a double has no number without one. -/
theorem fits_of_evaluate {f : Formula} {c : Context} {p : Float × Context}
    (h : f.evaluate c = .ok p) : f.Fits := by
  induction f generalizing c p with
  | leaf e => trivial
  | number n =>
      obtain ⟨x, hx, -⟩ := bind_eq_ok h
      exact ⟨x, hx⟩
  | negative f ih =>
      cases hplain : f.plain? with
      | none =>
          simp only [evaluate, hplain] at h
          obtain ⟨q, hq, -⟩ := bind_eq_ok h
          exact ih hq
      | some n =>
          simp only [evaluate, hplain] at h
          obtain ⟨x, hx, -⟩ := bind_eq_ok h
          exact (fits_iff_of_plain hplain).mpr ((exists_toReal_neg n).mp ⟨x, hx⟩)
  | joined sign left right ihl ihr =>
      obtain ⟨q, hq, h⟩ := bind_eq_ok h
      obtain ⟨q', hq', -⟩ := bind_eq_ok h
      exact ⟨ihl hq, ihr hq'⟩

/-! ## What an expression means -/

/-- A double with a context, as an expression gives it. -/
def asValue (p : Float × Context) : Value × Context := (.number (.real p.1), p.2)

/-- The expression gives what the formula gives from the left to the right, in every context with a
memo of doubles. -/
def Means (e : Expr) (f : Formula) : Prop :=
  ∀ c : Context, c.memo.IsReal → e.evaluate c = (f.evaluate c).map asValue

theorem means_leaf (e : Expr) : Means e (.leaf e) := by
  intro c hc
  cases he : e.evaluate c with
  | error fault =>
      rw [evaluate, he]
      rfl
  | ok r =>
      obtain ⟨⟨x, hx⟩, -⟩ := Expr.isReal_of_evaluate e hc he
      obtain ⟨value, c₁⟩ := r
      obtain rfl : value = .number (.real x) := hx
      rw [evaluate, he]
      rfl

theorem means_of_plain {f : Formula} {n : Number} {x : Float} (h : f.plain? = some n)
    (hx : n.toReal = .ok x) : Means (.ofReal x) f := by
  intro c _
  rw [evaluate_of_plain h, hx]
  rfl

theorem means_negative {e : Expr} {f : Formula} (hplain : f.plain? = none) (h : Means e f) :
    Means (.calculated e .neg) (.negative f) := by
  intro c hc
  have he := h c hc
  simp only [evaluate, hplain, Expr.evaluate, he]
  cases f.evaluate c <;> rfl

/-- The right side is evaluated in the context that the left one leaves. -/
theorem means_joined (sign : Sign) {a b : Expr} {left right : Formula} (ha : Means a left)
    (hb : Means b right) :
    Means (.combined (Expr.signFunction sign) a b) (.joined sign left right) := by
  intro c hc
  have hleft := ha c hc
  rw [Expr.evaluate, evaluate]
  cases hx : left.evaluate c with
  | error fault =>
      rw [hx] at hleft
      rw [hleft]
      rfl
  | ok p =>
      rw [hx] at hleft
      have hright := hb p.2 (Expr.isReal_of_evaluate a hc hleft).2
      rw [hleft]
      cases hy : right.evaluate p.2 with
      | error fault =>
          rw [hy] at hright
          simp only [Except.map, asValue, ok_bind, hright, hy, error_bind]
      | ok q =>
          rw [hy] at hright
          simp only [Except.map, asValue, ok_bind, hright, hy, Expr.apply_signFunction, pure_eq_ok]

/-! ## What is built -/

/-- What can come of building a formula. -/
inductive Outcome (f : Formula) : Prop
  | node (e : Expr) (hplain : f.plain? = none) (hfits : f.Fits) (hbuild : f.build = .ok e)
      (hnode : e.IsNode) (hmeans : Means e f)
  | number (n : Number) (hplain : f.plain? = some n) (hbuild : f.build = .ok (.stray (.number n)))
  | fails (hplain : f.plain? = none) (hfits : ¬f.Fits) (hbuild : f.build = .error .tooLargeForReal)

/-- A formula that has been built can be an operand, which means what the formula means; or one of
its numbers is too large, and this is found out now at the latest. -/
theorem Outcome.operand {f : Formula} (h : f.Outcome) :
    (f.Fits ∧ ∃ e o, f.build = .ok e ∧ e.operand? = some (.ok o) ∧ Means o f) ∨
      (¬f.Fits ∧ (f.build = .error .tooLargeForReal ∨
        ∃ e, f.build = .ok e ∧ e.operand? = some (.error .tooLargeForReal))) := by
  cases h with
  | node e _ hfits hbuild hnode hmeans =>
      exact .inl ⟨hfits, e, e, hbuild, hnode.operand?, hmeans⟩
  | fails _ hfits hbuild => exact .inr ⟨hfits, .inl hbuild⟩
  | number n hplain hbuild =>
      have hoperand : (Expr.stray (.number n)).operand? =
          some (n.toReal.map Expr.ofReal) := by
        rw [Expr.operand?, Expr.lift]
        cases n.toReal <;> rfl
      rw [fits_iff_of_plain hplain]
      by_cases hx : ∃ x, n.toReal = .ok x
      · obtain ⟨x, hx⟩ := hx
        refine .inl ⟨⟨x, hx⟩, _, .ofReal x, hbuild, ?_, means_of_plain hplain hx⟩
        rw [hoperand, hx]
        rfl
      · refine .inr ⟨hx, .inr ⟨_, hbuild, ?_⟩⟩
        rw [hoperand, toReal_eq_tooLarge hx]
        rfl

theorem Outcome.negative {f : Formula} (h : f.Outcome) : (Formula.negative f).Outcome := by
  cases h with
  | node e hplain hfits hbuild hnode hmeans =>
      refine .node (.calculated e .neg) ?_ hfits ?_ (fun v => Expr.noConfusion)
        (means_negative hplain hmeans)
      · rw [plain?, hplain]
        rfl
      · rw [build, hbuild, ok_bind, hnode.negate]
  | number n hplain hbuild =>
      refine .number n.neg ?_ ?_
      · rw [plain?, hplain]
        rfl
      · rw [build, hbuild]
        rfl
  | fails hplain hfits hbuild =>
      refine .fails ?_ hfits ?_
      · rw [plain?, hplain]
        rfl
      · rw [build, hbuild]
        rfl

/-- A sign is carried out on the operands that its two sides are taken for. -/
theorem build_of_operands (sign : Sign) {left right : Formula} {a b : Expr}
    {x y : Except Fault Expr} (ha : left.build = .ok a) (hb : right.build = .ok b)
    (hx : a.operand? = some x) (hy : b.operand? = some y) :
    (joined sign left right).build =
      (do return Expr.combined (Expr.signFunction sign) (← x) (← y)) := by
  rw [build, ha, ok_bind, hb, ok_bind, Expr.operate, hx, hy]

theorem Outcome.joined (sign : Sign) {left right : Formula} (hl : left.Outcome)
    (hr : right.Outcome) : (Formula.joined sign left right).Outcome := by
  rcases hl.operand with ⟨hfits, e, o, hbuild, ho, hmeans⟩ | ⟨hfits, hbuild⟩
  · rcases hr.operand with ⟨hfits', e', o', hbuild', ho', hmeans'⟩ | ⟨hfits', hbuild'⟩
    · exact .node (.combined (Expr.signFunction sign) o o') rfl ⟨hfits, hfits'⟩
        (build_of_operands sign hbuild hbuild' ho ho') (fun v => Expr.noConfusion)
        (means_joined sign hmeans hmeans')
    · refine .fails rfl (fun h => hfits' h.2) ?_
      rcases hbuild' with hbuild' | ⟨e', hbuild', ho'⟩
      · rw [build, hbuild, ok_bind, hbuild']
        rfl
      · exact build_of_operands sign hbuild hbuild' ho ho'
  · refine .fails rfl (fun h => hfits h.1) ?_
    rcases hbuild with hbuild | ⟨e, hbuild, ho⟩
    · rw [build, hbuild]
      rfl
    · rcases hr.operand with ⟨-, e', o', hbuild', ho', -⟩ | ⟨-, hbuild' | ⟨e', hbuild', ho'⟩⟩
      · exact build_of_operands sign hbuild hbuild' ho ho'
      · rw [build, hbuild, ok_bind, hbuild']
        rfl
      · exact build_of_operands sign hbuild hbuild' ho ho'

theorem Written.outcome {f : Formula} (h : f.Written) : f.Outcome := by
  induction h with
  | leaf h => exact .node _ rfl trivial rfl h (means_leaf _)
  | number n => exact .number n rfl rfl
  | negative _ ih => exact ih.negative
  | joined sign _ _ _ ihl ihr => exact ihl.joined sign ihr

/-- A part that is no plain number is built as an expression. -/
theorem Written.isNode {f : Formula} (h : f.Written) (hplain : f.plain? = none) {e : Expr}
    (hbuild : f.build = .ok e) : e.IsNode := by
  cases h.outcome with
  | node e' _ _ hbuild' hnode =>
      cases hbuild.symm.trans hbuild'
      exact hnode
  | number n hplain' => cases hplain.symm.trans hplain'
  | fails _ _ hbuild' => cases hbuild.symm.trans hbuild'

/-- The sign between two sides is carried out by its method of the left side, if this is an
expression, or else by its reflected method of the right one. -/
theorem build_joined {sign : Sign} {left right : Formula}
    (h : (joined sign left right).Written) {a b : Expr} (ha : left.build = .ok a)
    (hb : right.build = .ok b) :
    (a.IsNode ∧ (joined sign left right).build =
      (Expr.method sign false a b).getD (.error (Expr.operandFault sign a b))) ∨
    (b.IsNode ∧ (joined sign left right).build =
      (Expr.method sign true b a).getD (.error (Expr.operandFault sign a b))) := by
  cases h with
  | joined _ hl hr hside =>
      rw [build, ha, ok_bind, hb, ok_bind]
      rcases hside with hplain | hplain
      · have hnode := hl.isNode hplain ha
        exact .inl ⟨hnode, Expr.operate_eq_method hnode sign b⟩
      · have hnode := hr.isNode hplain hb
        exact .inr ⟨hnode, Expr.operate_eq_reflected hnode sign a⟩

/-- What the signs make of a formula gives, in every context with a memo of doubles, what the
formula gives from the left to the right: the same double and the same context, or the same fault.
A formula that is a plain number gives it as soon as it is taken for an expression.  Every formula
can be built whose numbers have doubles; with an integer that is too large for one it has no double
from the left to the right either.  Signs are carried out by their methods, direct or reflected,
and the sign of division always gives the quotient of two doubles. -/
theorem evaluate_build {f : Formula} (hf : f.Written) :
    (f.Fits → ∃ e o, f.build = .ok e ∧ e.lift = .ok o ∧ (f.plain? = none → o = e) ∧
      ∀ c : Context, c.memo.IsReal → o.evaluate c = (f.evaluate c).map asValue) ∧
    (¬f.Fits → (f.build >>= Expr.lift) = .error .tooLargeForReal ∧
      (f.plain? = none → f.build = .error .tooLargeForReal) ∧ ∀ c p, f.evaluate c ≠ .ok p) ∧
    (∀ sign left right a b, f = joined sign left right → left.build = .ok a → right.build = .ok b →
      (a.IsNode ∧ f.build =
        (Expr.method sign false a b).getD (.error (Expr.operandFault sign a b))) ∨
      (b.IsNode ∧ f.build =
        (Expr.method sign true b a).getD (.error (Expr.operandFault sign a b)))) ∧
    ∀ x y, (Expr.signFunction .over).onReals x y = .ok (x / y) ∧ Double.IsQuotient x y (x / y) := by
  refine ⟨fun hfits => ?_, fun hfits => ?_, fun sign left right a b hjoined ha hb => ?_,
    fun x y => ⟨congrArg Except.ok (Number.realDivision_eq x y), Double.isQuotient_div x y⟩⟩
  · cases hf.outcome with
    | node e _ _ hbuild hnode hmeans => exact ⟨e, e, hbuild, hnode.lift, fun _ => rfl, hmeans⟩
    | fails _ hfits' => exact absurd hfits hfits'
    | number n hplain hbuild =>
        obtain ⟨x, hx⟩ := (fits_iff_of_plain hplain).mp hfits
        refine ⟨_, .ofReal x, hbuild, ?_, fun h => ?_, means_of_plain hplain hx⟩
        · rw [Expr.lift, hx]
          rfl
        · cases hplain.symm.trans h
  · have hnone : ∀ c p, f.evaluate c ≠ .ok p := fun c p h => hfits (fits_of_evaluate h)
    cases hf.outcome with
    | node _ _ hfits' => exact absurd hfits' hfits
    | fails hplain _ hbuild => exact ⟨by rw [hbuild]; rfl, fun _ => hbuild, hnone⟩
    | number n hplain hbuild =>
        rw [fits_iff_of_plain hplain] at hfits
        refine ⟨?_, fun h => ?_, hnone⟩
        · rw [hbuild, ok_bind, Expr.lift, toReal_eq_tooLarge hfits]
          rfl
        · cases hplain.symm.trans h
  · subst hjoined
    exact build_joined hf ha hb

/-- Two less a shared draw, by minus zero: the plain numbers stand on either side of an expression,
and the quotient is an infinity. -/
theorem evaluate_build_infinite :
    let x : Expr := .named (.text "x") (.random (.number (.real 0.0)) (.number (.real 1.0)))
    let f : Formula := .joined .over (.joined .minus (.number (.whole 2)) (.leaf x))
      (.negative (.number (.real 0.0)))
    let c := Context.fresh (.ofSeed 0)
    f.Written ∧ f.Fits ∧ c.memo.IsReal ∧ ∃ e y c₁, f.build = .ok e ∧
      f.evaluate c = .ok (y, c₁) ∧ e.evaluate c = .ok (.number (.real y), c₁) ∧
      Double.reading y = .infinite true ∧ c₁.stream = c.stream.next.next := by
  intro x f c
  have hf : f.Written :=
    .joined .over (.joined .minus (.number _) (.leaf fun v => Expr.noConfusion) (.inr rfl))
      (.negative (.number _)) (.inl rfl)
  have hfits : f.Fits := ⟨⟨⟨_, rfl⟩, trivial⟩, ⟨_, rfl⟩⟩
  obtain ⟨e, o, hbuild, -, ho, hevaluate⟩ := (evaluate_build hf).1 hfits
  obtain rfl := ho rfl
  have hreference : ∃ y c₁, f.evaluate c = .ok (y, c₁) ∧ Double.reading y = .infinite true ∧
      c₁.stream = c.stream.next.next := ⟨_, _, rfl, by decide +kernel, rfl⟩
  obtain ⟨y, c₁, hy, hread, hstream⟩ := hreference
  refine ⟨hf, hfits, Memo.isReal_empty, o, y, c₁, hbuild, hy, ?_, hread, hstream⟩
  rw [hevaluate c Memo.isReal_empty, hy]
  rfl

end Formula
end SeededSketch
