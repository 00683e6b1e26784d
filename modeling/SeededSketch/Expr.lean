import SeededSketch.Function
import SeededSketch.Stream

/-!
# Number expressions

An expression says how a number of a sketch comes about: it is fixed, drawn at random, shared
under a name, or computed from other expressions.

The constructors hold whatever they are given; in a position for an expression a plain value can
stand, as `stray`, which only evaluation objects to. The builders below check and convert their
arguments, so that what they build holds doubles, texts and expressions only.

Evaluation hands a context through an expression from left to right. A draw advances the stream;
a named expression is evaluated where its name is met for the first time, and its number is
recorded and found again wherever the name comes back. A recorded name costs no draws. Stream and
memo are values, handed from one evaluation to the next. The memo lives as long as the pass; only
the stream goes on to the next pass.
-/

namespace SeededSketch

inductive Expr where
  | constant (value : Value)
  | random (lo hi : Value)
  | named (name : Value) (inner : Expr)
  | calculated (inner : Expr) (f : Unary)
  | combined (f : Binary) (left right : Expr)
  | stray (v : Value)

namespace Expr

/-- The value that stands for an expression where its type is all that matters. -/
def asValue : Expr → Value
  | constant _ => .node .constant
  | random .. => .node .random
  | named .. => .node .named
  | calculated .. => .node .calculated
  | combined .. => .node .combined
  | stray v => v

/-- The expression of a fixed double. -/
def ofReal (x : Float) : Expr := constant (.number (.real x))

/-! ## Builders -/

/-- An expression as it is, or a number as the fixed expression of its double. -/
def lift : Expr → Except Fault Expr
  | stray (.number n) => do return ofReal (← n.toReal)
  | stray v => .error (.notExpr v)
  | e => .ok e

/-- The fixed number that a value converts to. -/
def fixed (v : Value) : Except Fault Expr := do
  return ofReal (← v.toReal)

/-- A draw between two numbers. -/
def uniform (lo hi : Value) : Except Fault Expr := do
  let lo ← lo.toReal
  let hi ← hi.toReal
  return random (.number (.real lo)) (.number (.real hi))

/-- The expression `e`, shared under the text of `name`, which must not be too long to be
written. -/
def share (name : Value) (e : Expr) : Except Fault Expr := do
  if name.isWritable then return named (.text name.display) (← e.lift)
  else .error .wholeTooLong

/-- The function `f` of `e`. -/
def derive (e : Expr) (f : Unary) : Except Fault Expr := do
  return calculated (← e.lift) f

/-- The function `f` of `a` and `b`, of which `a` is evaluated first. -/
def combine (f : Binary) (a b : Expr) : Except Fault Expr := do
  let left ← a.lift
  let right ← b.lift
  return combined f left right

/-! ## Arithmetic signs -/

/-- The function of a sign. -/
def signFunction : Sign → Binary
  | .plus => .add
  | .minus => .sub
  | .times => .mul
  | .over => .div

/-- An operand of an arithmetic sign, if it can be one: an expression, or a number. -/
def operand? : Expr → Option (Except Fault Expr)
  | stray (.number n) => some (lift (stray (.number n)))
  | stray _ => none
  | e => some (.ok e)

private def isSequence : Value → Bool
  | .text _ | .list _ => true
  | _ => false

/-- Why two operands cannot stand on either side of a sign. Texts and lists have a sum and a
repetition of their own, and are refused with the words for those. -/
def operandFault (sign : Sign) (a b : Expr) : Fault :=
  match sign, isSequence a.asValue, isSequence b.asValue with
  | .plus, true, _ => .notConcatenable a.asValue b.asValue
  | .times, true, _ => .notRepeatable b.asValue
  | .times, false, true => .notRepeatable a.asValue
  | _, _, _ => .badOperands sign a.asValue b.asValue

/-- `a` and `b` joined by a sign, in the order in which they are written. -/
def operate (sign : Sign) (a b : Expr) : Except Fault Expr :=
  match a.operand?, b.operand? with
  | some left, some right => do return combined (signFunction sign) (← left) (← right)
  | _, _ => .error (operandFault sign a b)

/-- The negative of `e`. A plain number gives a plain number again. -/
def negate : Expr → Except Fault Expr
  | stray (.number n) => .ok (stray (.number n.neg))
  | stray (.bool b) => .ok (stray (.number (.whole (if b then -1 else 0))))
  | stray v => .error (.notNegatable v)
  | e => .ok (calculated e .neg)

end Expr

/-! ## Contexts -/

/-- The recorded names with their values, in the order in which they were first recorded. -/
structure Memo where
  entries : List (String × Value)

namespace Memo

def empty : Memo := ⟨[]⟩

/-- The value recorded under `name`; one that is `null` counts as none. -/
def find? (memo : Memo) (name : String) : Option Value :=
  match memo.entries.lookup name with
  | some .null => none
  | found => found

/-- Records `value` under `name`, in place of what was recorded there. -/
def record (memo : Memo) (name : String) (value : Value) : Memo := ⟨put memo.entries⟩
where
  put : List (String × Value) → List (String × Value)
    | [] => [(name, value)]
    | entry :: rest => if entry.1 == name then (name, value) :: rest else entry :: put rest

/-- The entries by name, in the order of code points. -/
def sorted (memo : Memo) : List (String × Value) :=
  memo.entries.mergeSort fun a b => !decide (b.1 < a.1)

end Memo

structure Context where
  stream : Stream
  memo : Memo

namespace Context

/-- The context of a new pass: no name is recorded yet. -/
def fresh (stream : Stream) : Context := ⟨stream, .empty⟩

def withStream (c : Context) (stream : Stream) : Context := { c with stream }

def record (c : Context) (name : String) (value : Value) : Context :=
  { c with memo := c.memo.record name value }

end Context

/-! ## Evaluation -/

namespace Expr

/-- The value recorded for a name. Names are texts; what else stands as a name is never found,
and what cannot be a key at all is refused. -/
def recorded? (name : Value) (c : Context) : Except Fault (Option Value) :=
  match name with
  | .text s => .ok (c.memo.find? s)
  | .broken points => .ok (c.memo.find? (Value.broken points).display)
  | v => if v.isKey then .ok none else .error (.notKey v)

/-- The number of an expression, and the context after it. -/
def evaluate : Expr → Context → Except Fault (Value × Context)
  | constant v, c => do return (.number (.real (← v.toReal)), c)
  | random lo hi, c => do
    let (x, stream) ← c.stream.draw lo hi
    return (.number (.real x), c.withStream stream)
  | named name inner, c => do
    match ← recorded? name c with
    | some value => return (value, c)
    | none =>
      let (value, c₁) ← inner.evaluate c
      return (value, c₁.record name.display (.number (.real (← value.toReal))))
  | calculated inner f, c => do
    let (value, c₁) ← inner.evaluate c
    return (.number (.real (← f.apply value)), c₁)
  | combined f left right, c => do
    let (a, c₁) ← left.evaluate c
    let (b, c₂) ← right.evaluate c₁
    return (.number (.real (← f.apply a b)), c₂)
  | stray v, _ => .error (.unknownExpr v)

end Expr

end SeededSketch
