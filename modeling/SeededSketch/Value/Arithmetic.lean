import SeededSketch.Number.Arithmetic

/-!
# Arithmetic on values

The arithmetic signs on values of any kind. Numbers and truth values are reckoned with as numbers.
Texts and lists can be joined by a plus and repeated by a whole factor. Texts are ordered by their
characters, and lists by the first items in which they differ. Everything else is refused.
-/

namespace SeededSketch.Value

/-- The outcome of arithmetic on two numbers, or a fault if one of the values is none. -/
private def onNumbers (f : Number → Number → Except Fault Number) (a b : Value) (fault : Fault) :
    Except Fault Value :=
  match a.number?, b.number? with
  | some m, some n => do return .number (← f m n)
  | _, _ => .error fault

def neg (v : Value) : Except Fault Value :=
  match v.number? with
  | some n => .ok (.number n.neg)
  | none => .error (.notNegatable v)

def abs (v : Value) : Except Fault Value :=
  match v.number? with
  | some n => .ok (.number n.abs)
  | none => .error (.noMagnitude v)

def add : Value → Value → Except Fault Value
  | text s, text t => .ok (.text (s ++ t))
  | list items, list others => .ok (.list (items ++ others))
  | a@(text _), b | a@(list _), b => .error (.notConcatenable a b)
  | a, b => onNumbers Number.add a b (.badOperands .plus a b)

def sub (a b : Value) : Except Fault Value :=
  onNumbers Number.sub a b (.badOperands .minus a b)

/-- The whole number that a value repeats by. -/
private def factor? (v : Value) : Option Int :=
  match v.number? with
  | some (.whole n) => some n
  | _ => none

/-- The greatest index of an array, which bounds factors and lengths. -/
def greatestIndex : Nat := twoPow 63 - 1

/-- The greatest length of a text or a list for which there is memory. -/
def greatestLength : Nat := twoPow 34

/-- How often a sequence of `length` items is repeated by the factor `n`, which may be negative. -/
def repetitions (length : Nat) (n : Int) (tooLong : Fault) : Except Fault Nat :=
  if n < -greatestIndex - 1 || greatestIndex < n then .error .factorTooLarge
  else if greatestIndex < length * n.toNat then .error tooLong
  else if greatestLength < length * n.toNat then .error .memoryExhausted
  else if length = 0 then .ok 0
  else .ok n.toNat

/-- A text or a list, a number of times in a row. -/
def repeated (v factor : Value) : Except Fault Value :=
  match v, factor? factor with
  | text s, some n => do
    let count ← repetitions s.length n .repetitionTooLong
    return .text (String.join (List.replicate count s))
  | list items, some n => do
    let count ← repetitions items.length n .memoryExhausted
    return .list (List.replicate count items).flatten
  | _, _ => .error (.notRepeatable factor)

def mul : Value → Value → Except Fault Value
  | a@(text _), b | a@(list _), b => repeated a b
  | a, b@(text _) | a, b@(list _) => repeated b a
  | a, b => onNumbers Number.mul a b (.badOperands .times a b)

/-- The quotient of two values, the second not zero. -/
def quotient (a b : Value) : Except Fault Value :=
  onNumbers (fun m n => do return .real (← m.quotient n)) a b (.badOperands .over a b)

/-- The quotient of two values, also by zero. -/
def division (a b : Value) : Except Fault Value :=
  match a.number?, b.number? with
  | some m, some n => do return .number (.real (← m.division n))
  | none, some n => .error (if n.eq (.whole 0) then .notRealNumber a else .badOperands .over a b)
  | _, none => .error (.badOperands .over a b)

/-! ## Order -/

mutual

/-- Whether two values are equal. -/
def same (a b : Value) : Bool :=
  match a, b with
  | list items, list others => sameItems items others
  | map entries, map others => entries.length == others.length && sameEntries entries others
  | a, b => a.sameKey b

def sameItems : List Value → List Value → Bool
  | [], [] => true
  | a :: rest, b :: others => same a b && sameItems rest others
  | _, _ => false

/-- Whether the value of each entry is equal to the one under its key in `others`. -/
def sameEntries : List (Value × Value) → List (Value × Value) → Bool
  | [], _ => true
  | (key, a) :: rest, others =>
    (match find? key others with
      | some b => same a b
      | none => false) && sameEntries rest others

end

/-- The two comparisons. -/
inductive Relation where
  | less
  | greater
  deriving DecidableEq, Repr

namespace Relation

def symbol : Relation → String
  | less => "<"
  | greater => ">"

/-- The relation on what is ordered by `lt`. -/
def holds {α : Type} (r : Relation) (lt : α → α → Bool) (a b : α) : Bool :=
  match r with
  | less => lt a b
  | greater => lt b a

end Relation

mutual

/-- Whether a relation holds between two values. -/
def compare (r : Relation) (a b : Value) : Except Fault Bool :=
  match a.number?, b.number? with
  | some m, some n => .ok (r.holds Number.lt m n)
  | _, _ =>
    match a, b with
    | text s, text t => .ok (r.holds (fun s t => decide (s < t)) s t)
    | list items, list others => compareItems r items others
    | a, b => .error (.notOrdered r.symbol a b)

/-- Compares lists by the first items that are not equal, and by length where there are none. -/
def compareItems (r : Relation) : List Value → List Value → Except Fault Bool
  | a :: rest, b :: others => if same a b then compareItems r rest others else compare r a b
  | items, others => .ok (r.holds (fun m n => decide (m < n)) items.length others.length)

end

/-- Whether the first value is less than the second. -/
def less (a b : Value) : Except Fault Bool := compare .less a b

/-- Whether the first value is greater than the second. -/
def greater (a b : Value) : Except Fault Bool := compare .greater a b

end SeededSketch.Value
