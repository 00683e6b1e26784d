import SeededSketch.Calendar
import SeededSketch.Text.Character

/-!
# Values

What a caller or a settings file can supply: nothing, truth values, numbers, texts, lists and
mappings, and from settings files also bytes, dates, sets and pairs. A number is whole or real,
since the two differ in what their messages show and in whether they can be too large. A value can
also stand for a node of a sketch that was put where plain data belongs; then only its kind
matters.

A list or a mapping can contain itself. Such a container is marked by `loop` with a label, and
`again` with that label stands for the container wherever it is met inside itself. `unrolled` puts
the container back into its own parts, so that each part is a value on its own.
-/

namespace SeededSketch

/-- An integer of any size, or a double. -/
inductive Number where
  | whole (n : Int)
  | real (x : Float)

/-- The kinds of node that a sketch is built from. -/
inductive Kind where
  | constant
  | random
  | named
  | calculated
  | combined
  | paint
  | rectangle
  | rotate
  | move
  | group
  deriving DecidableEq, Repr

/-- The name of a kind in messages. -/
def Kind.name : Kind → String
  | .constant => "Constant"
  | .random => "Random"
  | .named => "Named"
  | .calculated => "Calculated"
  | .combined => "Combined"
  | .paint => "ColorExpr"
  | .rectangle => "Rectangle"
  | .rotate => "Rotate"
  | .move => "Move"
  | .group => "Group"

/-- The name of a kind with the part of the program that defines it. -/
def Kind.qualifiedName (k : Kind) : String :=
  let part := match k with
    | .constant | .random | .named | .calculated | .combined => "expr"
    | .paint => "color"
    | .rectangle | .rotate | .move | .group => "shape"
  "shapeseed.core." ++ part ++ "." ++ k.name

/-- The containers that can contain themselves. -/
inductive Container where
  | list
  | map
  deriving DecidableEq, Repr

inductive Value where
  | null
  | bool (b : Bool)
  | number (n : Number)
  | text (s : String)
  /-- A text with surrogates in it. -/
  | broken (points : CodePoints)
  | bytes (data : List UInt8)
  | date (d : Date)
  | moment (m : Moment)
  | list (items : List Value)
  | pair (first second : Value)
  | set (members : List Value)
  | map (entries : List (Value × Value))
  /-- The container `v`, in which it is met again under `label`. -/
  | loop (label : Nat) (v : Value)
  /-- The container of the given label, met inside itself. -/
  | again (label : Nat) (container : Container)
  | node (kind : Kind)

namespace Value

/-- The value of a text by its code points. -/
def ofPoints (points : CodePoints) : Value :=
  match points.toChars? with
  | some s => text (.ofList s)
  | none => broken points

/-- The name of a value's type in messages. -/
def typeName : Value → String
  | null => "NoneType"
  | bool _ => "bool"
  | number (.whole _) => "int"
  | number (.real _) => "float"
  | text _ | broken _ => "str"
  | bytes _ => "bytes"
  | date _ => "date"
  | moment _ => "datetime"
  | list _ | again _ .list => "list"
  | pair .. => "tuple"
  | set _ => "set"
  | map _ | again _ .map => "dict"
  | loop _ v => v.typeName
  | node kind => kind.name

/-- The name of a value's type, a node's with the part that defines it. -/
def qualifiedTypeName : Value → String
  | node kind => kind.qualifiedName
  | v => v.typeName

/-! ## Containers inside themselves -/

mutual

/-- A value with `container` wherever the container of that label is met again. -/
def replaceAgain (label : Nat) (container : Value) : Value → Value
  | again l kind => if l = label then container else again l kind
  | list items => list (replaceInItems label container items)
  | pair first second =>
    pair (replaceAgain label container first) (replaceAgain label container second)
  | map entries => map (replaceInEntries label container entries)
  | loop l v => loop l (replaceAgain label container v)
  | v => v

def replaceInItems (label : Nat) (container : Value) : List Value → List Value
  | [] => []
  | item :: rest => replaceAgain label container item :: replaceInItems label container rest

def replaceInEntries (label : Nat) (container : Value) :
    List (Value × Value) → List (Value × Value)
  | [] => []
  | (key, value) :: rest =>
    (key, replaceAgain label container value) :: replaceInEntries label container rest

end

/-- A container that contains itself as one whose parts can be taken out of it: each part has the
whole container in it where it met the container again. -/
def unrolled : Value → Value
  | loop label v => replaceAgain label (loop label v) v
  | v => v

/-- The elements met on walking through a value: the items of a list, a pair or a set, the
characters of a text, the numbers of bytes, the keys of a mapping. Other values have none to walk
through. -/
def items? (v : Value) : Option (List Value) :=
  match v.unrolled with
  | list items | set items => some items
  | pair first second => some [first, second]
  | text s => some (s.toList.map fun c => text (.singleton c))
  | broken points => some (points.map fun n => ofPoints [n])
  | bytes data => some (data.map fun b => number (.whole b.toNat))
  | map entries => some (entries.map Prod.fst)
  | _ => none

/-- The entries of a mapping. -/
def entries? (v : Value) : Option (List (Value × Value)) :=
  match v.unrolled with
  | map entries => some entries
  | _ => none

/-- Whether a value can be a key: lists, sets and mappings cannot. -/
def isKey : Value → Bool
  | list _ | set _ | map _ | loop .. | again .. => false
  | pair first second => first.isKey && second.isKey
  | _ => true

end Value

namespace Number

/-- How two numbers compare, a whole one exactly with a real one; `none` if one of them is no
number. -/
def compare? : Number → Number → Option Ordering
  | .whole m, .whole n => some (compare m n)
  | .real x, .real y =>
    if x < y then some .lt else if y < x then some .gt else if x == y then some .eq else none
  | .whole m, .real y => compareWhole m y
  | .real x, .whole n => (compareWhole n x).map Ordering.swap
where
  /-- Compares an integer with a double. -/
  compareWhole (m : Int) (y : Float) : Option Ordering :=
    match Double.reading y with
    | .nan => none
    | .infinite negative => some (if negative then .gt else .lt)
    | .finite negative mantissa exponent =>
      let ratio := ratioOf mantissa exponent
      let signed : Int := if negative then -(ratio.1 : Int) else ratio.1
      some (compare (m * ratio.2) signed)

def lt (a b : Number) : Bool := a.compare? b == some .lt

def le (a b : Number) : Bool := a.compare? b == some .lt || a.compare? b == some .eq

def eq (a b : Number) : Bool := a.compare? b == some .eq

end Number

namespace Value

/-- The number that a value counts as: a truth value is one or zero. -/
def number? : Value → Option Number
  | number n => some n
  | bool b => some (.whole (if b then 1 else 0))
  | _ => none

/-- Whether two values are the same key. -/
def sameKey (a b : Value) : Bool :=
  match a, b with
  | null, null => true
  | text s, text t => s == t
  | broken p, broken q => p == q
  | bytes p, bytes q => p == q
  | date d, date e => d == e
  | moment m, moment n => m.sameInstant n
  | node j, node k => j == k
  | a, b =>
    match a.number?, b.number? with
    | some m, some n => m.eq n
    | _, _ => false

/-- The value under `key` in the entries of a mapping. -/
def find? (key : Value) (entries : List (Value × Value)) : Option Value :=
  (entries.find? fun entry => entry.1.sameKey key).map Prod.snd

/-- The entries with `value` under `key`, in its old place if the key is there and at the end
otherwise. -/
def insert {α : Type} (key : Value) (value : α) : List (Value × α) → List (Value × α)
  | [] => [(key, value)]
  | entry :: rest =>
    if entry.1.sameKey key then (entry.1, value) :: rest else entry :: insert key value rest

end Value
end SeededSketch
