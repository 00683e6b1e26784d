import SeededSketch.Mesh

/-!
# Meshes from nested lists

Vertices and offsets can be supplied as nested lists of numbers. A nested list is first read as a
grid: the lengths along each direction, and the entries in order. All entries of a grid are of
one type, the least that has room for each of them: truth values, integers of 64 bits with or
without a sign, doubles, texts, or values of any kind. The type decides how an entry becomes a
coordinate or an offset, and what is wrong with one that cannot.
-/

namespace SeededSketch

/-- The extent of a grid in each direction, the outermost first, and its entries in order. -/
structure Grid where
  extents : List Nat
  entries : List Value

namespace Grid

/-- Whether an integer fits into a signed word of the given number of bits. -/
def fitsSigned (bits : Nat) (n : Int) : Bool :=
  -(twoPow (bits - 1) : Int) ≤ n && n < twoPow (bits - 1)

/-- Whether an integer fits into an unsigned word of the given number of bits. -/
def fitsUnsigned (bits : Nat) (n : Int) : Bool := 0 ≤ n && n < twoPow bits

/-- The common beginning of two lists of extents. -/
def commonExtents : List Nat → List Nat → List Nat
  | a :: as, b :: bs => if a = b then a :: commonExtents as bs else []
  | _, _ => []

/-- The extents that several parts have in common, and whether they agree on all of them. -/
def sharedExtents : List (List Nat × Bool) → List Nat × Bool
  | [] => ([], true)
  | part :: rest =>
    rest.foldl (fun (extents, even) (next, evenNext) =>
      (commonExtents extents next, even && evenNext && extents == next)) part

mutual

/-- The extents of a nested list as far as its parts agree, and whether they agree throughout. -/
def extentsOf : Value → List Nat × Bool
  | .list items =>
    let (extents, even) := sharedExtents (extentsOfAll items)
    (items.length :: extents, even)
  | _ => ([], true)

def extentsOfAll : List Value → List (List Nat × Bool)
  | [] => []
  | item :: rest => extentsOf item :: extentsOfAll rest

end

mutual

/-- The innermost entries of a nested list. -/
def entriesOf : Value → List Value
  | .list items => entriesOfAll items
  | v => [v]

def entriesOfAll : List Value → List Value
  | [] => []
  | item :: rest => entriesOf item ++ entriesOfAll rest

end

/-- The most directions that a grid can have. -/
def greatestDimension : Nat := 64

/-- Reads a nested list, whose parts must have the same extents. Lists below the last direction that
is left count as too deep, whatever their extents. -/
def ofValue (v : Value) : Except Fault Grid :=
  let (extents, even) := extentsOf v
  if greatestDimension < extents.length || (!even && extents.length = greatestDimension) then
    .error (.tooManyDimensions greatestDimension)
  else if even then .ok ⟨extents, entriesOf v⟩
  else .error (.raggedArray extents)

/-! ## Types of entries -/

/-- What all entries of a grid are taken for. -/
inductive EntryType where
  | truth
  | signed
  | unsigned
  | real
  | text
  | any
  deriving DecidableEq, Repr

/-- The type of a single entry. An integer needs a type without a sign only if it has no room in
the one with a sign. -/
def typeOf : Value → EntryType
  | .bool _ => .truth
  | .number (.whole n) =>
    if fitsSigned 64 n then .signed else if fitsUnsigned 64 n then .unsigned else .any
  | .number (.real _) => .real
  | .text _ => .text
  | _ => .any

/-- The least type with room for two types. Integers with and without a sign are both doubles. -/
def EntryType.join : EntryType → EntryType → EntryType
  | .any, _ | _, .any => .any
  | .text, _ | _, .text => .text
  | .real, _ | _, .real => .real
  | .truth, s | s, .truth => s
  | .signed, .signed => .signed
  | .unsigned, .unsigned => .unsigned
  | .signed, .unsigned | .unsigned, .signed => .real

def entryType (g : Grid) : EntryType := (g.entries.map typeOf).foldl EntryType.join .truth

/-- The entry that stands for zero in a grid of a type. -/
def EntryType.zero : EntryType → Value
  | .text => .text ""
  | _ => .number (.whole 0)

/-! ## Entries as coordinates and offsets -/

/-- The integer that a truth value or an integer is. -/
private def wholeEntry (v : Value) : Int :=
  match v.number? with
  | some (.whole n) => n
  | _ => 0

/-- The text of an entry in a grid of texts, which are kept without zeros at their ends. -/
private def textEntry (v : Value) : String :=
  .ofList (v.display.toList.reverse.dropWhile (· == '\x00')).reverse

/-- An entry as a coordinate. Integers are rounded once, all else by way of a double; where entries
are of any kind, nothing counts as no number. -/
def singleOf (type : EntryType) (v : Value) : Except Fault Single :=
  match type, v with
  | .truth, v | .signed, v | .unsigned, v => .ok (.ofInt (wholeEntry v))
  | .text, v =>
    match Text.real? (textEntry v) with
    | some x => .ok (.ofFloat x)
    | none => .error (.entryUnreadableReal (textEntry v))
  | .any, .null => .ok .nan
  | _, v => do return .ofFloat (← v.toReal)

/-- A double cut to a 32-bit word; what does not fit gives the least word. -/
def cutToWord (x : Float) : Int32 :=
  match Double.truncate? x with
  | some n => if fitsSigned 32 n then Int32.ofInt n else Int32.minValue
  | none => Int32.minValue

/-- An integer as a 32-bit word, for which it must not be too large. -/
def checkedWord (n : Int) : Except Fault Int32 :=
  if fitsSigned 32 n then .ok (Int32.ofInt n)
  else .error (if fitsSigned 64 n then .entryOutOfRange n else .tooLargeForWord)

/-- An entry as an offset. Integers of 64 bits lose their upper bits; doubles are cut. -/
def wordOf (type : EntryType) (v : Value) : Except Fault Int32 :=
  match type with
  | .truth | .signed | .unsigned => .ok (Int32.ofInt (wholeEntry v))
  | .real => do return cutToWord (← v.toReal)
  | .text =>
    match Text.readWhole (textEntry v) with
    | .whole n => checkedWord n
    | .tooLong digits => .error (.numeralTooLong digits)
    | .malformed => .error (.entryUnreadableWhole (textEntry v))
  | .any => do checkedWord (← v.toWhole)

end Grid

namespace Mesh

/-- Vertices from the entries of a grid, three at a time. -/
def verticesOfTriples (type : Grid.EntryType) : List Value → Except Fault (List Vertex)
  | x :: y :: z :: rest => do
    let x ← Grid.singleOf type x
    let y ← Grid.singleOf type y
    let z ← Grid.singleOf type z
    return ⟨x, y, z⟩ :: (← verticesOfTriples type rest)
  | _ => .ok []

/-- The entries of a grid of two columns, two at a time, with zero for the third column. -/
def withThirdColumn (zero : Value) : List Value → List Value
  | x :: y :: rest => x :: y :: zero :: withThirdColumn zero rest
  | _ => []

/-- The vertices in a grid of two or three columns. -/
def verticesOf (g : Grid) : Except Fault (List Vertex) :=
  match g.extents with
  | [_, 2] => verticesOfTriples g.entryType (withThirdColumn g.entryType.zero g.entries)
  | [_, 3] => verticesOfTriples g.entryType g.entries
  | _ => .error .vertexShape

/-- The offsets in a grid of one direction. -/
def offsetsOf (g : Grid) : Except Fault (List Int32) :=
  match g.extents with
  | [_] => g.entries.mapM (Grid.wordOf g.entryType)
  | _ => .error .offsetsShape

/-- A mesh from nested lists and fills. -/
def ofValues (vertices offsets : Value) (fills : List Fill) : Except Fault Mesh := do
  let vertexGrid ← Grid.ofValue vertices
  let offsetGrid ← Grid.ofValue offsets
  make (← verticesOf vertexGrid) (← offsetsOf offsetGrid) fills

end Mesh
end SeededSketch
