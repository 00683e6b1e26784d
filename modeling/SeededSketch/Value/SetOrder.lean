import SeededSketch.Value

/-!
# The order of sets

A set is walked through in an order of its own, whatever the order in which its members were put in.
The members lie in a table whose size is a power of two and, from five members on, more than
twice their number. A number's residue modulo a prime says where it lies; a member whose place is
taken goes to one of the next places, and if these are taken too, to one that the rest of its
residue decides. The order of the set is that of the places, so that a few small integers come in
ascending order.

Only numbers have a residue. A set with other members keeps the order in which they were put in.
-/

namespace SeededSketch

/-- How many bits the modulus of residues has. -/
def residueLength : Nat := 61

/-- The modulus of residues: a prime, of which two to the power of its length is the successor. -/
def residueModulus : Nat := twoPow residueLength - 1

/-- The residue of a number, with the number's sign; that of a fraction is the residue of its
numerator divided by that of its denominator. An infinity has a residue of its own, and minus one
counts as minus two. -/
def Number.residue? : Number → Option Int
  | .whole n => some (signed (n < 0) (n.natAbs % residueModulus))
  | .real x =>
    match Double.reading x with
    | .nan => none
    | .infinite negative => some (signed negative 314159)
    | .finite negative mantissa exponent =>
      some (signed negative (mantissa * twoPow (exponent % residueLength).toNat % residueModulus))
where
  signed (negative : Bool) (residue : Nat) : Int :=
    if !negative then residue else if residue = 1 then -2 else -residue

/-- The number of places for `n` members. -/
def setTableSize (n : Nat) : Nat := if n < 5 then 8 else twoPow ((2 * n).log2 + 1)

/-- How many places behind a taken one are tried next, if there are so many. -/
def nearbyPlaces : Nat := 9

/-- The place that a new member goes to, tried from `place` on; `remainder` is what of its residue
has not been used yet. `fuel` bounds the number of jumps. -/
def freePlace? {α : Type} (table : Array (Option α)) : Nat → Nat → Nat → Option Nat
  | 0, _, _ => none
  | fuel + 1, place, remainder =>
    let count := if place + nearbyPlaces < table.size then nearbyPlaces + 1 else 1
    match (List.range' place count).find? fun p => (table[p]?).join.isNone with
    | some free => some free
    | none =>
      let remainder := remainder / 32
      freePlace? table fuel ((5 * place + 1 + remainder) % table.size) remainder

/-- The table with a member of the given residue put in. A jump uses five bits of the 64 of a
residue; when they are used up, the jumps lead to every place. -/
def putMember {α : Type} (table : Array (Option α)) (member : α) (residue : Int) :
    Array (Option α) :=
  let bits := (residue % twoPow 64).toNat
  match freePlace? table (table.size + 14) (bits % table.size) bits with
  | some place => table.setIfInBounds place (some member)
  | none => table

/-- The members of a set, given as they were put in, in the order of the set. -/
def Value.inSetOrder (members : List Value) : List Value :=
  match members.mapM fun v => v.number?.bind Number.residue? with
  | none => members
  | some residues =>
    let empty : Array (Option Value) := Array.replicate (setTableSize members.length) none
    let table := (members.zip residues).foldl (fun table (member, residue) =>
      putMember table member residue) empty
    table.toList.filterMap id

end SeededSketch
