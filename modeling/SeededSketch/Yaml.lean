import SeededSketch.Value.SetOrder
import SeededSketch.Yaml.Merge

/-!
# YAML

Reads a YAML text as a value. `Yaml.read` fails on a malformed text: on one that is no sequence of
tokens, on one whose tokens are no nodes, and on nodes that denote nothing, such as keys that are
lists or mappings, or a scalar that is not what its tag says. An empty text denotes nothing.

Of the nodes only those that can be met from the top one are given a meaning, nearer ones before
farther ones: a mapping is merged when its turn comes. What a collection means is kept by the
numbers of its parts at first, so that a node has one meaning however often it is referred to;
`valueOf` then unfolds the meaning of the top node, with marks where a collection is met inside
itself.
-/

namespace SeededSketch.Yaml

/-! ## What nodes denote -/

/-- What a node means, the parts of a collection being given by their numbers. -/
inductive Meaning where
  | single (v : Value)
  | list (items : List Nat)
  | pairs (entries : List (Nat × Nat))
  | set (members : List Value)
  | map (entries : List (Value × Nat))

/-- The nodes, the meanings so far by the numbers of their nodes, and the collections whose turn is
still to come, the nearest last. -/
structure Interpretation where
  nodes : Nodes
  meanings : Array (Option Meaning)
  waiting : List Nat

/-- A step of interpretation, which may fail. -/
abbrev Interpret := StateT Interpretation Option

namespace Interpret

def fail {α : Type} : Interpret α := fun _ => none

/-- The value of a partial function's outcome. -/
def demand {α : Type} (result : Option α) : Interpret α := fun i => result.map (·, i)

def setMeaning (number : Nat) (meaning : Meaning) : Interpret Unit :=
  modify fun i => { i with meanings := i.meanings.setIfInBounds number (some meaning) }

def meaning? (number : Nat) : Interpret (Option Meaning) := do
  return ((← get).meanings[number]?).join

/-- The text that a node is read from: its own, or that of the value under the key of a mapping
that stands for the mapping. -/
def textOf (nodes : Nodes) : Nat → Nat → Option CodePoints
  | 0, _ => none
  | fuel + 1, number =>
    match (nodes[number]?).map Node.parts with
    | some (.scalar text) => some text
    | some (.mapping entries) =>
      match entries.find? fun entry => nodes.tag? entry.1 == some .value with
      | some (_, value) => textOf nodes fuel value
      | none => none
    | _ => none

/-- Whether a node is a scalar of its own. -/
def isScalar (nodes : Nodes) (number : Nat) : Bool :=
  match (nodes[number]?).map Node.parts with
  | some (.scalar _) => true
  | _ => false

/-- Gives a scalar its meaning, and lets a collection wait for its turn; a node that is known
already is left alone. -/
def visit (number : Nat) : Interpret Unit := do
  if (← meaning? number).isSome then return
  else
    let nodes := (← get).nodes
    match ← demand (nodes.tag? number) with
    | .sequence | .mapping | .set | .orderedMap | .pairs =>
      setMeaning number (.list [])
      modify fun i => { i with waiting := number :: i.waiting }
    | tag =>
      if tag == .timestamp && !isScalar nodes number then fail
      else
        let text ← demand (textOf nodes (nodes.size + 1) number)
        setMeaning number (.single (← demand (scalar? tag text)))

/-- The value of a key, which must be one that can be a key. -/
def keyOf (number : Nat) : Interpret Value := do
  visit number
  match ← meaning? number with
  | some (.single v) => return v
  | _ => fail

/-- The entries of a mapping after it has been merged, with the values of their keys. A key that is
there already gets the new value. -/
def mappingOf (number : Nat) : Interpret (List (Value × Nat)) := do
  let (nodes, entries) ← demand ((← get).nodes.merged number)
  modify fun i => { i with nodes }
  entries.foldlM (fun found (key, value) => do
    let key ← keyOf key
    visit value
    return Value.insert key value found) []

/-- The only entry of a mapping. -/
def pairOf (number : Nat) : Interpret (Nat × Nat) := do
  match (← get).nodes.entries? number with
  | some [(key, value)] =>
    visit key
    visit value
    return (key, value)
  | _ => fail

/-- The items of a sequence. -/
def itemsOf (number : Nat) : Interpret (List Nat) := do
  match ((← get).nodes[number]?).map Node.parts with
  | some (.sequence items) => return items
  | _ => fail

/-- Gives a collection its meaning, and visits its parts. -/
def interpret (number : Nat) : Interpret Unit := do
  match (← get).nodes.tag? number with
  | some .sequence =>
    let items ← itemsOf number
    items.forM visit
    setMeaning number (.list items)
  | some .mapping => setMeaning number (.map (← mappingOf number))
  | some .set =>
    setMeaning number (.set (Value.inSetOrder ((← mappingOf number).map Prod.fst)))
  | some .orderedMap | some .pairs =>
    setMeaning number (.pairs (← (← itemsOf number).mapM pairOf))
  | _ => fail

/-- Gives all collections that wait, and those that are met in them, their meanings; `fuel` bounds
how far they are from the top. -/
def interpretAll : Nat → Interpret Unit
  | 0 => fail
  | fuel + 1 => do
    let waiting := (← get).waiting
    if waiting.isEmpty then return
    else
      modify fun i => { i with waiting := [] }
      waiting.reverse.forM interpret
      interpretAll fuel

end Interpret

/-! ## Unfolding -/

/-- The values of the nodes that are unfolded already and contain no collection around them. -/
abbrev Unfolding := Array (Option Value)

/-- A value, with the labels of the collections around it that are met in it. -/
abbrev Unfolded := Value × List Nat

/-- Notes the value of a collection, with a mark if it is met inside itself. -/
def finish (number : Nat) (v : Value) (labels : List Nat) : StateM Unfolding Unfolded := do
  let value := if labels.contains number then .loop number v else v
  let outer := (labels.filter (· != number)).eraseDups
  if outer.isEmpty then modify fun known => known.setIfInBounds number (some value)
  return (value, outer)

/-- The value of a node inside the collections `around`; `fuel` bounds their number. -/
def unfold (meanings : Array (Option Meaning)) :
    Nat → List Nat → Nat → StateM Unfolding Unfolded
  | 0, _, _ => return (.null, [])
  | fuel + 1, around, number => do
    let part := unfold meanings fuel (number :: around)
    match (meanings[number]?).join, ((← get)[number]?).join with
    | _, some value => return (value, [])
    | none, none => return (.null, [])
    | some (.single v), none => return (v, [])
    | some (.set members), none => return (.set members, [])
    | some (.list items), none =>
      if around.contains number then return (.again number .list, [number])
      else
        let parts ← items.mapM part
        finish number (.list (parts.map Prod.fst)) (parts.flatMap Prod.snd)
    | some (.pairs entries), none =>
      if around.contains number then return (.again number .list, [number])
      else
        let parts ← entries.mapM fun (key, value) => do
          let (first, labels) ← part key
          let (second, others) ← part value
          return (Value.pair first second, labels ++ others)
        finish number (.list (parts.map Prod.fst)) (parts.flatMap Prod.snd)
    | some (.map entries), none =>
      if around.contains number then return (.again number .map, [number])
      else
        let parts ← entries.mapM fun (key, value) => do
          let (value, labels) ← part value
          return ((key, value), labels)
        finish number (.map (parts.map Prod.fst)) (parts.flatMap Prod.snd)

/-- The value of the node `top`. -/
def valueOf (nodes : Nodes) (top : Nat) : Option Value := do
  let start : Interpretation := ⟨nodes, Array.replicate nodes.size none, []⟩
  let (_, i) ← (do Interpret.visit top; Interpret.interpretAll (nodes.size + 1)).run start
  let known : Unfolding := Array.replicate nodes.size none
  return ((unfold i.meanings (nodes.size + 1) [] top).run known).1.1

/-! ## Texts -/

/-- The characters that a text may hold. -/
def isAllowed (c : Char) : Bool :=
  let n := c.toNat
  n == 0x09 || n == 0x0a || n == 0x0d || (0x20 ≤ n && n ≤ 0x7e) || n == 0x85
    || (0xa0 ≤ n && n ≤ 0xfffd) || 0x10000 ≤ n

/-- The text with a line feed for every line end, whether it is a line feed, a carriage return or
both. -/
def withLineFeeds : List Char → List Char
  | '\r' :: '\n' :: rest => '\n' :: withLineFeeds rest
  | '\r' :: rest => '\n' :: withLineFeeds rest
  | c :: rest => c :: withLineFeeds rest
  | [] => []

/-- The value of a text; nothing if the text is malformed. -/
def read (text : String) : Option Value := do
  let s := withLineFeeds text.toList
  if s.all isAllowed then
    let (nodes, top) ← nodesOf (← Token.scan s)
    match top with
    | none => return .null
    | some top => valueOf nodes top
  else none

end SeededSketch.Yaml
