import SeededSketch.Yaml.Node

/-!
# Merged mappings

A mapping may hold keys that take over the entries of other mappings: of one mapping, or of several
in a sequence, of which the first has the last word. `merged` gives the nodes in which the entries
that are taken over stand in front of the mapping's own, so that its own come later and win.

Mappings whose entries are taken over are merged themselves at that time, and once only: what they
take over is then among their entries. A mapping may so take over entries of itself.
-/

namespace SeededSketch.Yaml

namespace Nodes

def tag? (nodes : Nodes) (number : Nat) : Option Tag := (nodes[number]?).map Node.tag

/-- The entries of a mapping. -/
def entries? (nodes : Nodes) (number : Nat) : Option (List (Nat × Nat)) :=
  match nodes[number]? with
  | some ⟨_, .mapping entries⟩ => some entries
  | _ => none

def setTag (nodes : Nodes) (number : Nat) (tag : Tag) : Nodes :=
  nodes.modify number fun n => { n with tag }

def setEntries (nodes : Nodes) (number : Nat) (entries : List (Nat × Nat)) : Nodes :=
  nodes.modify number fun n => { n with parts := .mapping entries }

mutual

/-- The nodes after the mapping of the given number has been merged. Its keys are gone through one
by one: `place` is the first that is not yet done, `rest` are the entries from there on, and `taken`
has been taken over so far. `fuel` bounds the keys that take entries over. -/
def mergeFrom (fuel : Nat) (nodes : Nodes) (number place : Nat) (taken rest : List (Nat × Nat)) :
    Option Nodes := do
  match rest with
  | [] =>
    if taken.isEmpty then return nodes
    else return nodes.setEntries number (taken ++ (← nodes.entries? number))
  | (key, value) :: rest =>
    match nodes.tag? key with
    | some .merge =>
      match fuel with
      | 0 => none
      | fuel + 1 =>
        let entries ← nodes.entries? number
        let nodes := nodes.setEntries number (entries.eraseIdx place)
        let (nodes, sources) ← takeFrom fuel nodes value
        let entries ← nodes.entries? number
        mergeFrom fuel nodes number place (taken ++ sources) (entries.drop place)
    | some .value => mergeFrom fuel (nodes.setTag key .text) number (place + 1) taken rest
    | _ => mergeFrom fuel nodes number (place + 1) taken rest
termination_by (fuel, 0, rest.length)

/-- The entries to take over from a mapping, or from a sequence of mappings. -/
def takeFrom (fuel : Nat) (nodes : Nodes) (number : Nat) : Option (Nodes × List (Nat × Nat)) :=
  match nodes[number]? with
  | some ⟨_, .mapping _⟩ => takeFromAll fuel nodes [number]
  | some ⟨_, .sequence items⟩ => takeFromAll fuel nodes items
  | _ => none
termination_by (fuel, 2, 0)

/-- The entries to take over from several mappings, those of the last mapping first. -/
def takeFromAll (fuel : Nat) (nodes : Nodes) (numbers : List Nat) :
    Option (Nodes × List (Nat × Nat)) := do
  match numbers with
  | [] => return (nodes, [])
  | number :: rest =>
    let nodes ← mergeFrom fuel nodes number 0 [] (← nodes.entries? number)
    let entries ← nodes.entries? number
    let (nodes, others) ← takeFromAll fuel nodes rest
    return (nodes, others ++ entries)
termination_by (fuel, 1, numbers.length)

end

/-- The number of entries and items of all nodes. -/
def size (nodes : Nodes) : Nat :=
  nodes.foldl (fun n node => n + match node.parts with
    | .scalar _ => 1
    | .sequence items => items.length + 1
    | .mapping entries => entries.length + 1) 0

/-- The nodes after the mapping of the given number has been merged, and its entries. -/
def merged (nodes : Nodes) (number : Nat) : Option (Nodes × List (Nat × Nat)) := do
  let nodes ← mergeFrom (size nodes) nodes number 0 [] (← nodes.entries? number)
  return (nodes, ← nodes.entries? number)

end Nodes
end SeededSketch.Yaml
