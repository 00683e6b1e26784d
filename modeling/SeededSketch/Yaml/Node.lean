import SeededSketch.Yaml.Resolution
import SeededSketch.Yaml.Token

/-!
# Nodes

A YAML text as a graph of nodes. Nodes are numbered as they are met, and a collection holds the
numbers of its parts, so that a reference to a node met before, or to one that is still being read,
is that node's number.

The grammar is read off the tokens by descent: a node is a scalar, a sequence or a mapping, each of
the latter two indented or in brackets, or a reference. A text holds one document at most. Reading
fails on brackets or quotes that are not closed, on bad indentation, on unknown references and
handles, on a second document, and on collections that are nested too deeply. Each call of `node`
or of a list of nodes below it takes a token, so that the number of tokens bounds the depth of the
calls.
-/

namespace SeededSketch.Yaml

/-- What a node is made of; the parts of a collection are given by their numbers. -/
inductive Parts where
  | scalar (text : CodePoints)
  | sequence (items : List Nat)
  | mapping (entries : List (Nat × Nat))

structure Node where
  tag : Tag
  parts : Parts

/-- Nodes by their numbers. -/
abbrev Nodes := Array Node

/-- What is left to read, the nodes so far, the anchors with the numbers of their nodes, what the
handles of tags stand for, and the number of collections around the present node. -/
structure Reader where
  tokens : List Token
  nodes : Nodes
  anchors : List (String × Nat)
  handles : List (String × String)
  depth : Nat

/-- A step of reading, which may fail. -/
abbrev Parse := StateT Reader Option

namespace Parse

def peek : Parse (Option Token) := fun r => some (r.tokens.head?, r)

def skip : Parse Unit := fun r => some ((), { r with tokens := r.tokens.tail })

def fail {α : Type} : Parse α := fun _ => none

/-- The value of a partial function's outcome. -/
def demand {α : Type} (result : Option α) : Parse α := fun r => result.map (·, r)

/-- Takes the token `t` if it comes next. -/
def accept (t : Token) : Parse Bool := do
  if (← peek) == some t then
    skip
    return true
  else return false

def expect (t : Token) : Parse Unit := do
  if ← accept t then return () else fail

/-- Adds a node and gives its number. -/
def add (n : Node) : Parse Nat := fun r =>
  some (r.nodes.size, { r with nodes := r.nodes.push n })

/-- Puts a node in the place of the one of the given number. -/
def put (number : Nat) (n : Node) : Parse Unit := fun r =>
  some ((), { r with nodes := r.nodes.setIfInBounds number n })

/-- Lets an anchor stand for the node of the given number. -/
def bind? (anchor : Option String) (number : Nat) : Parse Unit := fun r =>
  match anchor with
  | some name => some ((), { r with anchors := (name, number) :: r.anchors })
  | none => some ((), r)

end Parse

open Parse

/-- What the handles in front of tags stand for unless a document says otherwise. -/
def standardHandles : List (String × String) := [("!", "!"), ("!!", standardStem)]

/-- The most collections that can be around a node. -/
def greatestDepth : Nat := 487

/-- The text of a tag; a handle must be known. -/
def tagText? (handle : Option String) (suffix : String) : Parse String := do
  match handle with
  | none => return suffix
  | some handle => return (← demand ((← get).handles.lookup handle)) ++ suffix

/-- The anchor and the tag in front of a node, in either order. -/
def properties : Parse (Option String × Option String) := do
  match ← peek with
  | some (.anchor name) =>
    skip
    match ← peek with
    | some (.tag handle suffix) =>
      skip
      return (some name, some (← tagText? handle suffix))
    | _ => return (some name, none)
  | some (.tag handle suffix) =>
    skip
    let tag ← tagText? handle suffix
    match ← peek with
    | some (.anchor name) =>
      skip
      return (some name, some tag)
    | _ => return (none, some tag)
  | _ => return (none, none)

/-- The tag of a node, or `own` if none is given. -/
def tagOr (own : Tag) (tag : Option String) : Tag :=
  match tag with
  | none | some "!" => own
  | some text => .ofText text

/-- The tag of a scalar. Its spelling counts where it is plain, and where a lone mark asks for
it. -/
def scalarTag (tag : Option String) (plain : Bool) (text : CodePoints) : Tag :=
  tagOr (if plain || tag == some "!" then .ofPlain text else .text) tag

/-- A collection with its anchor, tag and parts. Its number is given out before its parts are read,
so that they can refer to it. -/
def collection {α : Type} (anchor : Option String) (tag : Tag) (parts : List α → Parts)
    (read : Parse (List α)) : Parse Nat := do
  let number ← add ⟨tag, parts []⟩
  bind? anchor number
  let depth := (← get).depth
  if greatestDepth ≤ depth then fail
  else
    modify fun r => { r with depth := depth + 1 }
    let items ← read
    put number ⟨tag, parts items⟩
    modify fun r => { r with depth }
    return number

/-- A scalar with its anchor and tag. -/
def scalar (anchor : Option String) (tag : Tag) (text : CodePoints) : Parse Nat := do
  let number ← add ⟨tag, .scalar text⟩
  bind? anchor number
  return number

/-- A scalar that is not there. -/
def nothing : Parse Nat := scalar none .null []

private def endsNode (ends : List Token) (t : Option Token) : Bool :=
  match t with
  | some t => ends.contains t
  | none => false

mutual

/-- A node. Where `block` holds, indented collections can stand; where `bare` holds, also a
sequence whose hyphens stand no deeper than the keys around it. -/
def node : Nat → Bool → Bool → Parse Nat
  | 0, _, _ => fail
  | fuel + 1, block, bare => do
    match ← peek with
    | some (.reference name) =>
      skip
      demand ((← get).anchors.lookup name)
    | _ =>
      let (anchor, tag) ← properties
      let known := (← get).anchors
      if anchor.any fun name => (known.lookup name).isSome then fail
      else content fuel block bare anchor tag

/-- What a node holds behind its anchor and its tag; with one of these it may be empty. -/
def content : Nat → Bool → Bool → Option String → Option String → Parse Nat
  | 0, _, _, _, _ => fail
  | fuel + 1, block, bare, anchor, tag => do
    let asSequence (items : Parse (List Nat)) : Parse Nat :=
      collection anchor (tagOr .sequence tag) .sequence items
    let asMapping (entries : Parse (List (Nat × Nat))) : Parse Nat :=
      collection anchor (tagOr .mapping tag) .mapping entries
    match ← peek, block, bare with
    | some .entry, _, true => asSequence (bareSequence fuel)
    | some (.scalar text plain), _, _ =>
      skip
      scalar anchor (scalarTag tag plain text) text
    | some .flowSequenceStart, _, _ =>
      skip
      asSequence (flowSequence fuel true)
    | some .flowMappingStart, _, _ =>
      skip
      asMapping (flowMapping fuel true)
    | some .blockSequenceStart, true, _ =>
      skip
      asSequence (blockSequence fuel)
    | some .blockMappingStart, true, _ =>
      skip
      asMapping (blockMapping fuel)
    | _, _, _ =>
      if anchor.isSome || tag.isSome then scalar anchor (scalarTag tag true []) [] else fail

/-- A node, or nothing where one of the tokens `ends` comes next. -/
def nodeOrNothing : Nat → List Token → Bool → Bool → Parse Nat
  | 0, _, _, _ => fail
  | fuel + 1, ends, block, bare => do
    if endsNode ends (← peek) then nothing else node fuel block bare

/-- The items of an indented sequence, up to its end. -/
def blockSequence : Nat → Parse (List Nat)
  | 0 => fail
  | fuel + 1 => do
    if ← accept .entry then
      let item ← nodeOrNothing fuel [.entry, .blockEnd] true false
      return item :: (← blockSequence fuel)
    else
      expect .blockEnd
      return []

/-- The items of a sequence that stands at the column of the keys around it. -/
def bareSequence : Nat → Parse (List Nat)
  | 0 => fail
  | fuel + 1 => do
    if ← accept .entry then
      let item ← nodeOrNothing fuel [.entry, .key, .value, .blockEnd] true false
      return item :: (← bareSequence fuel)
    else return []

/-- The entries of an indented mapping, up to its end. -/
def blockMapping : Nat → Parse (List (Nat × Nat))
  | 0 => fail
  | fuel + 1 => do
    if ← accept .key then
      let key ← nodeOrNothing fuel [.key, .value, .blockEnd] true true
      let value ←
        if ← accept .value then nodeOrNothing fuel [.key, .value, .blockEnd] true true
        else nothing
      return (key, value) :: (← blockMapping fuel)
    else
      expect .blockEnd
      return []

/-- One entry of a mapping in brackets, whose value may be missing before `closing`. -/
def flowEntry : Nat → Token → Parse (Nat × Nat)
  | 0, _ => fail
  | fuel + 1, closing => do
    let key ← nodeOrNothing fuel [.value, .separator, closing] false false
    let value ←
      if ← accept .value then nodeOrNothing fuel [.separator, closing] false false
      else nothing
    return (key, value)

/-- The items of a sequence in brackets; a pair with a colon is a mapping of its own. -/
def flowSequence : Nat → Bool → Parse (List Nat)
  | 0, _ => fail
  | fuel + 1, first => do
    if ← accept .flowSequenceEnd then return []
    else
      if !first then expect .separator
      if ← accept .flowSequenceEnd then return []
      else
        let item ←
          if ← accept .key then
            collection none .mapping .mapping do return [← flowEntry fuel .flowSequenceEnd]
          else node fuel false false
        return item :: (← flowSequence fuel false)

/-- The entries of a mapping in braces; a node without a colon is a key without a value. -/
def flowMapping : Nat → Bool → Parse (List (Nat × Nat))
  | 0, _ => fail
  | fuel + 1, first => do
    if ← accept .flowMappingEnd then return []
    else
      if !first then expect .separator
      if ← accept .flowMappingEnd then return []
      else
        let entry ←
          if ← accept .key then flowEntry fuel .flowMappingEnd
          else do
            let key ← node fuel false false
            pure (key, ← nothing)
        return entry :: (← flowMapping fuel false)

end

/-- The directives in front of a document: the version must be 1 and given once, and a handle gets
one meaning. Handles that are not mentioned keep theirs. -/
def directives : Nat → Bool → List (String × String) → Parse Unit
  | 0, _, _ => fail
  | fuel + 1, versioned, handles => do
    match ← peek with
    | some (.version major) =>
      skip
      if versioned || major != 1 then fail else directives fuel true handles
    | some (.tagHandle handle meaning) =>
      skip
      if (handles.lookup handle).isSome then fail
      else directives fuel versioned ((handle, meaning) :: handles)
    | some (.directive _) =>
      skip
      directives fuel versioned handles
    | _ => modify fun r => { r with handles := handles ++ standardHandles }

/-- Skips marks that end a document. -/
def skipDocumentEnds : Nat → Parse Unit
  | 0 => return ()
  | fuel + 1 => do
    if ← accept .documentEnd then skipDocumentEnds fuel else return ()

/-- Whether the token `t` is a directive. -/
def isDirective : Option Token → Bool
  | some (.version _) | some (.tagHandle ..) | some (.directive _) => true
  | _ => false

/-- Whether the token `t` begins or ends a document. -/
def isDocumentBoundary (t : Option Token) : Bool :=
  isDirective t || t.all fun t => t == .documentStart || t == .documentEnd

/-- The number of the top node of the only document in a text, if there is one. -/
def document (fuel : Nat) : Parse (Option Nat) := do
  let next ← peek
  let top ←
    if next.isNone then pure none
    else if isDirective next || next == some .documentStart then do
      directives fuel false []
      expect .documentStart
      if isDocumentBoundary (← peek) then some <$> nothing else some <$> node fuel true false
    else some <$> node fuel true false
  skipDocumentEnds fuel
  if (← peek).isNone then return top else fail

/-- The nodes of a text's tokens, and the number of the top one if there is any. -/
def nodesOf (tokens : List Token) : Option (Nodes × Option Nat) := do
  let (top, reader) ← (document (6 * tokens.length + 10)).run ⟨tokens, #[], [], standardHandles, 0⟩
  return (reader.nodes, top)

end SeededSketch.Yaml
