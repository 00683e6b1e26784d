import SeededSketch.Yaml.ScalarText

/-!
# Tokens

A YAML text as a list of tokens. Brackets, commas and marks are read off the text; the beginnings
and ends of indented blocks come from the columns, and the mark of a key may be known only when
the colon behind it is met. Such a possible key is remembered with the place of its token, one
for each depth of brackets, until its line ends.

`Token.scan` reads a whole text. Every step of it but the last moves on in the text, so the
length of the text bounds the number of steps.
-/

namespace SeededSketch.Yaml

inductive Token where
  | blockSequenceStart
  | blockMappingStart
  | blockEnd
  | flowSequenceStart
  | flowSequenceEnd
  | flowMappingStart
  | flowMappingEnd
  | entry
  | separator
  | key
  | value
  | reference (name : String)
  | anchor (name : String)
  | tag (handle : Option String) (suffix : String)
  | scalar (text : CodePoints) (plain : Bool)
  /-- The directive that gives the version, of which the major number counts. -/
  | version (major : Nat)
  /-- The directive that says what a handle in front of tags stands for. -/
  | tagHandle (handle meaning : String)
  /-- Any other directive. -/
  | directive (name : String)
  | documentStart
  | documentEnd
  deriving DecidableEq, Repr

/-- A place that may turn out to begin a key: the place of its token, where it stands in the text,
and whether the block's indentation demands that it be one. -/
structure PossibleKey where
  position : Nat
  required : Bool
  index : Nat
  line : Nat
  column : Nat

/-- The tokens so far and what reading has to know besides: the depth of brackets, the column of
the present block and of those around it, whether a key may begin here, and the possible keys by
their depth. -/
structure Scan where
  cursor : Cursor
  tokens : Array Token
  depth : Nat
  indent : Int
  outer : List Int
  keyAllowed : Bool
  possible : List (Nat × PossibleKey)

namespace Scan

def start (text : List Char) : Scan :=
  { cursor := .ofText text, tokens := #[], depth := 0, indent := -1, outer := [],
    keyAllowed := true, possible := [] }

def push (s : Scan) (t : Token) : Scan := { s with tokens := s.tokens.push t }

def inFlow (s : Scan) : Bool := s.depth != 0

/-- Moves over spaces, comments and line ends to the next token. -/
def skipToToken : Nat → Scan → Scan
  | 0, s => s
  | fuel + 1, s =>
    let c₁ := s.cursor.skip (· == ' ')
    let c₂ := if c₁.peek 0 == some '#' then c₁.skip (!isBreak ·) else c₁
    match c₂.takeBreak with
    | ([], _) => { s with cursor := c₂ }
    | (_, c₃) => skipToToken fuel { s with cursor := c₃, keyAllowed := s.keyAllowed || !s.inFlow }

/-- Forgets the possible keys whose line is over or that lie too far back; one that had to be a
key makes the text malformed. -/
def dropStale (s : Scan) : Option Scan :=
  let isStale (key : PossibleKey) : Bool :=
    key.line != s.cursor.line || 1024 < s.cursor.index - key.index
  if s.possible.any fun (_, key) => isStale key && key.required then none
  else some { s with possible := s.possible.filter fun (_, key) => !isStale key }

/-- Forgets the possible key at the present depth. -/
def dropKey (s : Scan) : Option Scan :=
  match s.possible.lookup s.depth with
  | some key =>
    if key.required then none
    else some { s with possible := s.possible.filter (·.1 != s.depth) }
  | none => some s

/-- Remembers that a key may begin here. -/
def saveKey (s : Scan) : Option Scan :=
  if s.keyAllowed then do
    let s₁ ← s.dropKey
    let key : PossibleKey :=
      ⟨s.tokens.size, !s.inFlow && s.indent == s.cursor.column, s.cursor.index, s.cursor.line,
        s.cursor.column⟩
    return { s₁ with possible := (s.depth, key) :: s₁.possible }
  else some s

/-- Ends the blocks that stand deeper than `column`. -/
def unwind (column : Int) (s : Scan) : Scan :=
  if s.inFlow then s else go s.outer s
where
  go : List Int → Scan → Scan
    | [], s => s
    | outerIndent :: rest, s =>
      if column < s.indent then
        go rest { s.push .blockEnd with indent := outerIndent, outer := rest }
      else s

/-- Begins a block at `column` with the token `t` at the place `position`, if no block stands
there yet. -/
def openBlock (column : Int) (position : Nat) (t : Token) (s : Scan) : Scan :=
  if s.indent < column then
    { s with indent := column, outer := s.indent :: s.outer,
             tokens := s.tokens.insertIdxIfInBounds position t }
  else s

/-- Adds `t` and moves over the next `n` characters. -/
def take (t : Token) (n : Nat) (s : Scan) : Scan :=
  { s.push t with cursor := s.cursor.advanceBy n }

/-! ## The kinds of tokens -/

private def fetchDocumentMark (t : Token) (s : Scan) : Option Scan := do
  let s₁ ← (s.unwind (-1)).dropKey
  return { s₁.take t 3 with keyAllowed := false }

private def fetchFlowStart (t : Token) (s : Scan) : Option Scan := do
  let s₁ ← s.saveKey
  return { s₁.take t 1 with depth := s.depth + 1, keyAllowed := true }

private def fetchFlowEnd (t : Token) (s : Scan) : Option Scan := do
  let s₁ ← s.dropKey
  return { s₁.take t 1 with depth := s.depth - 1, keyAllowed := false }

private def fetchSeparator (s : Scan) : Option Scan := do
  let s₁ ← s.dropKey
  return { s₁.take .separator 1 with keyAllowed := true }

private def fetchEntry (s : Scan) : Option Scan := do
  if s.inFlow then
    let s₁ ← s.dropKey
    return { s₁.take .entry 1 with keyAllowed := true }
  else if !s.keyAllowed then none
  else
    let s₁ ← (s.openBlock s.cursor.column s.tokens.size .blockSequenceStart).dropKey
    return { s₁.take .entry 1 with keyAllowed := true }

private def fetchKey (s : Scan) : Option Scan := do
  if s.inFlow then
    let s₁ ← s.dropKey
    return { s₁.take .key 1 with keyAllowed := false }
  else if !s.keyAllowed then none
  else
    let s₁ ← (s.openBlock s.cursor.column s.tokens.size .blockMappingStart).dropKey
    return { s₁.take .key 1 with keyAllowed := true }

/-- A colon. What began as a possible key at this depth becomes one, and begins a mapping if none
stands at its column. -/
private def fetchValue (s : Scan) : Option Scan := do
  match s.possible.lookup s.depth with
  | some key =>
    let s₁ : Scan := { s with possible := s.possible.filter (·.1 != s.depth),
                              tokens := s.tokens.insertIdxIfInBounds key.position .key }
    let s₂ := if s.inFlow then s₁ else s₁.openBlock key.column key.position .blockMappingStart
    return { s₂.take .value 1 with keyAllowed := false }
  | none =>
    if s.inFlow then
      return { s.take .value 1 with keyAllowed := false }
    else if !s.keyAllowed then none
    else
      let s₁ := s.openBlock s.cursor.column s.tokens.size .blockMappingStart
      return { s₁.take .value 1 with keyAllowed := true }

private def isAnchorCharacter (c : Char) : Bool := c.isAlphanum || c == '-' || c == '_'

private def fetchName (token : String → Token) (s : Scan) : Option Scan := do
  let s₁ ← s.saveKey
  let (name, after) := s.cursor.advance.span isAnchorCharacter
  let next := after.peek 0
  let delimited := endsWord next ||
    next.any (['?', ':', ',', ']', '\x7d', '%', '@', '\x60'].contains ·)
  if name.isEmpty || !delimited then none
  else return { s₁.push (token (.ofList name)) with cursor := after, keyAllowed := false }

private def isTagCharacter (c : Char) : Bool :=
  c.isAlphanum || (['-', ';', '/', '?', ':', '@', '&', '=', '+', '$', ',', '_', '.', '~', '*',
    '\'', '(', ')', '[', ']', '!'] : List Char).contains c

/-- The bytes that escapes in a row give: a percent sign and two hexadecimal digits each. -/
private def escapedBytes : List Char → Option (List UInt8 × List Char)
  | '%' :: a :: b :: rest => do
    let byte := 16 * (← Text.digitIn? 16 a) + (← Text.digitIn? 16 b)
    let (bytes, after) ← escapedBytes rest
    return (.ofNat byte :: bytes, after)
  | '%' :: _ => none
  | rest => some ([], rest)

/-- The text of a tag, in which escapes in a row give the characters that their bytes encode.
`fuel` bounds the number of characters and rows of escapes. -/
private def tagText : Nat → Cursor → List Char → Option (List Char × Cursor)
  | 0, _, _ => none
  | fuel + 1, c, text =>
    match c.peek 0 with
    | some '%' => do
      let (bytes, after) ← escapedBytes c.rest
      let decoded ← String.fromUTF8? ⟨bytes.toArray⟩
      tagText fuel (c.advanceBy (c.rest.length - after.length)) (text ++ decoded.toList)
    | some ch =>
      if isTagCharacter ch then tagText fuel c.advance (text ++ [ch]) else some (text, c)
    | none => some (text, c)

/-- The text of a tag, of which there must be something. -/
private def readTagText (c : Cursor) : Option (String × Cursor) := do
  let (text, after) ← tagText (c.rest.length + 1) c []
  if after.index == c.index then none else return (.ofList text, after)

/-- A handle: a mark alone in front of a blank, or a name between two marks. -/
private def readHandle (c : Cursor) : Option (String × Cursor) :=
  if c.peek 0 != some '!' then none
  else if c.peek 1 == some ' ' then some ("!", c.advance)
  else
    let (name, after) := c.advance.span isAnchorCharacter
    if after.peek 0 == some '!' then some (.ofList ('!' :: name ++ ['!']), after.advance) else none

/-- Whether a space or a line end comes next. -/
private def endsPart (c : Cursor) : Bool := c.peek 0 == some ' ' || endsLine (c.peek 0)

/-- A tag: in angle brackets, a lone mark, or a handle with a suffix. -/
private def readTag (c : Cursor) : Option (Option String × String × Cursor) := do
  let (handle, suffix, after) ←
    match c.peek 1 with
    | some '<' => do
      let (name, after) ← readTagText (c.advanceBy 2)
      if after.peek 0 == some '>' then some (none, name, after.advance) else none
    | next =>
      if endsWord next then some (none, "!", c.advance)
      else do
        let word := c.advance.rest.takeWhile fun ch => !(ch == ' ' || isBreak ch)
        let (handle, c₁) ← if word.contains '!' then readHandle c else some ("!", c.advance)
        let (suffix, after) ← readTagText c₁
        some (some handle, suffix, after)
  if endsPart after then return (handle, suffix, after) else none

private def fetchTag (s : Scan) : Option Scan := do
  let s₁ ← s.saveKey
  let (handle, suffix, after) ← readTag s.cursor
  return { s₁.push (.tag handle suffix) with cursor := after, keyAllowed := false }

private def fetchBlock (folded : Bool) (s : Scan) : Option Scan := do
  let s₁ ← s.dropKey
  let (text, after) ← readBlock folded s.indent s.cursor
  return { s₁.push (.scalar (.ofChars text) false) with cursor := after, keyAllowed := true }

private def fetchQuoted (double : Bool) (s : Scan) : Option Scan := do
  let s₁ ← s.saveKey
  let (text, after) ← readQuoted double s.cursor
  return { s₁.push (.scalar text false) with cursor := after, keyAllowed := false }

private def fetchPlain (s : Scan) : Option Scan := do
  let s₁ ← s.saveKey
  let plain := readPlain s.inFlow (s.indent + 1) s.cursor
  return { s₁.push (.scalar (.ofChars plain.text) true) with
    cursor := plain.after, keyAllowed := plain.lineEnded }

/-! ## Directives -/

/-- A number of at least one digit. -/
private def readDigits (c : Cursor) : Option (Nat × Cursor) :=
  let (digits, after) := c.span Char.isDigit
  if digits.isEmpty || Decimal.maximalDigits < digits.length then none
  else some (Text.digitsValue digits, after)

/-- The version directive behind its name: two numbers with a point between them. -/
private def readVersion (c : Cursor) : Option (Token × Cursor) := do
  let (major, c₁) ← readDigits (c.skip (· == ' '))
  if c₁.peek 0 != some '.' then none
  else
    let (_, c₂) ← readDigits c₁.advance
    if endsPart c₂ then return (.version major, c₂) else none

/-- The directive of a handle behind its name: the handle, and what it stands for. -/
private def readTagHandle (c : Cursor) : Option (Token × Cursor) := do
  let (handle, c₁) ← readHandle (c.skip (· == ' '))
  if c₁.peek 0 != some ' ' then none
  else
    let (meaning, c₂) ← readTagText (c₁.skip (· == ' '))
    if endsPart c₂ then return (.tagHandle handle meaning, c₂) else none

/-- A line that begins with a percent sign. -/
private def fetchDirective (s : Scan) : Option Scan := do
  let s₁ ← (s.unwind (-1)).dropKey
  let (name, c₁) := s.cursor.advance.span isAnchorCharacter
  if name.isEmpty || !endsPart c₁ then none
  else
    let (token, c₂) ←
      if name == "YAML".toList then readVersion c₁
      else if name == "TAG".toList then readTagHandle c₁
      else some (.directive (.ofList name), c₁.skip (!isBreak ·))
    return { s₁.push token with cursor := ← c₂.finishLine?, keyAllowed := false }

/-- Whether a plain scalar can begin here. -/
private def startsPlain (s : Scan) (c : Char) : Bool :=
  let indicator := (['-', '?', ':', ',', '[', ']', '\x7b', '\x7d', '#', '&', '*', '!', '|', '>',
    '\'', '"', '%', '@', '\x60'] : List Char).contains c
  (!endsWord (some c) && !indicator)
    || (!endsWord (s.cursor.peek 1) && (c == '-' || (!s.inFlow && (c == '?' || c == ':'))))

/-- Reads the token that begins with the character `c`. -/
private def fetch (s : Scan) (c : Char) : Option Scan :=
  let aloneAhead := endsWord (s.cursor.peek 1)
  let atLineStart := s.cursor.column == 0
  if c == '%' && atLineStart then s.fetchDirective
  else if c == '-' && atLineStart && s.cursor.atSeparator then s.fetchDocumentMark .documentStart
  else if c == '.' && atLineStart && s.cursor.atSeparator then s.fetchDocumentMark .documentEnd
  else if c == '[' then s.fetchFlowStart .flowSequenceStart
  else if c == '\x7b' then s.fetchFlowStart .flowMappingStart
  else if c == ']' then s.fetchFlowEnd .flowSequenceEnd
  else if c == '\x7d' then s.fetchFlowEnd .flowMappingEnd
  else if c == ',' then s.fetchSeparator
  else if c == '-' && aloneAhead then s.fetchEntry
  else if c == '?' && (s.inFlow || aloneAhead) then s.fetchKey
  else if c == ':' && (s.inFlow || aloneAhead) then s.fetchValue
  else if c == '*' then s.fetchName .reference
  else if c == '&' then s.fetchName .anchor
  else if c == '!' then s.fetchTag
  else if c == '|' && !s.inFlow then s.fetchBlock false
  else if c == '>' && !s.inFlow then s.fetchBlock true
  else if c == '\'' then s.fetchQuoted false
  else if c == '"' then s.fetchQuoted true
  else if s.startsPlain c then s.fetchPlain
  else none

/-- Reads tokens up to the end of the text. -/
def run : Nat → Scan → Option (List Token)
  | 0, _ => none
  | fuel + 1, s => do
    let s₁ ← (skipToToken (s.cursor.rest.length + 1) s).dropStale
    let s₂ := s₁.unwind s₁.cursor.column
    match s₂.cursor.peek 0 with
    | none =>
      let s₃ ← (s₂.unwind (-1)).dropKey
      return s₃.tokens.toList
    | some c => run fuel (← s₂.fetch c)

end Scan

/-- The tokens of a text; nothing if the text is malformed. -/
def Token.scan (text : List Char) : Option (List Token) :=
  let start := Scan.start text
  let cursor :=
    if start.cursor.peek 0 == some '\ufeff' then start.cursor.advance else start.cursor
  Scan.run (text.length + 1) { start with cursor }

end SeededSketch.Yaml
