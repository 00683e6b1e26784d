import SeededSketch.Text.Character
import SeededSketch.Text.Numeral
import SeededSketch.Yaml.Cursor

/-!
# Texts of scalars

The three ways in which a scalar can be written: plain, in quotes, and as an indented block. Each
reader gives the text that is meant, with line ends folded, and the place behind it. A text in
quotes may hold escapes by number, also of surrogates, and is read as code points. Where a text
can be malformed the reader may fail; the counters that bound the loops are taken from the length
of what is left.
-/

namespace SeededSketch.Yaml

/-! ## Plain scalars -/

/-- The characters that end a plain scalar inside brackets. -/
def isFlowIndicator (c : Char) : Bool := c ∈ [',', '[', ']', '\x7b', '\x7d']

/-- How many characters come next that belong to one word of a plain scalar. -/
def plainRun (flow : Bool) : List Char → Nat
  | [] => 0
  | c :: rest =>
    let next := rest.head?
    let endsHere := endsWord (some c)
      || (c == ':' && (endsWord next || (flow && next.any isFlowIndicator)))
      || (flow && (c == '?' || isFlowIndicator c))
    if endsHere then 0 else plainRun flow rest + 1

/-- The breaks of the empty lines that follow, and the place behind them. Stops before a mark
between documents, and says whether it did. -/
def plainBreaks : Nat → Cursor → List Char → List Char × Bool × Cursor
  | 0, c, breaks => (breaks, false, c)
  | fuel + 1, c, breaks =>
    match c.peek 0 with
    | some ' ' => plainBreaks fuel c.advance breaks
    | next =>
      if next.any isBreak then
        let (lineBreak, c₁) := c.takeBreak
        let breaks := breaks ++ lineBreak
        if c₁.atSeparator then (breaks, true, c₁) else plainBreaks fuel c₁ breaks
      else (breaks, false, c)

/-- What stands between two words of a plain scalar, whether a line ended there, and the place
behind it. A single line end counts as a space, further ones as themselves; before a mark between
documents nothing is left. -/
def plainSpaces (c : Cursor) : List Char × Bool × Cursor :=
  let (spaces, c₁) := c.span (· == ' ')
  if (c₁.peek 0).any isBreak then
    let (lineBreak, c₂) := c₁.takeBreak
    if c₂.atSeparator then ([], true, c₂)
    else
      let (breaks, separated, c₃) := plainBreaks c₂.rest.length c₂ []
      if separated then ([], true, c₃)
      else
        let folded :=
          if lineBreak != ['\n'] then lineBreak else if breaks.isEmpty then [' '] else []
        (folded ++ breaks, true, c₃)
  else (spaces, false, c₁)

/-- What a reader of plain scalars returns: the text, whether a line ended behind its last word,
and the place behind it. -/
structure PlainText where
  text : List Char
  lineEnded : Bool
  after : Cursor

/-- Reads a plain scalar whose further lines begin at the column `indent` or behind it. The words
and what stands between them are gathered with the last in front. -/
def readPlain (flow : Bool) (indent : Int) (c : Cursor) : PlainText :=
  go c.rest.length c [] [] false
where
  finish (pieces : List (List Char)) (lineEnded : Bool) (c : Cursor) : PlainText :=
    ⟨pieces.reverse.flatten, lineEnded, c⟩
  go : Nat → Cursor → List (List Char) → List Char → Bool → PlainText
    | 0, c, pieces, _, lineEnded => finish pieces lineEnded c
    | fuel + 1, c, pieces, spaces, lineEnded =>
      let length := plainRun flow c.rest
      if c.peek 0 == some '#' || length == 0 then finish pieces lineEnded c
      else
        let pieces := c.rest.take length :: spaces :: pieces
        let (spaces, lineEnded, c₁) := plainSpaces (c.advanceBy length)
        if spaces.isEmpty || c₁.peek 0 == some '#' || (!flow && c₁.column < indent) then
          finish pieces lineEnded c₁
        else go fuel c₁ pieces spaces lineEnded

/-! ## Quoted scalars -/

/-- The characters that a backslash and a letter stand for. -/
def escapes : List (Char × Char) :=
  [('0', '\x00'), ('a', '\x07'), ('b', '\x08'), ('t', '\t'), ('\t', '\t'), ('n', '\n'),
    ('v', '\x0b'), ('f', '\x0c'), ('r', '\r'), ('e', '\x1b'), (' ', ' '), ('"', '"'),
    ('\\', '\\'), ('/', '/'), ('N', '\u0085'), ('_', '\u00a0'), ('L', '\u2028'), ('P', '\u2029')]

/-- The letters that begin a character's number, and the count of its hexadecimal digits. -/
def numberEscapes : List (Char × Nat) := [('x', 2), ('u', 4), ('U', 8)]

/-- The breaks of the lines that follow inside quotes, with the blanks around them dropped. -/
def quotedBreaks : Nat → Cursor → List Char → Option (List Char × Cursor)
  | 0, _, _ => none
  | fuel + 1, c, breaks =>
    if c.atSeparator then none
    else
      let c₁ := c.skip fun ch => ch == ' ' || ch == '\t'
      match c₁.takeBreak with
      | ([], _) => some (breaks, c₁)
      | (lineBreak, c₂) => quotedBreaks fuel c₂ (breaks ++ lineBreak)

/-- What a backslash and what follows it stand for, and the place behind. -/
def readEscape (c : Cursor) : Option (CodePoints × Cursor) := do
  let letter ← c.peek 0
  match escapes.lookup letter, numberEscapes.lookup letter with
  | some ch, _ => return ([ch.toNat], c.advance)
  | none, some count =>
    let digits ← ((c.rest.drop 1).take count).mapM (Text.digitIn? 16)
    let point := Text.valueInBase 16 digits
    if digits.length < count || CodePoints.greatest < point then none
    else return ([point], c.advanceBy (count + 1))
  | none, none =>
    if isBreak letter then
      let c₁ := c.takeBreak.2
      let (breaks, c₂) ← quotedBreaks (c₁.rest.length + 1) c₁ []
      return (.ofChars breaks, c₂)
    else none

/-- The characters up to a blank, a line end or the closing quote; those before the place are given
with the last in front. -/
def quotedRun (double : Bool) : Nat → Cursor → CodePoints → Option (CodePoints × Cursor)
  | 0, _, _ => none
  | fuel + 1, c, before =>
    match c.peek 0 with
    | none => some (before.reverse, c)
    | some ch =>
      if !double && ch == '\'' && c.peek 1 == some '\'' then
        quotedRun double fuel (c.advanceBy 2) (ch.toNat :: before)
      else if double && ch == '\\' then do
        let (escaped, c₁) ← readEscape c.advance
        quotedRun double fuel c₁ (escaped.reverse ++ before)
      else if ch == (if double then '"' else '\'') || endsWord (some ch) then
        some (before.reverse, c)
      else quotedRun double fuel c.advance (ch.toNat :: before)

/-- The blanks or line ends between two words inside quotes. -/
def quotedSpaces (c : Cursor) : Option (List Char × Cursor) := do
  let (spaces, c₁) := c.span fun ch => ch == ' ' || ch == '\t'
  let next ← c₁.peek 0
  if isBreak next then
    let (lineBreak, c₂) := c₁.takeBreak
    let (breaks, c₃) ← quotedBreaks (c₂.rest.length + 1) c₂ []
    let folded :=
      if lineBreak != ['\n'] then lineBreak else if breaks.isEmpty then [' '] else []
    return (folded ++ breaks, c₃)
  else return (spaces, c₁)

/-- Reads a scalar in quotes, from its opening quote on. The words and what stands between them are
gathered with the last in front. -/
def readQuoted (double : Bool) (c : Cursor) : Option (CodePoints × Cursor) := do
  let c₁ := c.advance
  let (first, c₂) ← quotedRun double (c₁.rest.length + 1) c₁ []
  go (c₂.rest.length + 1) c₂ [first]
where
  go : Nat → Cursor → List CodePoints → Option (CodePoints × Cursor)
    | 0, _, _ => none
    | fuel + 1, c, pieces =>
      if c.peek 0 == some (if double then '"' else '\'') then
        some (pieces.reverse.flatten, c.advance)
      else do
        let (spaces, c₁) ← quotedSpaces c
        let (run, c₂) ← quotedRun double (c₁.rest.length + 1) c₁ []
        go fuel c₂ (run :: .ofChars spaces :: pieces)

/-! ## Block scalars -/

/-- What becomes of the line ends behind a block. -/
inductive Chomping where
  | strip
  | clip
  | keep
  deriving DecidableEq

private def chompingOf? : Option Char → Option Chomping
  | some '+' => some .keep
  | some '-' => some .strip
  | _ => none

/-- A digit that gives an indentation; zero is refused. -/
private def incrementOf? (c : Option Char) : Option (Option Nat) :=
  match c with
  | some d =>
    if d.isDigit then (if d == '0' then none else some (some (d.toNat - '0'.toNat))) else some none
  | none => some none

/-- The signs behind the mark of a block: chomping and indentation, in either order. -/
def blockHeader (c : Cursor) : Option (Chomping × Option Nat × Cursor) := do
  let (chomping, increment, c₁) ←
    match chompingOf? (c.peek 0) with
    | some chomping => do
      match ← incrementOf? (c.peek 1) with
      | some n => some (chomping, some n, c.advanceBy 2)
      | none => some (chomping, none, c.advance)
    | none => do
      match ← incrementOf? (c.peek 0) with
      | some n =>
        match chompingOf? (c.peek 1) with
        | some chomping => some (chomping, some n, c.advanceBy 2)
        | none => some (.clip, some n, c.advance)
      | none => some (.clip, none, c)
  if c₁.peek 0 == some ' ' || endsLine (c₁.peek 0) then return (chomping, increment, c₁) else none

/-- The empty lines in front of a block, the greatest column that their spaces reach, and the place
behind them. -/
def blockIndentation : Nat → Cursor → List Char → Nat → List Char × Nat × Cursor
  | 0, c, breaks, deepest => (breaks, deepest, c)
  | fuel + 1, c, breaks, deepest =>
    match c.peek 0 with
    | some ' ' =>
      let c₁ := c.advance
      blockIndentation fuel c₁ breaks (max deepest c₁.column)
    | next =>
      if next.any isBreak then
        let (lineBreak, c₁) := c.takeBreak
        blockIndentation fuel c₁ (breaks ++ lineBreak) deepest
      else (breaks, deepest, c)

/-- The empty lines inside a block of a known indentation, and the place behind them. -/
def blockBreaks (indent : Nat) : Nat → Cursor → List Char → List Char × Cursor
  | 0, c, breaks => (breaks, c)
  | fuel + 1, c, breaks =>
    if c.column < indent && c.peek 0 == some ' ' then blockBreaks indent fuel c.advance breaks
    else
      match c.takeBreak with
      | ([], _) => (breaks, c)
      | (lineBreak, c₁) => blockBreaks indent fuel c₁ (breaks ++ lineBreak)

private def isBlankStart (c : Option Char) : Bool := c == some ' ' || c == some '\t'

/-- The lines of a block: the text, the last line's break, the breaks behind it, and the place
behind them all. The lines before the place and their breaks are given with the last in front. -/
def blockLines (folded : Bool) (indent : Nat) :
    Nat → Cursor → List (List Char) → List Char → List Char × List Char × List Char × Cursor
  | 0, c, pieces, breaks => (pieces.reverse.flatten, [], breaks, c)
  | fuel + 1, c, pieces, breaks =>
    let startsWithBlank := isBlankStart (c.peek 0)
    let (line, c₁) := c.span (!isBreak ·)
    let pieces := line :: breaks :: pieces
    let (lineBreak, c₂) := c₁.takeBreak
    let (breaks, c₃) := blockBreaks indent (c₂.rest.length + 1) c₂ []
    if c₃.column == indent && (c₃.peek 0).isSome then
      let joined :=
        if folded && lineBreak == ['\n'] && !startsWithBlank && !isBlankStart (c₃.peek 0) then
          if breaks.isEmpty then [' '] else []
        else lineBreak
      blockLines folded indent fuel c₃ (joined :: pieces) breaks
    else (pieces.reverse.flatten, lineBreak, breaks, c₃)

/-- Reads a block scalar from its mark on. The block stands deeper than `indent`. -/
def readBlock (folded : Bool) (indent : Int) (c : Cursor) : Option (List Char × Cursor) := do
  let (chomping, increment, c₁) ← blockHeader c.advance
  let c₂ ← c₁.finishLine?
  let least := (max 1 (indent + 1)).toNat
  let (breaks, column, c₃) :=
    match increment with
    | some n =>
      let column := least + n - 1
      let (breaks, c₃) := blockBreaks column (c₂.rest.length + 1) c₂ []
      (breaks, column, c₃)
    | none =>
      let (breaks, deepest, c₃) := blockIndentation (c₂.rest.length + 1) c₂ [] 0
      (breaks, max least deepest, c₃)
  let (text, lineBreak, breaks, c₄) :=
    if c₃.column == column && (c₃.peek 0).isSome then
      blockLines folded column (c₃.rest.length + 1) c₃ [] breaks
    else ([], [], breaks, c₃)
  match chomping with
  | .strip => return (text, c₄)
  | .clip => return (text ++ lineBreak, c₄)
  | .keep => return (text ++ lineBreak ++ breaks, c₄)

end SeededSketch.Yaml
