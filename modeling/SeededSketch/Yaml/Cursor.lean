/-!
# Places in a text

Reading a YAML text means walking through its characters with an eye on the line and the column,
since indentation carries structure. A cursor is the text that is left, with its place.

Line ends are line feeds by the time a text comes here; next line, line separator and paragraph
separator end a line as well.
-/

namespace SeededSketch.Yaml

/-- The text that is left, how much lies behind, and the line and column of the place between. -/
structure Cursor where
  rest : List Char
  index : Nat
  line : Nat
  column : Nat

/-- Whether `c` ends a line. -/
def isBreak (c : Char) : Bool := c == '\n' || c == '\u0085' || c == '\u2028' || c == '\u2029'

/-- Whether a line ends here: at a break, or where no character is left. -/
def endsLine : Option Char → Bool
  | none => true
  | some c => isBreak c

/-- Whether a word ends here: at a space, at a tab, or where a line ends. -/
def endsWord (c : Option Char) : Bool := c == some ' ' || c == some '\t' || endsLine c

namespace Cursor

def ofText (s : List Char) : Cursor := ⟨s, 0, 0, 0⟩

/-- The character that lies `n` characters ahead. -/
def peek (c : Cursor) (n : Nat) : Option Char := c.rest[n]?

/-- The place behind the next character. A byte order mark takes no column. -/
def advance (c : Cursor) : Cursor :=
  match c.rest with
  | [] => c
  | ch :: rest =>
    if isBreak ch then ⟨rest, c.index + 1, c.line + 1, 0⟩
    else if ch = '\ufeff' then ⟨rest, c.index + 1, c.line, c.column⟩
    else ⟨rest, c.index + 1, c.line, c.column + 1⟩

/-- The place behind the next `n` characters. -/
def advanceBy (c : Cursor) : Nat → Cursor
  | 0 => c
  | n + 1 => c.advance.advanceBy n

/-- The characters of class `p` that come next, and the place behind them. -/
def span (c : Cursor) (p : Char → Bool) : List Char × Cursor :=
  let run := c.rest.takeWhile p
  (run, c.advanceBy run.length)

def skip (c : Cursor) (p : Char → Bool) : Cursor := (c.span p).2

/-- The line break that comes next, as it is kept in a text, and the place behind it. -/
def takeBreak (c : Cursor) : List Char × Cursor :=
  match c.rest with
  | ch :: _ =>
    if isBreak ch then
      ([if ch = '\u0085' then '\n' else ch], c.advance)
    else ([], c)
  | [] => ([], c)

/-- The place behind a line on which nothing but spaces and a comment is left. -/
def finishLine? (c : Cursor) : Option Cursor :=
  let c₁ := c.skip (· == ' ')
  let c₂ := if c₁.peek 0 == some '#' then c₁.skip (!isBreak ·) else c₁
  if endsLine (c₂.peek 0) then some c₂.takeBreak.2 else none

/-- Whether a mark that separates documents comes next: three hyphens or dots that are a word. -/
def atSeparator (c : Cursor) : Bool :=
  (c.rest.take 3 == ['-', '-', '-'] || c.rest.take 3 == ['.', '.', '.']) && endsWord (c.peek 3)

end Cursor
end SeededSketch.Yaml
