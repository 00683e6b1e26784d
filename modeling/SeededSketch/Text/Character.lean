/-!
# Characters and code points

Blanks and decimal digits by their Unicode 14 properties, and the smaller ASCII classes that
numerals and names use.

Escapes by number can put surrogates into a text, which are no characters, so that not every text
is a `String`; such a text is a list of code points. Names of files are bytes. A surrogate of one
small range stands for a byte that is no character; all others cannot be part of a name.
-/

namespace SeededSketch

namespace Text

/-- Blanks: the white space, bidirectional and separator characters that are cut from the ends of
a text. -/
def isBlank (c : Char) : Bool :=
  let n := c.toNat
  (0x09 ≤ n && n ≤ 0x0d) || (0x1c ≤ n && n ≤ 0x20) || n == 0x85 || n == 0xa0 || n == 0x1680
    || (0x2000 ≤ n && n ≤ 0x200a) || n == 0x2028 || n == 0x2029 || n == 0x202f || n == 0x205f
    || n == 0x3000

/-- The blanks of ASCII that may stand around a numeral. -/
def isAsciiBlank (c : Char) : Bool := (0x09 ≤ c.toNat && c.toNat ≤ 0x0d) || c == ' '

/-- The characters of ASCII. -/
def isAscii (c : Char) : Bool := c.toNat < 128

/-- The zeros of the decimal digit runs; the digits one to nine follow each of them. -/
def decimalZeros : List Nat :=
  [0x30, 0x660, 0x6f0, 0x7c0, 0x966, 0x9e6, 0xa66, 0xae6, 0xb66, 0xbe6, 0xc66, 0xce6, 0xd66,
   0xde6, 0xe50, 0xed0, 0xf20, 0x1040, 0x1090, 0x17e0, 0x1810, 0x1946, 0x19d0, 0x1a80, 0x1a90,
   0x1b50, 0x1bb0, 0x1c40, 0x1c50, 0xa620, 0xa8d0, 0xa900, 0xa9d0, 0xa9f0, 0xaa50, 0xabf0,
   0xff10, 0x104a0, 0x10d30, 0x11066, 0x110f0, 0x11136, 0x111d0, 0x112f0, 0x11450, 0x114d0,
   0x11650, 0x116c0, 0x11730, 0x118e0, 0x11950, 0x11c50, 0x11d50, 0x11da0, 0x16a60, 0x16ac0,
   0x16b50, 0x1d7ce, 0x1d7d8, 0x1d7e2, 0x1d7ec, 0x1d7f6, 0x1e140, 0x1e2f0, 0x1e950, 0x1fbf0]

/-- The value of a decimal digit of any script. -/
def decimalValue? (c : Char) : Option Nat :=
  (decimalZeros.find? fun start => start ≤ c.toNat && c.toNat < start + 10).map (c.toNat - ·)

/-- The letters, digits and underscore of ASCII, of which a variable's name consists. -/
def isNameCharacter (c : Char) : Bool := c.isAlphanum || c == '_'

/-- `s` without the elements of class `p` at its two ends. -/
def trimBy {α : Type} (p : α → Bool) (s : List α) : List α :=
  ((s.dropWhile p).reverse.dropWhile p).reverse

/-- `s` without the blanks at its two ends. -/
def strip (s : String) : String := .ofList (trimBy isBlank s.toList)

/-- `s` with the capital letters of ASCII made small. -/
def lowerAscii (s : String) : String := .ofList (s.toList.map Char.toLower)

end Text

/-! ## Code points -/

/-- A text by its code points. -/
abbrev CodePoints := List Nat

/-- Surrogates in a row: the first of them, its place in the text, and how many there are. -/
structure SurrogateRun where
  code : Nat
  start : Nat
  length : Nat
  deriving DecidableEq, Repr

namespace CodePoints

/-- The greatest code point. -/
def greatest : Nat := 0x10ffff

def isSurrogate (n : Nat) : Bool := 0xd800 ≤ n && n < 0xe000

/-- Whether a surrogate stands for a byte in the name of a file. -/
def isByte (n : Nat) : Bool := 0xdc80 ≤ n && n < 0xdd00

def ofChars (s : List Char) : CodePoints := s.map Char.toNat

/-- The characters of a text without surrogates. -/
def toChars? (points : CodePoints) : Option (List Char) :=
  if points.any isSurrogate then none else some (points.map Char.ofNat)

/-- The characters of a text, the replacement character standing for each surrogate. -/
def visible (points : CodePoints) : List Char :=
  points.map fun n => if isSurrogate n then '\ufffd' else Char.ofNat n

/-- The first surrogates of a text that no name of a file can hold, up to the end of their row;
`place` is the number of code points in front of the text. -/
def unnameable? (place : Nat) : CodePoints → Option SurrogateRun
  | [] => none
  | n :: rest =>
    if isSurrogate n && !isByte n then
      some ⟨n, place, (rest.takeWhile isSurrogate).length + 1⟩
    else unnameable? (place + 1) rest

/-- Characters as a text, in which each replacement character comes from the list of code points
that were replaced. -/
def refill : List Char → CodePoints → CodePoints
  | [], _ => []
  | c :: rest, replaced =>
    if c = '�' then (replaced.head?.getD c.toNat) :: refill rest replaced.tail
    else c.toNat :: refill rest replaced

end CodePoints

end SeededSketch
