import SeededSketch.Yaml.Timestamp

/-!
# What scalars denote

A plain scalar is a truth value, an integer, a real, nothing, a date, or a text, by its spelling as
YAML 1.1 has it: integers also in binary, in octal with a leading zero, in hexadecimal and in
base sixty; reals with a point, and a sign in every exponent; underscores between the digits. Two
spellings are meant for keys: one that merges mappings, and one whose value stands for the mapping.
A line end behind such a spelling does not count.

What a node is meant to be is its tag. A tag in front of a scalar demands one of these readings,
whatever the spelling; bytes, which are written in base 64, are read only so. The reading of a
number is then a little wider than its spelling: blanks around it, a second sign and a second mark
of its base are allowed.
-/

namespace SeededSketch

/-! ## Bytes as letters

Bytes written in base 64: each character stands for six bits, and four characters for three bytes.
Equality signs fill up the last group. Characters without a meaning are passed over, so that line
ends may stand anywhere. -/

namespace Text.Base64

/-- The six bits that a character stands for. -/
def sextet? (c : Char) : Option Nat :=
  if 'A' ≤ c ∧ c ≤ 'Z' then some (c.toNat - 'A'.toNat)
  else if 'a' ≤ c ∧ c ≤ 'z' then some (c.toNat - 'a'.toNat + 26)
  else if c.isDigit then some (c.toNat - '0'.toNat + 52)
  else if c = '+' then some 62
  else if c = '/' then some 63
  else none

/-- The bytes of a group of sextets; of an unfinished group, the bytes that it holds in full. -/
def bytesOf : List Nat → List UInt8
  | [a, b] => [.ofNat (a * 4 + b / 16)]
  | [a, b, c] => [.ofNat (a * 4 + b / 16), .ofNat (b % 16 * 16 + c / 4)]
  | [a, b, c, d] =>
    [.ofNat (a * 4 + b / 16), .ofNat (b % 16 * 16 + c / 4), .ofNat (c % 4 * 64 + d)]
  | _ => []

/-- The bytes of a text, the present group of sextets being `group` and `fill` the number of
equality signs since the last of them. The text ends at the signs that fill up a group, and must
not end inside a group otherwise. -/
def decodeFrom (group : List Nat) (fill : Nat) : List Char → Option (List UInt8)
  | [] => if group.isEmpty then some [] else none
  | c :: rest =>
    if c = '=' then
      if group.length < 2 then decodeFrom group fill rest
      else if 4 ≤ group.length + (fill + 1) then some (bytesOf group)
      else decodeFrom group (fill + 1) rest
    else
      match sextet? c with
      | none => decodeFrom group fill rest
      | some bits =>
        let group := group ++ [bits]
        if group.length = 4 then (decodeFrom [] 0 rest).map (bytesOf group ++ ·)
        else decodeFrom group 0 rest

/-- The bytes of a text; nothing if a group is left unfinished. -/
def decode (s : List Char) : Option (List UInt8) := decodeFrom [] 0 s

end Text.Base64

namespace Yaml

/-! ## Tags -/

/-- The meanings that nodes can have. -/
inductive Tag where
  | null
  | bool
  | whole
  | real
  | binary
  | timestamp
  | text
  | sequence
  | mapping
  | set
  | orderedMap
  | pairs
  /-- A key that takes the entries of other mappings over. -/
  | merge
  /-- A key whose value stands for the whole mapping. -/
  | value
  | unknown
  deriving DecidableEq, Repr

/-- What the texts of the standard tags begin with. -/
def standardStem : String := "tag:yaml.org,2002:"

namespace Tag

/-- The names of the tags behind their common beginning. -/
def names : List (String × Tag) :=
  [("null", null), ("bool", bool), ("int", whole), ("float", real), ("binary", binary),
    ("timestamp", timestamp), ("str", text), ("seq", sequence), ("map", mapping), ("set", set),
    ("omap", orderedMap), ("pairs", pairs), ("merge", merge), ("value", value)]

/-- The tag of a text. -/
def ofText (s : String) : Tag :=
  ((names.find? fun (name, _) => standardStem ++ name == s).map Prod.snd).getD unknown

/-- Whether a node of this tag is made of a text. -/
def isScalar : Tag → Bool
  | null | bool | whole | real | binary | timestamp | text => true
  | _ => false

end Tag

/-! ## Spellings -/

def trueWords : List String := ["yes", "Yes", "YES", "true", "True", "TRUE", "on", "On", "ON"]

def falseWords : List String := ["no", "No", "NO", "false", "False", "FALSE", "off", "Off", "OFF"]

def nullWords : List String := ["", "~", "null", "Null", "NULL"]

/-- The pieces of `s` between the characters `c`. -/
def splitAt (c : Char) (s : List Char) : List (List Char) :=
  s.foldr (fun ch pieces =>
    if ch = c then [] :: pieces
    else match pieces with
      | piece :: rest => (ch :: piece) :: rest
      | [] => [[ch]]) [[]]

/-- A decimal digit or an underscore. -/
def isDigitOrGap (c : Char) : Bool := c.isDigit || c == '_'

/-- Digits and underscores of which the first is a digit. -/
def isDigits (s : List Char) : Bool := s.head?.any Char.isDigit && s.all isDigitOrGap

/-- Digits and underscores of which the first is a digit from one to nine. -/
def isPositiveDigits (s : List Char) : Bool := isDigits s && s.head? != some '0'

/-- A part of a number in base sixty behind the first: one digit, or two below sixty. -/
def isSixtieth (s : List Char) : Bool :=
  match s with
  | [a] => a.isDigit
  | [a, b] => ('0' ≤ a && a ≤ '5') && b.isDigit
  | _ => false

/-! ## Integers -/

/-- Whether an unsigned text is spelled as an integer. -/
def looksWhole (s : List Char) : Bool :=
  let inBase (base : Nat) (digits : List Char) : Bool :=
    !digits.isEmpty && digits.all fun c => c == '_' || (Text.digitIn? base c).isSome
  match s with
  | '0' :: 'b' :: digits => inBase 2 digits
  | '0' :: 'x' :: digits => inBase 16 digits
  | ['0'] => true
  | '0' :: digits => inBase 8 digits
  | _ =>
    match splitAt ':' s with
    | first :: rest => isPositiveDigits first && rest.all isSixtieth
    | [] => false

/-- The integer of a decimal numeral. -/
def decimal? (s : List Char) : Option Int :=
  match Text.readWhole (.ofList s) with
  | .whole n => some n
  | _ => none

/-- The number of parts in base sixty. -/
def inSixtieths (parts : List Int) : Int := parts.foldl (fun n part => 60 * n + part) 0

/-- The integer of a text without underscores from which the sign is taken off. -/
def wholeMagnitude? (s : List Char) : Option Int :=
  match s with
  | ['0'] => some 0
  | '0' :: 'b' :: digits => Text.wholeIn? 2 digits
  | '0' :: 'x' :: digits => Text.wholeIn? 16 digits
  | '0' :: digits => Text.wholeIn? 8 ('0' :: digits)
  | _ => ((splitAt ':' s).mapM decimal?).map inSixtieths

/-- The integer of a text; underscores do not count. -/
def whole? (s : List Char) : Option Int :=
  let (negative, digits) := Text.splitSign (s.filter (· != '_'))
  (wholeMagnitude? digits).map fun n => if negative then -n else n

/-! ## Reals -/

/-- An exponent with its sign, or nothing. -/
def isExponent (s : List Char) : Bool :=
  match s with
  | [] => true
  | e :: sign :: digits =>
    (e == 'e' || e == 'E') && (sign == '+' || sign == '-') && !digits.isEmpty
      && digits.all Char.isDigit
  | _ => false

/-- Whether a text is spelled as a real. A number that begins with its point has no sign. -/
def looksReal (s : List Char) : Bool :=
  let unsigned := (Text.splitSign s).2
  let whole := unsigned.takeWhile (· != '.')
  match unsigned.dropWhile (· != '.') with
  | [] => false
  | _ :: fraction =>
    let exponent := fraction.dropWhile isDigitOrGap
    if whole.isEmpty then
      let word := String.ofList fraction
      (word ∈ ["inf", "Inf", "INF"])
        || (s.head? == some '.' && (word ∈ ["nan", "NaN", "NAN"]))
        || (s.head? == some '.' && fraction.head?.any Char.isDigit && isExponent exponent)
    else if isDigits whole then isExponent exponent
    else
      match splitAt ':' whole with
      | first :: rest => isDigits first && !rest.isEmpty && rest.all isSixtieth && exponent.isEmpty
      | [] => false

/-- The real of parts in base sixty, the least significant first; nothing if the weight of a part
is too large for a double. -/
def sumOfSixtieths (parts : List Float) : Option Float := do
  let (sum, _) ← parts.foldlM (fun ((sum, weight) : Float × Nat) part => do
    return (sum + part * (← Double.ofInt? weight), weight * 60)) (0.0, 1)
  return sum

/-- The real of a text; underscores and capitals do not count. -/
def real? (s : List Char) : Option Float :=
  let (negative, digits) := Text.splitSign ((s.filter (· != '_')).map Char.toLower)
  let magnitude : Option Float :=
    if digits == ".inf".toList then some Double.infinity
    else if digits == ".nan".toList then some Double.nan
    else if digits.contains ':' then
      ((splitAt ':' digits).mapM fun part => Text.real? (.ofList part)).bind fun parts =>
        sumOfSixtieths parts.reverse
    else Text.real? (.ofList digits)
  magnitude.map fun x => if negative then -x else x

/-! ## Scalars -/

/-- A text without a line end behind it. -/
private def withoutLineEnd (s : List Char) : List Char :=
  if s.getLast? = some '\n' then s.dropLast else s

/-- The tag of a spelling of at least one character. -/
private def tagOfSpelling (s : List Char) : Tag :=
  let text := String.ofList s
  if text ∈ trueWords ∨ text ∈ falseWords then .bool
  else if looksReal s then .real
  else if looksWhole (Text.splitSign s).2 then .whole
  else if text = "<<" then .merge
  else if text ∈ nullWords then .null
  else if looksDate s then .timestamp
  else if text = "=" then .value
  else if text ∈ ["!", "&", "*"] then .unknown
  else .text

/-- The tag of a plain scalar. -/
def Tag.ofPlain (points : CodePoints) : Tag :=
  match points.toChars? with
  | none => .text
  | some [] => .null
  | some s =>
    let spelling := withoutLineEnd s
    if spelling.isEmpty then .text else tagOfSpelling spelling

/-- The truth value of a word, in whatever letters. -/
def truth? (s : String) : Option Bool :=
  let word := Text.lowerAscii s
  if word ∈ trueWords then some true else if word ∈ falseWords then some false else none

/-- What a text denotes under a tag; nothing if it cannot be read so. -/
def scalar? (tag : Tag) (points : CodePoints) : Option Value :=
  match tag with
  | .null => some .null
  | .text => some (.ofPoints points)
  | _ => do
    let s ← points.toChars?
    match tag with
    | .bool => (truth? (.ofList s)).map .bool
    | .whole => (whole? s).map fun n => .number (.whole n)
    | .real => (real? s).map fun x => .number (.real x)
    | .binary => if s.all Text.isAscii then (Text.Base64.decode s).map .bytes else none
    | .timestamp => timestamp? (withoutLineEnd s)
    | _ => none

end Yaml

end SeededSketch
