import SeededSketch.Calendar
import SeededSketch.Text.Numeral
import SeededSketch.Value

/-!
# Timestamps

The spelling of dates: year, month and day with hyphens between them, and behind them a time of
day if there is one, with parts of a second and the distance of the clock from universal time.
-/

namespace SeededSketch.Yaml

/-- The digits of a time of day, and the distance from universal time in minutes. -/
structure TimeSpelling where
  hour : Nat
  minute : Nat
  second : Nat
  fraction : List Char
  offset : Option Int

/-- The digits of a date. -/
structure DateSpelling where
  year : Nat
  month : List Char
  day : List Char
  time : Option TimeSpelling

/-- At least `least` and at most `most` digits, and what follows them. -/
def takeDigits (least most : Nat) (s : List Char) : Option (List Char × List Char) :=
  let run := (s.takeWhile Char.isDigit).take most
  if run.length < least then none else some (run, s.drop run.length)

/-- `takeDigits` for a number. -/
def takeNumber (least most : Nat) (s : List Char) : Option (Nat × List Char) :=
  (takeDigits least most s).map fun (digits, rest) => (Text.digitsValue digits, rest)

/-- What follows the character `c`, with which the text must begin. -/
def after (c : Char) : List Char → Option (List Char)
  | d :: rest => if d = c then some rest else none
  | [] => none

private def isBlank (c : Char) : Bool := c == ' ' || c == '\t'

/-- The distance from universal time at the end of a timestamp. -/
def readOffset (s : List Char) : Option (Option Int) :=
  match s with
  | [] => some none
  | _ =>
    match s.dropWhile isBlank with
    | ['Z'] => some (some 0)
    | sign :: rest => do
      let (hours, rest) ← takeNumber 1 2 rest
      let (minutes, rest) ← if rest.isEmpty then some (0, []) else takeNumber 2 2 (← after ':' rest)
      let total : Int := hours * 60 + minutes
      if !rest.isEmpty then none
      else if sign = '+' then some (some total)
      else if sign = '-' then some (some (-total))
      else none
    | [] => none

/-- The time of day behind a date, up to the end. -/
def readTime (s : List Char) : Option TimeSpelling := do
  let rest ←
    match s with
    | 'T' :: rest | 't' :: rest => some rest
    | c :: rest => if isBlank c then some (rest.dropWhile isBlank) else none
    | [] => none
  let (hour, rest) ← takeNumber 1 2 rest
  let (minute, rest) ← takeNumber 2 2 (← after ':' rest)
  let (second, rest) ← takeNumber 2 2 (← after ':' rest)
  let (fraction, rest) := match rest with
    | '.' :: rest => (rest.takeWhile Char.isDigit, rest.dropWhile Char.isDigit)
    | rest => ([], rest)
  return { hour, minute, second, fraction, offset := ← readOffset rest }

/-- The spelling of a date, up to the end. -/
def readDate (s : List Char) : Option DateSpelling := do
  let (year, rest) ← takeNumber 4 4 s
  let (month, rest) ← takeDigits 1 2 (← after '-' rest)
  let (day, rest) ← takeDigits 1 2 (← after '-' rest)
  if rest.isEmpty then return { year, month, day, time := none }
  else return { year, month, day, time := some (← readTime rest) }

/-- Whether a plain scalar is spelled as a date. Without a time of day, month and day have two
digits each. -/
def looksDate (s : List Char) : Bool :=
  match readDate s with
  | none => false
  | some date => date.time.isSome || (date.month.length == 2 && date.day.length == 2)

/-- The microseconds of a fraction, of which further digits do not count. -/
def microsecondsOf (fraction : List Char) : Nat :=
  let digits := fraction.take 6
  Text.digitsValue (digits ++ List.replicate (6 - digits.length) '0')

/-- The date or moment of a text, if there is such a day and such a time. -/
def timestamp? (s : List Char) : Option Value := do
  let spelling ← readDate s
  let date ← Date.of? spelling.year (Text.digitsValue spelling.month)
    (Text.digitsValue spelling.day)
  match spelling.time with
  | none => return .date date
  | some time =>
    let offset ← match time.offset with
      | none => some none
      | some minutes => (Offset.of? minutes).map some
    let moment ← Moment.of? date time.hour time.minute time.second (microsecondsOf time.fraction)
      offset
    return .moment moment

end SeededSketch.Yaml
