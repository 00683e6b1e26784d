import SeededSketch.Text.Quoted
import SeededSketch.Value

/-!
# Values in messages

How a message shows a value: texts in quotes, reals by their shortest digits, lists and pairs in
brackets, sets and mappings in braces, dates by their parts. A container that is met inside itself
shows as dots in its brackets. `display` is the same but for a text and a date, which stand for
themselves.

A whole number of more than a few thousand digits is not written; `isWritable` tells whether a
value is free of such numbers.
-/

namespace SeededSketch

def Number.written : Number → String
  | .whole n => toString n
  | .real x => Decimal.shortestText x

/-- Whether an integer has no more digits than may be written. -/
def isWritableWhole (n : Int) : Bool := n.natAbs < tenPow Decimal.maximalDigits

def Number.isWritable : Number → Bool
  | .whole n => isWritableWhole n
  | .real _ => true

/-- Names with their numbers in round brackets, behind the name of what they make. -/
private def call (name : String) (arguments : List String) : String :=
  name ++ "(" ++ String.intercalate ", " arguments ++ ")"

def Date.written (d : Date) : String :=
  call "datetime.date" [toString d.year, toString d.month, toString d.day]

/-- The distance of a clock from universal time: nothing but a name if it is none, otherwise whole
days downwards and seconds upwards. -/
def Offset.written (o : Offset) : String :=
  if o.minutes = 0 then "datetime.timezone.utc"
  else
    let days := if o.minutes < 0 then ["days=-1"] else []
    call "datetime.timezone"
      [call "datetime.timedelta" (days ++ ["seconds=" ++ toString (o.minutes % 1440 * 60)])]

/-- A moment by its parts; seconds and microseconds are left out where all that is left is
zero. -/
def Moment.written (m : Moment) : String :=
  let small :=
    if m.microsecond ≠ 0 then [toString m.second, toString m.microsecond]
    else if m.second ≠ 0 then [toString m.second]
    else []
  let offset := (m.offset.map fun o => "tzinfo=" ++ o.written).toList
  call "datetime.datetime"
    ([toString m.date.year, toString m.date.month, toString m.date.day, toString m.hour,
      toString m.minute] ++ small ++ offset)

namespace Value

mutual

/-- The text of a value inside a message, as a part of the containers labelled `around`. -/
def writtenIn (around : List Nat) : Value → String
  | null => "None"
  | bool b => if b then "True" else "False"
  | number n => n.written
  | text s => Text.quoted s
  | broken points => Text.quotedPoints points
  | bytes data => Text.quotedBytes data
  | date d => d.written
  | moment m => m.written
  | list items => "[" ++ String.intercalate ", " (writtenItems around items) ++ "]"
  | pair first second => "(" ++ first.writtenIn around ++ ", " ++ second.writtenIn around ++ ")"
  | set [] => "set()"
  | set (member :: rest) =>
    "\x7b" ++ String.intercalate ", " (writtenItems around (member :: rest)) ++ "\x7d"
  | map entries => "\x7b" ++ String.intercalate ", " (writtenEntries around entries) ++ "\x7d"
  | loop label v =>
    if around.contains label then dots v.typeName else v.writtenIn (label :: around)
  | again label kind => dots (again label kind).typeName
  | node kind => "<" ++ kind.name ++ ">"
where
  /-- Dots in the brackets of a container. -/
  dots (name : String) : String := if name == "list" then "[...]" else "\x7b...\x7d"

def writtenItems (around : List Nat) : List Value → List String
  | [] => []
  | item :: rest => item.writtenIn around :: writtenItems around rest

def writtenEntries (around : List Nat) : List (Value × Value) → List String
  | [] => []
  | (key, value) :: rest =>
    (key.writtenIn around ++ ": " ++ value.writtenIn around) :: writtenEntries around rest

end

/-- The text of a value inside a message. -/
def written (v : Value) : String := v.writtenIn []

mutual

/-- Whether every whole number in a value may be written. -/
def isWritable : Value → Bool
  | number n => n.isWritable
  | list items | set items => areWritable items
  | pair first second => first.isWritable && second.isWritable
  | map entries => areWritableEntries entries
  | loop _ v => v.isWritable
  | _ => true

def areWritable : List Value → Bool
  | [] => true
  | item :: rest => item.isWritable && areWritable rest

def areWritableEntries : List (Value × Value) → Bool
  | [] => true
  | (key, value) :: rest => key.isWritable && value.isWritable && areWritableEntries rest

end

/-- The text of a value on its own. -/
def display : Value → String
  | text s => s
  | date d => d.text
  | moment m => m.text
  | v => v.written

end Value
end SeededSketch
