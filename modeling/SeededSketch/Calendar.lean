import SeededSketch.Number.Decimal

/-!
# Calendar dates

Days of the Gregorian calendar, which is counted back to the year one, and moments: a time of day
on such a day, down to the microsecond, with or without the distance of its clock from universal
time. Moments of clocks whose distances are known can be the same instant.
-/

namespace SeededSketch

def isLeapYear (year : Nat) : Bool := year % 4 == 0 && (year % 100 != 0 || year % 400 == 0)

/-- The number of days in a month, of which January is the first. -/
def daysInMonth (year month : Nat) : Nat :=
  if month = 2 then (if isLeapYear year then 29 else 28)
  else if month ∈ [4, 6, 9, 11] then 30
  else 31

/-- A day by its year, month and day. -/
structure Date where
  year : Nat
  month : Nat
  day : Nat
  year_pos : 1 ≤ year
  month_mem : 1 ≤ month ∧ month ≤ 12
  day_mem : 1 ≤ day ∧ day ≤ daysInMonth year month
  deriving DecidableEq, Repr

/-- The distance of a clock from universal time in minutes, eastwards; less than a day. -/
structure Offset where
  minutes : Int
  abs_lt : minutes.natAbs < 1440
  deriving DecidableEq, Repr

/-- A time of day on a day. -/
structure Moment where
  date : Date
  hour : Nat
  minute : Nat
  second : Nat
  microsecond : Nat
  offset : Option Offset
  hour_lt : hour < 24
  minute_lt : minute < 60
  second_lt : second < 60
  deriving DecidableEq, Repr

namespace Date

/-- The day of a year, a month and a day, if there is one. -/
def of? (year month day : Nat) : Option Date :=
  if h : 1 ≤ year ∧ (1 ≤ month ∧ month ≤ 12) ∧ 1 ≤ day ∧ day ≤ daysInMonth year month then
    some ⟨year, month, day, h.1, h.2.1, h.2.2⟩
  else none

/-- The number of days from the first day of all up to this one. -/
def number (d : Date) : Nat :=
  let years := d.year - 1
  let months := (List.range (d.month - 1)).map fun m => daysInMonth d.year (m + 1)
  365 * years + years / 4 - years / 100 + years / 400 + months.foldl (· + ·) 0 + d.day

/-- Year, month and day, with hyphens between them. -/
def text (d : Date) : String :=
  .ofList (Decimal.padded 4 d.year ++ '-' :: Decimal.padded 2 d.month ++ '-'
    :: Decimal.padded 2 d.day)

end Date

namespace Offset

/-- The distance of so many minutes, if a clock can have it. -/
def of? (minutes : Int) : Option Offset :=
  if h : minutes.natAbs < 1440 then some ⟨minutes, h⟩ else none

/-- A sign, hours and minutes. -/
def text (o : Offset) : List Char :=
  (if o.minutes < 0 then '-' else '+') :: Decimal.padded 2 (o.minutes.natAbs / 60) ++ ':'
    :: Decimal.padded 2 (o.minutes.natAbs % 60)

end Offset

namespace Moment

/-- The moment of a time on a day, if there is such a time. -/
def of? (date : Date) (hour minute second microsecond : Nat) (offset : Option Offset) :
    Option Moment :=
  if h : hour < 24 ∧ minute < 60 ∧ second < 60 then
    some ⟨date, hour, minute, second, microsecond, offset, h.1, h.2.1, h.2.2⟩
  else none

/-- The minutes up to a moment, as its clock counts them. -/
def localMinutes (m : Moment) : Int := ((m.date.number * 24 + m.hour) * 60 + m.minute : Nat)

/-- Whether two moments are one instant. A clock whose distance from universal time is not known
can be compared only with another such clock. -/
def sameInstant (m n : Moment) : Bool :=
  m.second == n.second && m.microsecond == n.microsecond &&
  match m.offset, n.offset with
  | none, none => m.localMinutes == n.localMinutes
  | some o, some p => m.localMinutes - o.minutes == n.localMinutes - p.minutes
  | _, _ => false

/-- Day and time, with a blank between them; microseconds and the clock's distance from universal
time are left out where there are none. -/
def text (m : Moment) : String :=
  let time := Decimal.padded 2 m.hour ++ ':' :: Decimal.padded 2 m.minute ++ ':'
    :: Decimal.padded 2 m.second
  let fraction := if m.microsecond = 0 then [] else '.' :: Decimal.padded 6 m.microsecond
  m.date.text ++ " " ++ .ofList (time ++ fraction ++ (m.offset.map Offset.text).getD [])

end Moment
end SeededSketch
