/-!
# Dates and times

A date, a time of day, or both, the latter with an offset from universal time at will. Dates
are checked against the length of their month, times against the clock with a leap second.
-/

namespace Conformance

namespace Toml

/-- A day of the calendar. -/
structure Date where
  year : Nat
  month : Nat
  day : Nat
  deriving DecidableEq, Repr

/-- A time of day. -/
structure Time where
  hour : Nat
  minute : Nat
  second : Nat
  nanosecond : Nat
  deriving DecidableEq, Repr

/-- The distance of a local time from universal time. -/
inductive Offset where
  | universal
  | minutes (n : Int)
  deriving DecidableEq, Repr

/-- A date, a time, or both. -/
structure Datetime where
  date : Option Date
  time : Option Time
  offset : Option Offset
  deriving DecidableEq, Repr

/-- The number of days in a month. -/
def daysInMonth (year month : Nat) : Nat :=
  if month = 2 then
    if year % 4 = 0 ∧ (year % 100 ≠ 0 ∨ year % 400 = 0) then 29 else 28
  else if month = 4 ∨ month = 6 ∨ month = 9 ∨ month = 11 then 30
  else 31

/-- Whether a day is in the calendar. -/
def Date.isValid (d : Date) : Bool :=
  1 ≤ d.month && d.month ≤ 12 && 1 ≤ d.day && d.day ≤ daysInMonth d.year d.month

/-- Whether a time is on the clock. -/
def Time.isValid (t : Time) : Bool :=
  t.hour ≤ 23 && t.minute ≤ 59 && t.second ≤ 60

/-- The decimal digits of a number, with zeros in front up to a width. -/
def padded (width n : Nat) : List Char :=
  let digits := Nat.toDigits 10 n
  List.replicate (width - digits.length) '0' ++ digits

/-- A date as it is written. -/
def Date.chars (d : Date) : List Char :=
  padded 4 d.year ++ '-' :: padded 2 d.month ++ '-' :: padded 2 d.day

/-- A time as it is written, its fraction without zeros at the end. -/
def Time.chars (t : Time) : List Char :=
  let fraction := if t.nanosecond = 0 then []
    else '.' :: ((padded 9 t.nanosecond).reverse.dropWhile (· == '0')).reverse
  padded 2 t.hour ++ ':' :: padded 2 t.minute ++ ':' :: padded 2 t.second ++ fraction

/-- An offset as it is written. -/
def Offset.chars : Offset → List Char
  | universal => ['Z']
  | minutes n =>
    (if n < 0 then '-' else '+') :: padded 2 (n.natAbs / 60) ++ ':' :: padded 2 (n.natAbs % 60)

/-- A date, a time, or both as they are written. -/
def Datetime.chars (d : Datetime) : List Char :=
  let date := (d.date.map Date.chars).getD []
  let mark := if d.date.isSome && d.time.isSome then ['T'] else []
  let time := (d.time.map Time.chars).getD []
  let offset := (d.offset.map Offset.chars).getD []
  date ++ mark ++ time ++ offset

/-- A date, a time, or both as a text. -/
def Datetime.text (d : Datetime) : String := String.ofList d.chars

/-- The key that marks a table as a date or time, which is the text under it. -/
def Datetime.mark : String := "$__toml_private_datetime"

end Toml

end Conformance
