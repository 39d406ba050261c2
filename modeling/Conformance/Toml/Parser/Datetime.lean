import Conformance.Toml.Datetime
import Conformance.Toml.Parser.Quoted

/-!
# Reading dates and times

A date may be followed by a time, after a `T` or a space, and that by an offset. A time may also
stand alone. Seconds are required; of their fraction, nine digits count. An offset is shorter than
a day. Documents and the texts of marked tables are read alike.
-/

namespace Conformance

namespace Toml

namespace Parser

open Conformance.Parser

/-- A number with a fixed count of digits. -/
def fixedNumber (width : Nat) : Parser Nat := numberOf 10 <$> exactly width Char.isDigit

/-- A day of the calendar. -/
def date : Parser Date := do
  let year ← fixedNumber 4
  char '-'
  let month ← fixedNumber 2
  char '-'
  let day ← fixedNumber 2
  let date : Date := ⟨year, month, day⟩
  if date.isValid then return date else failure

/-- The nanoseconds after the point of a time, or zero. -/
def nanoseconds : Parser Nat := do
  match ← optional (char '.') with
  | none => return 0
  | some () =>
    let digits ← span Char.isDigit
    if digits.isEmpty then failure
    let counted := digits.take 9
    return numberOf 10 counted * Nat.pow 10 (9 - counted.length)

/-- A time of day. -/
def time : Parser Time := do
  let hour ← fixedNumber 2
  char ':'
  let minute ← fixedNumber 2
  char ':'
  let second ← fixedNumber 2
  let time : Time := ⟨hour, minute, second, ← nanoseconds⟩
  if time.isValid then return time else failure

/-- A distance from universal time in hours and minutes. -/
def distance : Parser Offset := do
  let negative := (← one fun c => c == '+' || c == '-') == '-'
  let hours ← fixedNumber 2
  char ':'
  let minutes ← fixedNumber 2
  let n : Int := hours * 60 + minutes
  if hours ≤ 23 && minutes ≤ 59 then return .minutes (if negative then -n else n)
  else failure

/-- A distance from universal time. -/
def offset : Parser Offset :=
  (discard (one fun c => c == 'Z' || c == 'z') *> pure .universal) <|> distance

/-- What may follow a date: a time and its offset. -/
def timeOfDate : Parser (Time × Option Offset) := do
  let _ ← one fun c => c == 'T' || c == 't' || c == ' '
  return (← time, ← optional offset)

/-- A date, a time, or both. -/
def datetime : Parser Datetime :=
  (do
    let date ← date
    match ← optional timeOfDate with
    | some (time, offset) => return ⟨some date, some time, offset⟩
    | none => return ⟨some date, none, none⟩) <|>
  (do return ⟨none, some (← time), none⟩)

end Parser

end Toml

end Conformance
