import Conformance.Toml.Basic
import Conformance.Toml.Parser.Datetime

/-!
# Settled values

A date or time may also be written as a table: its first key is the mark of dates and times, and
the text under the mark is the date or time. Settling a value puts a date or time in place of each
marked table and the entries of every other table in the order of their keys. In a table where it
is not the first key, the mark is a key like others.
-/

namespace Conformance

namespace Toml

/-- The date or time that a text writes. -/
def Datetime.ofString? (s : String) : Option Datetime :=
  Conformance.Parser.readAll Parser.datetime s.toList

/-- The date or time of a marked table, from what stands under the mark. -/
def ofMarked : Toml → Option Toml
  | string s => (Datetime.ofString? s).map datetime
  | _ => none

mutual

/-- The value that a written value stands for, if its marked tables all write dates or times.
Further keys of a marked table are refused when the reading is strict, and passed over when
not. -/
def settle (strict : Bool) : Toml → Option Toml
  | array items => (settleItems strict items).map array
  | table [] => some (table [])
  | table ((key, v) :: rest) =>
    if key = Datetime.mark then if strict && !rest.isEmpty then none else ofMarked v
    else do
      let v ← settle strict v
      return table (Entries.ofList ((key, v) :: (← settleEntries strict rest)))
  | string s => some (string s)
  | integer n => some (integer n)
  | float x => some (float x)
  | boolean b => some (boolean b)
  | datetime d => some (datetime d)

/-- The values that some written values stand for. -/
def settleItems (strict : Bool) : List Toml → Option (List Toml)
  | [] => some []
  | v :: rest => do return (← settle strict v) :: (← settleItems strict rest)

/-- The entries that some written entries stand for. -/
def settleEntries (strict : Bool) : List (String × Toml) → Option (List (String × Toml))
  | [] => some []
  | (key, v) :: rest => do return (key, ← settle strict v) :: (← settleEntries strict rest)

end

end Toml

end Conformance
