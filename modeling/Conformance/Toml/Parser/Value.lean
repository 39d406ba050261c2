import Conformance.Toml.Parser.Datetime
import Conformance.Toml.Parser.Number
import Conformance.Toml.Section

/-!
# Reading values

Arrays may break their lines and end with a comma; tables between braces may do neither. Arrays
and such tables nest to a limited depth.
-/

namespace Conformance

namespace Toml

namespace Parser

open Conformance.Parser

/-- A truth value. -/
def boolean : Parser Bool :=
  (word ['t', 'r', 'u', 'e'] *> pure true) <|> (word ['f', 'a', 'l', 's', 'e'] *> pure false)

/-- A value without parts. -/
def scalar : Parser Toml :=
  Toml.string <$> string <|> Toml.datetime <$> datetime <|> Toml.float <$> float <|>
    Toml.integer <$> integer <|> Toml.boolean <$> boolean

/-- An array of values. -/
def array (value : Parser Toml) : Parser Toml := do
  char '['
  let items ← optional (separated (space *> value <* space) (char ','))
  if items.isSome then discard (optional (char ','))
  space
  char ']'
  return .array (items.getD [])

/-- A key and its value, with a sign of equality between them. -/
def keyValue (value : Parser Toml) : Parser (Key × Toml) := do
  let key ← key
  char '='
  blanks
  return (key, ← value)

/-- The table of some keys and values. -/
def inlineEntries (pairs : List (Key × Toml)) : Option Entries :=
  Section.finish <$>
    pairs.foldlM (fun s pair => s.insert pair.1.way pair.1.name pair.2) Section.empty

/-- A table between braces. -/
def inlineTable (value : Parser Toml) : Parser Toml := do
  char '\x7b'
  let pairs ← optional (separated (keyValue value <* blanks) (char ','))
  blanks
  char '\x7d'
  match inlineEntries (pairs.getD []) with
  | some entries => return .table entries
  | none => failure

/-- A value whose arrays and tables nest no deeper than a bound. -/
def valueWithin : Nat → Parser Toml
  | 0 => scalar
  | depth + 1 => scalar <|> array (valueWithin depth) <|> inlineTable (valueWithin depth)

/-- A value. -/
def value : Parser Toml := valueWithin (depthLimit - 1)

end Parser

end Toml

end Conformance
