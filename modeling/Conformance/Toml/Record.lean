import Conformance.Toml.Basic

/-!
# Records in TOML values

A record is written as a table, or as an array of its fields in their order, in which trailing
fields that need not be given may be missing. Types are taken strictly: an integer is no string
and a float no integer.
-/

namespace Conformance

namespace Toml

/-- Which fields a record has. -/
structure Shape where
  /-- The names of the fields, in order. -/
  fields : List String
  /-- The number of fields that an array has to give. -/
  required : Nat
  /-- Whether other fields are refused. -/
  closed : Bool

/-- The fields of a record, given as a table or as an array. -/
def Shape.read (shape : Shape) : Toml → Option Toml.Entries
  | .table entries =>
    if shape.closed && entries.any fun entry => !shape.fields.contains entry.1 then none
    else some entries
  | .array items =>
    if shape.required ≤ items.length ∧ items.length ≤ shape.fields.length then
      some (shape.fields.zip items)
    else none
  | _ => none

/-- A field that has to be given. -/
def field {α : Type} (decode : Toml → Option α) (entries : Toml.Entries) (name : String) :
    Option α := do
  decode (← entries.get? name)

/-- A field that need not be given. -/
def field? {α : Type} (decode : Toml → Option α) (entries : Toml.Entries) (name : String) :
    Option (Option α) :=
  match entries.get? name with
  | some t => some <$> decode t
  | none => some none

/-- A string. -/
def decodeString : Toml → Option String
  | .string s => some s
  | _ => none

/-- An integer. -/
def decodeInt : Toml → Option Int
  | .integer n => some n
  | _ => none

/-- A truth value. -/
def decodeBool : Toml → Option Bool
  | .boolean b => some b
  | _ => none

/-- An array of like elements. -/
def decodeList {α : Type} (decode : Toml → Option α) : Toml → Option (List α)
  | .array items => items.mapM decode
  | _ => none

/-- A table. -/
def decodeTable : Toml → Option Toml.Entries
  | .table entries => some entries
  | _ => none

end Toml

end Conformance
