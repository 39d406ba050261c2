import Conformance.Toml.Basic

/-!
# Parts of TOML values

The parts of a TOML value are the value itself and what is in its arrays and tables at any depth,
in depth-first order.
-/

namespace Conformance

namespace Toml

mutual

/-- A TOML value and all values in it, each before those that are in it. -/
def parts : Toml → List Toml
  | string s => [string s]
  | integer n => [integer n]
  | float x => [float x]
  | boolean b => [boolean b]
  | datetime d => [datetime d]
  | array items => array items :: partsOf items
  | table entries => table entries :: partsOfEntries entries

/-- The parts of some TOML values, one value after the other. -/
def partsOf : List Toml → List Toml
  | [] => []
  | t :: rest => parts t ++ partsOf rest

/-- The parts of the values of some entries, one entry after the other. -/
def partsOfEntries : List (String × Toml) → List Toml
  | [] => []
  | (_, t) :: rest => parts t ++ partsOfEntries rest

end

/-- The types of TOML values that no value has. -/
def Kind.isForeign : Kind → Bool
  | .float | .datetime | .table => true
  | .string | .integer | .boolean | .array => false

end Toml

end Conformance
