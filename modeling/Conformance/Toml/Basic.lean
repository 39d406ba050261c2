import Conformance.Toml.Datetime

/-!
# TOML values

The values of a TOML document. A table has each key once. The table of a document keeps its
entries in the order in which their keys came up, a settled one in the order of the keys.
-/

namespace Conformance

/-- The values of a TOML document. -/
inductive Toml where
  | string (s : String)
  | integer (n : Int)
  | float (x : Float)
  | boolean (b : Bool)
  | datetime (d : Toml.Datetime)
  | array (items : List Toml)
  | table (entries : List (String × Toml))
  deriving Inhabited

namespace Toml

/-- The types of TOML values. -/
inductive Kind where
  | string
  | integer
  | float
  | boolean
  | datetime
  | array
  | table
  deriving DecidableEq, Repr

/-- The name of a type in messages. -/
def Kind.name : Kind → String
  | .string => "string"
  | .integer => "integer"
  | .float => "float"
  | .boolean => "boolean"
  | .datetime => "datetime"
  | .array => "array"
  | .table => "table"

/-- The type of a value. -/
def kind : Toml → Kind
  | string _ => .string
  | integer _ => .integer
  | float _ => .float
  | boolean _ => .boolean
  | datetime _ => .datetime
  | array _ => .array
  | table _ => .table

/-- The entries of a table. -/
abbrev Entries := List (String × Toml)

namespace Entries

/-- The value of a key. -/
def get? (entries : Entries) (key : String) : Option Toml :=
  (entries.find? (·.1 == key)).map (·.2)

/-- The entries with one more, in the order of the keys. It takes the place of an entry of the
same key. -/
def insert (entries : Entries) (key : String) (value : Toml) : Entries :=
  match entries with
  | [] => [(key, value)]
  | entry :: rest =>
    if key < entry.1 then (key, value) :: entry :: rest
    else if key = entry.1 then (key, value) :: rest
    else entry :: insert rest key value

/-- The entries of a list of keys and values, of which the last value of a key counts. -/
def ofList (pairs : List (String × Toml)) : Entries :=
  pairs.foldl (fun entries pair => entries.insert pair.1 pair.2) []

end Entries

mutual

/-- Whether two values are equal. Floats compare as numbers. -/
def same : Toml → Toml → Bool
  | string a, string b => a == b
  | integer a, integer b => a == b
  | float a, float b => a == b
  | boolean a, boolean b => a == b
  | datetime a, datetime b => a == b
  | array as, array bs => sameItems as bs
  | table as, table bs => sameEntries as bs
  | _, _ => false

/-- Whether two lists of values are equal. -/
def sameItems : List Toml → List Toml → Bool
  | [], [] => true
  | a :: as, b :: bs => same a b && sameItems as bs
  | _, _ => false

/-- Whether two lists of entries are equal. -/
def sameEntries : List (String × Toml) → List (String × Toml) → Bool
  | [], [] => true
  | (key, a) :: as, (other, b) :: bs => key == other && same a b && sameEntries as bs
  | _, _ => false

end

instance : BEq Toml := ⟨same⟩

end Toml

end Conformance
