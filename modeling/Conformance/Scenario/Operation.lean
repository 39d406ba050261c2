import Conformance.Toml.Basic
import Conformance.Text.Basic

/-!
# Operations of scenarios

An operation is what a scenario runs: one of the library's operations with its arguments as TOML
values. Operations without TOML values are given by texts and integers.
-/

namespace Conformance

namespace Scenario

/-- The parameters of a function in a scenario. -/
structure Params where
  name : String
  fixed : List String
  variadic : Option String
  defaults : List (String × Toml)

/-- An argument of a call in a scenario. -/
inductive Arg where
  | positional (value : Toml)
  | spread (value : Toml)
  /-- The spread of a generator of the values. -/
  | spreadLazy (values : List Toml)
  | keyword (name : String) (value : Toml)

/-- What a scenario runs. -/
inductive Operation where
  | len (text : Text)
  | index (text : Text) (index : Int)
  | slice (text : Text) (start stop step : Option Int)
  | concat (left right : Text)
  | replicate (text : Text) (times : Int)
  | compare (left right : Text)
  | str (value : Toml)
  | split (text sep : Text)
  | words (text : Text)
  | strip (text : Text) (set : Option Text)
  | stripLeft (text : Text) (set : Option Text)
  | stripRight (text : Text) (set : Option Text)
  | join (sep : Text) (items : List Toml) (lazy : Bool)
  | replace (text old new : Text)
  | startsWith (text lead : Text)
  | endsWith (text tail : Text)
  | contains (text sub : Text)
  | find (text sub : Text)
  | count (text sub : Text)
  | bind (params : Params) (args : List Arg)
  | call (params : Params) (args : List Arg) (forward : Bool)
  | unpack (targets : String) (values : List Toml) (lazy : Bool)
  | assign (targets : String) (locals : Toml.Entries) (sources : List String)

end Scenario

end Conformance
