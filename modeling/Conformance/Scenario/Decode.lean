import Conformance.Scenario.Operation
import Conformance.Toml.Record
import Conformance.Toml.Settled

/-!
# Reading operations from TOML values

An operation is a table with its name under `op` and its arguments under their own names. What an
operation does not know is ignored beside its arguments and refused in parameters. The values
among the arguments are settled strictly.
-/

namespace Conformance

namespace Scenario

open Toml

/-- A text. -/
def decodeText (t : Toml) : Option Text := Text.ofString <$> decodeString t

/-- A value. -/
def decodeValue : Toml → Option Toml := settle true

/-- A parameter with its default. -/
def decodeDefault (t : Toml) : Option (String × Toml) := do
  let entries ← Shape.read ⟨["name", "value"], 2, true⟩ t
  return (← field decodeString entries "name", ← field decodeValue entries "value")

/-- The parameters of a function. -/
def decodeParams (t : Toml) : Option Params := do
  let entries ← Shape.read ⟨["name", "fixed", "variadic", "defaults"], 0, true⟩ t
  return {
    name := (← field? decodeString entries "name").getD "f"
    fixed := (← field? (decodeList decodeString) entries "fixed").getD []
    variadic := ← field? decodeString entries "variadic"
    defaults := (← field? (decodeList decodeDefault) entries "defaults").getD [] }

/-- A keyword with its value. -/
def decodeKeyword (t : Toml) : Option Arg := do
  let entries ← Shape.read ⟨["name", "value"], 2, false⟩ t
  return .keyword (← field decodeString entries "name") (← field decodeValue entries "value")

/-- An argument: a table of exactly one key, which tells its sort. -/
def decodeArg : Toml → Option Arg
  | .table [("positional", t)] => .positional <$> decodeValue t
  | .table [("spread", t)] => .spread <$> decodeValue t
  | .table [("spread-lazy", t)] => .spreadLazy <$> decodeList decodeValue t
  | .table [("keyword", t)] => decodeKeyword t
  | _ => none

/-- A local name with its value. -/
def decodeLocal (entry : String × Toml) : Option (String × Toml) :=
  (decodeValue entry.2).map fun v => (entry.1, v)

/-- The locals of an assignment. A date or time in their place is the marked table that writes
it, whose mark is a name like others. -/
def decodeLocals : Toml → Option Entries
  | .datetime d => some [(Datetime.mark, .string d.text)]
  | t => do return Entries.ofList (← (← decodeTable t).mapM decodeLocal)

/-- The arguments of an operation, which are its fields after the name. -/
abbrev Decoder := Toml.Entries → Option Operation

/-- How the arguments of an operation are read. -/
structure Reader where
  /-- The names of the fields, in order. -/
  fields : List String
  /-- The number of fields that an array has to give. -/
  required : Nat
  /-- The operation that the fields give. -/
  decode : Decoder

/-- An operation on one text. -/
def onText (make : Text → Operation) : Reader where
  fields := ["text"]
  required := 1
  decode entries := make <$> field decodeText entries "text"

/-- An operation on two texts. -/
def onTexts (first second : String) (make : Text → Text → Operation) : Reader where
  fields := [first, second]
  required := 2
  decode entries := make <$> field decodeText entries first <*> field decodeText entries second

/-- An operation on a text and an integer. -/
def onTextAndInt (second : String) (make : Text → Int → Operation) : Reader where
  fields := ["text", second]
  required := 2
  decode entries := make <$> field decodeText entries "text" <*> field decodeInt entries second

/-- An operation on a text and a set of codepoints. -/
def onSet (make : Text → Option Text → Operation) : Reader where
  fields := ["text", "chars"]
  required := 2
  decode entries := make <$> field decodeText entries "text" <*> field? decodeText entries "chars"

/-- The reader of an operation by its name. -/
def reader? : String → Option Reader
  | "len" => some (onText .len)
  | "index" => some (onTextAndInt "index" .index)
  | "slice" => some {
      fields := ["text", "start", "stop", "step"]
      required := 4
      decode := fun entries =>
        .slice <$> field decodeText entries "text" <*> field? decodeInt entries "start" <*>
          field? decodeInt entries "stop" <*> field? decodeInt entries "step" }
  | "concat" => some (onTexts "left" "right" .concat)
  | "repeat" => some (onTextAndInt "times" .replicate)
  | "compare" => some (onTexts "left" "right" .compare)
  | "str" => some {
      fields := ["value"]
      required := 1
      decode := fun entries => .str <$> field decodeValue entries "value" }
  | "split" => some (onTexts "text" "sep" .split)
  | "split-whitespace" => some (onText .words)
  | "strip" => some (onSet .strip)
  | "lstrip" => some (onSet .stripLeft)
  | "rstrip" => some (onSet .stripRight)
  | "join" => some {
      fields := ["sep", "items", "lazy"]
      required := 2
      decode := fun entries => do
        return .join (← field decodeText entries "sep")
          (← field (decodeList decodeValue) entries "items")
          ((← field? decodeBool entries "lazy").getD false) }
  | "replace" => some {
      fields := ["text", "old", "new"]
      required := 3
      decode := fun entries =>
        .replace <$> field decodeText entries "text" <*> field decodeText entries "old" <*>
          field decodeText entries "new" }
  | "startswith" => some (onTexts "text" "prefix" .startsWith)
  | "endswith" => some (onTexts "text" "suffix" .endsWith)
  | "contains" => some (onTexts "text" "sub" .contains)
  | "find" => some (onTexts "text" "sub" .find)
  | "count" => some (onTexts "text" "sub" .count)
  | "bind" => some {
      fields := ["params", "args"]
      required := 1
      decode := fun entries => do
        return .bind (← field decodeParams entries "params")
          ((← field? (decodeList decodeArg) entries "args").getD []) }
  | "call" => some {
      fields := ["params", "args", "forward"]
      required := 1
      decode := fun entries => do
        return .call (← field decodeParams entries "params")
          ((← field? (decodeList decodeArg) entries "args").getD [])
          ((← field? decodeBool entries "forward").getD false) }
  | "unpack" => some {
      fields := ["targets", "values", "lazy"]
      required := 2
      decode := fun entries => do
        return .unpack (← field decodeString entries "targets")
          (← field (decodeList decodeValue) entries "values")
          ((← field? decodeBool entries "lazy").getD false) }
  | "assign" => some {
      fields := ["targets", "locals", "rhs"]
      required := 3
      decode := fun entries => do
        return .assign (← field decodeString entries "targets")
          ((← field? decodeLocals entries "locals").getD [])
          (← field (decodeList decodeString) entries "rhs") }
  | _ => none

/-- The operation that a TOML value writes. -/
def decodeOperation : Toml → Option Operation
  | .table entries => do
    let reader ← reader? (← field decodeString entries "op")
    reader.decode entries
  | .array (.string op :: items) => do
    let reader ← reader? op
    reader.decode (← Shape.read ⟨reader.fields, reader.required, false⟩ (.array items))
  | _ => none

end Scenario

end Conformance
