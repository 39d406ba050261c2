import Conformance.Scenario.Decode
import Conformance.Suite.Case

/-!
# Suites

A suite is a document whose cases all have exactly one expectation and names of their own. The
first case in the order of the document that breaks a rule is reported; of one case, the rule on
expectations comes first.
-/

namespace Conformance

/-- A list of cases that can be used together. -/
structure Suite where
  cases : List Case

namespace Suite

/-- The first case that cannot be used beside those before it, whose names are given. -/
def findInvalid? (earlier : List String) : List Case → Option InvalidCase
  | [] => none
  | c :: rest =>
    match c.expectation with
    | .error flaw => some ⟨c.name, flaw⟩
    | .ok _ =>
      if earlier.contains c.name then some ⟨c.name, .duplicateName⟩
      else findInvalid? (c.name :: earlier) rest

/-- The suite of some cases. -/
def ofCases (cases : List Case) : Except InvalidCase Suite :=
  match findInvalid? [] cases with
  | some e => .error e
  | none => .ok ⟨cases⟩

end Suite

namespace Case

/-- The fields of a case. -/
def shape : Toml.Shape := ⟨["name", "run", "expect", "error"], 2, true⟩

/-- The case that a TOML value writes. What it expects is settled, strictly or not. -/
def decode (strict : Bool) (t : Toml) : Option Case := do
  let entries ← shape.read t
  return {
    name := ← Toml.field Toml.decodeString entries "name"
    run := ← Toml.field Scenario.decodeOperation entries "run"
    expect := ← Toml.field? (Toml.settle strict) entries "expect"
    error := ← Toml.field? Toml.decodeString entries "error" }

/-- The case that an element of a document writes. Elements of an array beyond the fields of a
case are not looked at. -/
def decodeElement : Toml → Option Case
  | .array items => decode false (.array (items.take shape.fields.length))
  | t => decode false t

end Case

namespace Suite

/-- The cases that a document writes, which are all that it may hold. -/
def decodeCases (document : Toml.Entries) : Option (List Case) := do
  let entries ← Toml.Shape.read ⟨["case"], 0, true⟩ (.table document)
  return (← Toml.field? (Toml.decodeList Case.decodeElement) entries "case").getD []

end Suite

end Conformance
