import Conformance.Scenario.Evaluate
import Conformance.Toml.Printer

/-!
# Cases

A case runs one operation and says what it has to give: a value, or an error of one category. It
passes when the result is exactly that; otherwise the difference is told.
-/

namespace Conformance

/-- A named scenario with what it is expected to give. -/
structure Case where
  name : String
  run : Scenario.Operation
  expect : Option Toml
  error : Option String

/-- What a case has to give. -/
inductive Expectation where
  | value (expected : Toml)
  | error (category : Category)

/-- The causes for which a case cannot be used. -/
inductive CaseFlaw where
  | unknownCategory (label : String)
  | twoExpectations
  | noExpectation
  | duplicateName
  deriving DecidableEq, Repr

/-- The message of a flaw. -/
def CaseFlaw.message : CaseFlaw → String
  | unknownCategory label => s!"unknown error category '{label}'"
  | twoExpectations => "has both `expect` and `error`"
  | noExpectation => "needs `expect` or `error`"
  | duplicateName => "duplicate case name"

/-- A case that cannot be used. -/
structure InvalidCase where
  name : String
  flaw : CaseFlaw
  deriving DecidableEq, Repr

/-- The message of a case that cannot be used. -/
def InvalidCase.message (e : InvalidCase) : String :=
  s!"invalid case '{e.name}': {e.flaw.message}"

/-- The ways in which a case fails. -/
inductive CaseFailure where
  | invalid (e : InvalidCase)
  | otherValue (expected actual : Toml)
  | noError (expected : Category) (actual : Toml)
  | otherError (expected : Category) (actual : Fault)
  | evaluation (e : Scenario.EvalError)

/-- What is told of a failed case. -/
def CaseFailure.message : CaseFailure → String
  | invalid e => e.message
  | otherValue expected actual => s!"expected {expected.display}, got {actual.display}"
  | noError expected actual => s!"expected {expected.label} error, got {actual.display}"
  | otherError expected actual =>
    s!"expected {expected.label} error, got {actual.category.label} error: {actual.message}"
  | evaluation e => e.message

/-- Compares the result of a scenario with what is expected of it. -/
def Expectation.compare : Expectation → Except Scenario.EvalError Toml → Except CaseFailure Unit
  | value expected, .ok actual =>
    if actual == expected then .ok () else .error (.otherValue expected actual)
  | error expected, .ok actual => .error (.noError expected actual)
  | error expected, .error (.fault e) =>
    if e.category = expected then .ok () else .error (.otherError expected e)
  | _, .error e => .error (.evaluation e)

namespace Case

/-- The expectation of a case, which is given as a value or as the label of a category. -/
def expectation (c : Case) : Except CaseFlaw Expectation :=
  match c.expect, c.error with
  | some expected, none => .ok (.value expected)
  | none, some label =>
    match Category.ofLabel? label with
    | some category => .ok (.error category)
    | none => .error (.unknownCategory label)
  | some _, some _ => .error .twoExpectations
  | none, none => .error .noExpectation

/-- Runs the case and compares the result. -/
def check (c : Case) : Except CaseFailure Unit :=
  match c.expectation with
  | .ok expectation => expectation.compare (Scenario.evaluate c.run)
  | .error flaw => .error (.invalid ⟨c.name, flaw⟩)

end Case

end Conformance
