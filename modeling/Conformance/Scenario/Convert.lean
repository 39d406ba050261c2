import Conformance.Call.Binding
import Conformance.Toml.Basic

/-!
# Values of TOML values

Integers, truth values, strings and arrays of them have a value.
-/

namespace Conformance

namespace Scenario

/-- The causes for which a scenario makes no sense. -/
inductive Nonsense where
  /-- A TOML value of a type that no value has. -/
  | noValue (kind : Toml.Kind)
  /-- Nothing, which no TOML value stands for. -/
  | noToml
  deriving DecidableEq, Repr

/-- The message of a cause. -/
def Nonsense.message : Nonsense → String
  | noValue kind => s!"{kind.name} values have no runtime form"
  | noToml => "None has no TOML form"

/-- The ways in which a scenario fails. -/
inductive EvalError where
  | fault (e : Fault)
  | invalid (cause : Nonsense)
  deriving DecidableEq, Repr

/-- The message of a failed scenario. -/
def EvalError.message : EvalError → String
  | fault e => s!"{e.category.label} error: {e.message}"
  | invalid cause => s!"invalid scenario: {cause.message}"

mutual

/-- The value of a TOML value. -/
def toValue : Toml → Except Nonsense Value
  | .integer n => .ok (.int n)
  | .boolean b => .ok (.bool b)
  | .string s => .ok (.str (Text.ofString s))
  | .array items => (toValues items).map .list
  | .float _ => .error (.noValue .float)
  | .datetime _ => .error (.noValue .datetime)
  | .table _ => .error (.noValue .table)

/-- The values of some TOML values, in order. -/
def toValues : List Toml → Except Nonsense (List Value)
  | [] => .ok []
  | t :: rest =>
    match toValue t with
    | .error e => .error e
    | .ok v => (toValues rest).map (v :: ·)

end

end Scenario

end Conformance
