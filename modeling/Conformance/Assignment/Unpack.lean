import Conformance.Assignment.Target
import Conformance.Call.Binding

/-!
# Unpacking

Unpacking gives each target of a pattern its share of some values. Plain targets take one value
each, from both ends; the starred target takes what lies between as a list.
-/

namespace Conformance

namespace Pattern

/-- Distributes values over the targets, in target order. -/
def unpack (p : Pattern) (values : List Value) : Except Fault Bindings :=
  let names := p.targets.map (·.name)
  match p.star? with
  | none =>
    if values.length = p.required then .ok (names.zip values)
    else .error (.unpackMismatch p.required values.length false)
  | some star =>
    if values.length < p.required then .error (.unpackMismatch p.required values.length true)
    else
      let stop := values.length - (p.required - star)
      let middle := (values.take stop).drop star
      .ok (names.zip (values.take star ++ Value.list middle :: values.drop stop))

/-- Unpacks the elements of a value. -/
def unpackValue (p : Pattern) (v : Value) : Run Bindings := do
  liftExcept (p.unpack (← v.materialize))

/-- Unpacks what a sequence gives until a pull gives none. -/
def unpackSequence (p : Pattern) (h : Handle) : Run Bindings := do
  liftExcept (p.unpack (← Sequence.collect h))

end Pattern

end Conformance
