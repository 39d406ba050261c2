import Conformance.Sequence.Run
import Conformance.Text.Search

/-!
# Joining values

Joining needs texts. All items are produced before the first of them is examined, so a lazy
value is drained also when an item is refused.
-/

namespace Conformance

/-- The texts that some values are. The first value that is no text is refused with its
position. -/
def texts : Nat → List Value → Except Fault (List Text)
  | _, [] => .ok []
  | position, v :: rest =>
    match v.text? with
    | some t => (texts (position + 1) rest).map (t :: ·)
    | none => .error (.joinItemNotText position v.type)

/-- The items one after the other, with a separator between neighbours. -/
def joinItems (sep : Text) (items : List Value) : Except Fault Text :=
  (texts 0 items).map (Text.intercalate sep)

namespace Value

/-- Joins the elements of a value. -/
def join (v : Value) (sep : Text) : Run Text := do
  liftExcept (joinItems sep (← v.materialize))

end Value

/-- Joins what a sequence gives until a pull gives none. -/
def Sequence.join (sep : Text) (h : Handle) : Run Text := do
  liftExcept (joinItems sep (← Sequence.collect h))

end Conformance
