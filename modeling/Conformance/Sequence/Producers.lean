import Conformance.Sequence.Pull

/-!
# Producers

The generators that scripts can make: given values one after the other, a scripted list of calls,
a range of integers, and a watcher that looks at another sequence each time it is called.
-/

namespace Conformance

namespace Generator

/-- A generator whose calls give the items of a list in order. An item may be none, after which
the generator is not called again. -/
def ofCalls (items : List (Option Value)) : Generator where
  step past := .finish (items[past.length]?).join

/-- A generator that gives the values of a list in order. -/
def ofValues (items : List Value) : Generator := ofCalls (items.map some)

/-- The integers from `start` on, `by` apart, up to but without `limit`. -/
def range (start by_ : Int) (limit : Option Int) : Generator where
  step past :=
    let now := start + past.length * by_
    let ended := match limit with
      | some limit => if by_ < 0 then decide (now ≤ limit) else decide (limit ≤ now)
      | none => false
    .finish (if ended then none else some (.int now))

/-- How a watcher looks at the sequence that it watches. -/
inductive Look where
  /-- Takes the next value as its own. -/
  | next
  /-- Takes the next value as its own, and gives the message of a refusal as a text. -/
  | tryNext
  /-- Gives all remaining values as a list, and the message of a refusal as a text. -/
  | drain
  /-- Gives the description of the state as a text. -/
  | describe
  /-- Gives whether the sequence is exhausted. -/
  | exhausted
  deriving DecidableEq, Repr

/-- What a watcher does with the sequence that it found. -/
def Look.step (look : Look) (h : Handle) : Step :=
  match look with
  | .next => .ask (.next h) fun value => .finish value
  | .tryNext => .ask (.tryNext h) fun
    | .ok value => .finish value
    | .error e => .finish (some (.str (Text.ofString e.message)))
  | .drain => .ask (.drain h) fun
    | .ok values => .finish (some (.list values))
    | .error e => .finish (some (.str (Text.ofString e.message)))
  | .describe => .ask (.describe h) fun state => .finish (some (.str (Text.ofString state)))
  | .exhausted => .ask (.exhausted h) fun ended => .finish (some (.bool ended))

/-- A generator that at each call finds the sequence of a name and looks at it. It ends when no
sequence has the name, and after the given number of calls. -/
def watcher (name : String) (look : Look) (limit : Nat) : Generator where
  step past :=
    if limit ≤ past.length then .finish none
    else .ask (.resolve name) fun
      | some h => look.step h
      | none => .finish none

end Generator

end Conformance
