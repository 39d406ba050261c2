import Conformance.Unicode.Alphabetic
import Conformance.Unicode.Blank
import Conformance.Unicode.Numeric
import Conformance.Value

/-!
# Targets and patterns

A target is an identifier, starred when it takes a whole run of values. A pattern is a list of
targets of which one at most is starred. In a written pattern commas separate the targets, white
space around names, stars and commas is free, and one comma may follow the last target.
-/

namespace Conformance

/-- Whether a name is an identifier: an underscore or a letter, then underscores, letters and
number characters. -/
def isIdentifier : List Char → Bool
  | [] => false
  | first :: rest =>
    (first == '_' || Unicode.isAlphabetic first) &&
      rest.all fun c => c == '_' || Unicode.isAlphabetic c || Unicode.isNumeric c

/-- The codepoints without white space at either end. -/
def trim (s : List Char) : List Char :=
  ((s.dropWhile Unicode.isBlank).reverse.dropWhile Unicode.isBlank).reverse

/-- One place of a pattern. -/
structure Target where
  name : String
  /-- Whether the target takes a run of values and not a single one. -/
  starred : Bool
  deriving DecidableEq, Repr

/-- Reads a target. -/
def Target.parse (text : List Char) : Except Fault Target :=
  let text := trim text
  let (name, starred) := match text with
    | '*' :: rest => (trim rest, true)
    | _ => (text, false)
  if isIdentifier name then .ok ⟨String.ofList name, starred⟩
  else .error (.invalidTarget (String.ofList text))

/-- A list of targets of which one at most is starred. -/
structure Pattern where
  targets : List Target
  one_star : targets.countP (·.starred) ≤ 1
  deriving DecidableEq

namespace Pattern

/-- The pattern of some targets. -/
def ofTargets (targets : List Target) : Except Fault Pattern :=
  if h : targets.countP (·.starred) ≤ 1 then .ok ⟨targets, h⟩ else .error .multipleStarred

/-- The texts between the commas of a written pattern. A last one of white space only is no slot
unless it is the only one. -/
def slots (text : List Char) : List (List Char) :=
  let parts := text.splitOnP (· == ',')
  if 1 < parts.length ∧ (parts.getLast?.all fun last => (trim last).isEmpty) then parts.dropLast
  else parts

/-- Reads a pattern. -/
def parse (text : String) : Except Fault Pattern := do
  ofTargets (← (slots text.toList).mapM Target.parse)

/-- The position of the starred target. -/
def star? (p : Pattern) : Option Nat := p.targets.findIdx? (·.starred)

/-- The number of targets that take a single value. -/
def required (p : Pattern) : Nat :=
  if p.star?.isSome then p.targets.length - 1 else p.targets.length

end Pattern

end Conformance
