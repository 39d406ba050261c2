import Conformance.Text.Basic
import Conformance.Unicode.Blank

/-!
# Stripping and words

Stripping removes the longest run of members of a set from an end of a text. The set is that of
the codepoints of a given text, or white space when none is given. Words are the longest
stretches of a text without white space.
-/

namespace Conformance

namespace Text

/-- Whether a codepoint is in the set that a text gives, or is white space when none is given. -/
def isMember (set : Option Text) (c : Char) : Bool :=
  match set with
  | some t => t.chars.contains c
  | none => Unicode.isBlank c

/-- The length of the longest beginning of members only. -/
def leadingRun (t : Text) (set : Option Text) : Nat :=
  (t.chars.takeWhile (isMember set)).length

/-- The length of the longest ending of members only. -/
def trailingRun (t : Text) (set : Option Text) : Nat :=
  (t.chars.reverse.takeWhile (isMember set)).length

/-- A text without its leading run. -/
def stripLeft (t : Text) (set : Option Text) : Text := ⟨t.chars.drop (t.leadingRun set)⟩

/-- A text without its trailing run. -/
def stripRight (t : Text) (set : Option Text) : Text :=
  ⟨t.chars.take (t.length - t.trailingRun set)⟩

/-- A text without its leading and its trailing run, which are one when all are members. -/
def strip (t : Text) (set : Option Text) : Text :=
  if t.leadingRun set = t.length then empty
  else ⟨(t.chars.take (t.length - t.trailingRun set)).drop (t.leadingRun set)⟩

/-- The words of a text, in order. -/
def words (t : Text) : List Text :=
  ((t.chars.splitOnP Unicode.isBlank).filter (!·.isEmpty)).map mk

end Text

end Conformance
