/-!
# Parsers

A parser takes codepoints off the front of a text or refuses it. Of two alternatives the second
one starts where the first one did.
-/

namespace Conformance

/-- Takes codepoints off the front of a text, or refuses it. -/
abbrev Parser (α : Type) := StateT (List Char) Option α

namespace Parser

variable {α : Type}

/-- Takes one codepoint that passes a test. -/
def one (test : Char → Bool) : Parser Char := fun s =>
  match s with
  | c :: rest => if test c then some (c, rest) else none
  | [] => none

/-- Takes a given codepoint. -/
def char (c : Char) : Parser Unit := discard (one (· == c))

/-- Takes a given text. -/
def word (s : List Char) : Parser Unit := s.forM char

/-- Takes the codepoints up to the first that fails a test. -/
def span (test : Char → Bool) : Parser (List Char) := fun s =>
  some (s.takeWhile test, s.dropWhile test)

/-- Takes a given number of codepoints that pass a test. -/
def exactly : Nat → (Char → Bool) → Parser (List Char)
  | 0, _ => return []
  | n + 1, test => do return (← one test) :: (← exactly n test)

/-- Takes nothing, at the end of the text only. -/
def atEnd : Parser Unit := fun s => if s.isEmpty then some ((), s) else none

/-- What a parser takes again and again until it refuses or takes nothing, and the rest. -/
def repeated (p : Parser α) (s : List Char) : List α × List Char :=
  match p.run s with
  | some (a, rest) =>
    if rest.length < s.length then
      let (as, last) := repeated p rest
      (a :: as, last)
    else ([], s)
  | none => ([], s)
termination_by s.length

/-- Takes as much as a parser takes again and again. -/
def many (p : Parser α) : Parser (List α) := fun s => some (repeated p s)

/-- Takes one or more of the same, with a separator between neighbours. -/
def separated (p : Parser α) (separator : Parser Unit) : Parser (List α) := do
  return (← p) :: (← many (separator *> p))

/-- What a parser takes of a whole text. -/
def readAll (p : Parser α) (s : List Char) : Option α := ((p <* atEnd).run s).map (·.1)

end Parser

end Conformance
