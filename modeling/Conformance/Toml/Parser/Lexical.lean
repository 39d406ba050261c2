import Conformance.Parser

/-!
# Blanks, line ends and comments

Blanks are spaces and tabs. A line ends with a line feed, which a carriage return may precede, or
with the document.
-/

namespace Conformance

namespace Toml

namespace Parser

open Conformance.Parser

/-- Whether a codepoint is a blank. -/
def isBlank (c : Char) : Bool := c == ' ' || c == '\t'

/-- Whether a codepoint may stand in a comment: a tab or no control character. -/
def isPlain (c : Char) : Bool := c == '\t' || (0x20 ≤ c.toNat && c.toNat != 0x7F)

/-- Any number of blanks. -/
def blanks : Parser Unit := discard (span isBlank)

/-- A line break. -/
def newline : Parser Unit := char '\n' <|> word ['\r', '\n']

/-- The end of a line or of the document. -/
def lineEnd : Parser Unit := newline <|> atEnd

/-- A comment up to the end of its line. -/
def comment : Parser Unit := char '#' <* span isPlain

/-- What may follow a header or an entry on its line. -/
def lineRest : Parser Unit := blanks *> discard (optional comment) *> lineEnd

/-- Any number of blanks, line breaks and comments that end with one. -/
def space : Parser Unit :=
  discard (many (discard (one isBlank) <|> newline <|> (comment *> newline)))

end Parser

end Toml

end Conformance
