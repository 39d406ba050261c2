import Conformance.Toml.Parser.Lexical

/-!
# Reading strings and keys

A string stands between double quotes, where a backslash opens an escape, or between
apostrophes, where all codepoints stand for themselves. Three delimiters instead of one admit line
breaks. One or two delimiters in a row belong to the text of such a string, also before the
three that close it.
-/

namespace Conformance

namespace Toml

namespace Parser

open Conformance.Parser

/-- Whether a codepoint is a hexadecimal digit. -/
def isHexDigit (c : Char) : Bool :=
  c.isDigit || ('a' ≤ c && c ≤ 'f') || ('A' ≤ c && c ≤ 'F')

/-- The number that a digit stands for. -/
def digitValue (c : Char) : Nat :=
  if c.isDigit then c.toNat - '0'.toNat
  else if 'a' ≤ c then c.toNat - 'a'.toNat + 10
  else c.toNat - 'A'.toNat + 10

/-- The number that some digits write in a base. -/
def numberOf (base : Nat) (digits : List Char) : Nat :=
  digits.foldl (fun n c => base * n + digitValue c) 0

/-- The codepoint that a number of hexadecimal digits write. -/
def codepoint (width : Nat) : Parser Char := do
  let n := numberOf 16 (← exactly width isHexDigit)
  if n.isValidChar then return Char.ofNat n else failure

/-- An escape. -/
def escape : Parser Char := do
  char '\\'
  match ← one fun _ => true with
  | 'b' => return '\x08'
  | 't' => return '\t'
  | 'n' => return '\n'
  | 'f' => return '\x0c'
  | 'r' => return '\r'
  | '"' => return '"'
  | '\\' => return '\\'
  | 'u' => codepoint 4
  | 'U' => codepoint 8
  | _ => failure

/-- A codepoint between double quotes that stands for itself. -/
def unescaped : Parser Char := one fun c => isPlain c && c != '"' && c != '\\'

/-- A codepoint between apostrophes. -/
def verbatim : Parser Char := one fun c => isPlain c && c != '\''

/-- A string between double quotes. -/
def basicString : Parser (List Char) := char '"' *> many (unescaped <|> escape) <* char '"'

/-- A string between apostrophes. -/
def literalString : Parser (List Char) := char '\'' *> many verbatim <* char '\''

/-- A backslash at the end of a line, which hides the line break and the blanks and line breaks
that follow. -/
def hiddenBreak : Parser (List Char) :=
  char '\\' *> blanks *> newline *> many (discard (one isBlank) <|> newline) *> pure []

/-- A line break, which counts as a line feed. -/
def lineFeed : Parser (List Char) := newline *> pure ['\n']

/-- One or two delimiters in a row. -/
def innerDelimiters (delimiter : Char) : Parser (List Char) := do
  let run ← span (· == delimiter)
  if run.length = 1 ∨ run.length = 2 then return run else failure

/-- The three delimiters that close a string, and up to two before them that are its text. -/
def closingDelimiters (delimiter : Char) : Parser (List Char) := do
  let run ← span (· == delimiter)
  if 3 ≤ run.length ∧ run.length ≤ 5 then return run.drop 3 else failure

/-- A string of several lines, of which a line break at the start is dropped. -/
def linesOf (delimiter : Char) (fragment : Parser (List Char)) : Parser (List Char) := do
  word [delimiter, delimiter, delimiter]
  let _ ← optional newline
  let fragments ← many (fragment <|> innerDelimiters delimiter)
  return fragments.flatten ++ (← closingDelimiters delimiter)

/-- A string between three double quotes. -/
def basicLines : Parser (List Char) :=
  linesOf '"' (List.singleton <$> unescaped <|> hiddenBreak <|> List.singleton <$> escape <|>
    lineFeed)

/-- A string between three apostrophes. -/
def literalLines : Parser (List Char) :=
  linesOf '\'' (List.singleton <$> verbatim <|> lineFeed)

/-- A string. -/
def string : Parser String :=
  String.ofList <$> (basicLines <|> basicString <|> literalLines <|> literalString)

/-- A key without quotes. -/
def bareKey : Parser (List Char) := do
  let key ← span fun c => c.isAlphanum || c == '-' || c == '_'
  if key.isEmpty then failure else return key

/-- One part of a key. -/
def keyPart : Parser String :=
  blanks *> (String.ofList <$> (bareKey <|> basicString <|> literalString)) <* blanks

/-- The limit that the parts of a key and the nesting of values stay below. -/
def depthLimit : Nat := 80

/-- A key: the way through tables and the name in the last of them. -/
structure Key where
  way : List String
  name : String

/-- All parts of a key. -/
def Key.parts (key : Key) : List String := key.way ++ [key.name]

/-- A key, its parts with points between them. -/
def key : Parser Key := do
  let parts ← separated keyPart (char '.')
  match parts.getLast? with
  | some name => if parts.length < depthLimit then return ⟨parts.dropLast, name⟩ else failure
  | none => failure

end Parser

end Toml

end Conformance
