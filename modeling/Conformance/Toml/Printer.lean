import Conformance.Decimal.Shortest
import Conformance.Toml.Basic

/-!
# Writing TOML values

Each value is written on one line, but for texts that hold line breaks. A text takes the first
of four quotings that shows it without escapes other than that of a tab: double quotes,
apostrophes, three double quotes, three apostrophes. A text that none of them can show is escaped
between double quotes. A date or time inside a value is written as such, and one that is the
whole value as a marked table.
-/

namespace Conformance

namespace Toml

/-- Whether a codepoint is a control character other than tab and line break. -/
def isControl (c : Char) : Bool := (c.toNat < 0x20 && c != '\t' && c != '\n') || c.toNat == 0x7F

/-- The length of the longest run of a codepoint. -/
def longestRun (c : Char) : List Char → Nat
  | [] => 0
  | s@(_ :: rest) => max (s.takeWhile (· == c)).length (longestRun c rest)

/-- A number in upper-case hexadecimal with four digits at least. -/
def fourHex (n : Nat) : List Char :=
  let digits := (Nat.toDigits 16 n).map Char.toUpper
  List.replicate (4 - digits.length) '0' ++ digits

/-- A codepoint inside double quotes. -/
def escaped (c : Char) : List Char :=
  match c with
  | '\x08' => ['\\', 'b']
  | '\t' => ['\\', 't']
  | '\n' => ['\\', 'n']
  | '\x0c' => ['\\', 'f']
  | '\r' => ['\\', 'r']
  | '"' => ['\\', '"']
  | '\\' => ['\\', '\\']
  | c => if isControl c then '\\' :: 'u' :: fourHex c.toNat else [c]

/-- The codepoints inside three double quotes, after a run of double quotes. Line breaks stay, and
of a run of double quotes each third one is escaped. -/
def escapedLines : Nat → List Char → List Char
  | _, [] => []
  | run, '"' :: rest =>
    if run = 2 then '\\' :: '"' :: escapedLines 0 rest else '"' :: escapedLines (run + 1) rest
  | _, '\n' :: rest => '\n' :: escapedLines 0 rest
  | _, c :: rest => escaped c ++ escapedLines 0 rest

/-- A text between double quotes. -/
def basic (s : List Char) : List Char := '"' :: s.flatMap escaped ++ ['"']

/-- A text between apostrophes. -/
def apostrophes (s : List Char) : List Char := '\'' :: s ++ ['\'']

/-- The line break that opens a quoting of several lines. -/
def opening (s : List Char) : List Char := if s.contains '\n' then ['\n'] else []

/-- A text between three double quotes. -/
def basicLines (s : List Char) : List Char :=
  ['"', '"', '"'] ++ opening s ++ escapedLines 0 s ++ ['"', '"', '"']

/-- A text between three apostrophes. -/
def apostropheLines (s : List Char) : List Char :=
  ['\'', '\'', '\''] ++ opening s ++ s ++ ['\'', '\'', '\'']

/-- A text as it is written. -/
def quoted (s : List Char) : List Char :=
  let control := s.any isControl
  let lines := s.contains '\n'
  if !control && !lines && !s.contains '\\' && !s.contains '"' then basic s
  else if !control && !lines && !s.contains '\'' then apostrophes s
  else if !control && !s.contains '\\' && longestRun '"' s ≤ 2 then basicLines s
  else if !control && longestRun '\'' s ≤ 2 then apostropheLines s
  else if lines then basicLines s
  else basic s

/-- Whether a codepoint may stand in a key without quotes. -/
def isBare (c : Char) : Bool := c.isAlphanum || c == '-' || c == '_'

/-- A key as it is written. -/
def keyChars (key : List Char) : List Char :=
  let control := key.any fun c => isControl c || c == '\n'
  if !key.isEmpty && key.all isBare then key
  else if !control && !key.contains '\\' && !key.contains '"' then basic key
  else if !control && !key.contains '\'' then apostrophes key
  else basic key

mutual

/-- The codepoints of a value as it is written. -/
def chars : Toml → List Char
  | string s => quoted s.toList
  | integer n => (toString n).toList
  | float x => Decimal.ofFloat x
  | boolean true => "true".toList
  | boolean false => "false".toList
  | datetime d => d.chars
  | array items => '[' :: itemsChars items ++ [']']
  | table [] => ['\x7b', '\x7d']
  | table (entry :: rest) => '\x7b' :: ' ' :: entriesChars (entry :: rest) ++ [' ', '\x7d']

/-- The codepoints of some values, a comma and a space between neighbours. -/
def itemsChars : List Toml → List Char
  | [] => []
  | [v] => chars v
  | v :: w :: rest => chars v ++ [',', ' '] ++ itemsChars (w :: rest)

/-- The codepoints of some entries, a comma and a space between neighbours. -/
def entriesChars : List (String × Toml) → List Char
  | [] => []
  | [(key, v)] => keyChars key.toList ++ [' ', '=', ' '] ++ chars v
  | (key, v) :: next :: rest =>
    keyChars key.toList ++ [' ', '=', ' '] ++ chars v ++ [',', ' '] ++ entriesChars (next :: rest)

end

/-- A whole value as it is written. -/
def display : Toml → String
  | datetime d => String.ofList (chars (table [(Datetime.mark, string d.text)]))
  | v => String.ofList v.chars

end Toml

end Conformance
