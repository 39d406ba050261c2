/-!
# JSON

The JSON values of reports and how they are written: two blanks for each level, one element or
member on a line, empty arrays and objects on one line.
-/

namespace Conformance

/-- A JSON value. -/
inductive Json where
  | null
  | bool (b : Bool)
  | nat (n : Nat)
  | string (s : String)
  | array (items : List Json)
  | object (members : List (String × Json))

namespace Json

/-- A text, or null. -/
def ofText? : Option String → Json
  | some s => string s
  | none => null

/-- A number in lower-case hexadecimal with four digits at least. -/
def fourHex (n : Nat) : List Char :=
  let digits := Nat.toDigits 16 n
  List.replicate (4 - digits.length) '0' ++ digits

/-- A codepoint of a string as it is written. -/
def escaped : Char → List Char
  | '"' => ['\\', '"']
  | '\\' => ['\\', '\\']
  | '\x08' => ['\\', 'b']
  | '\x0c' => ['\\', 'f']
  | '\n' => ['\\', 'n']
  | '\r' => ['\\', 'r']
  | '\t' => ['\\', 't']
  | c => if c.toNat < 0x20 then '\\' :: 'u' :: fourHex c.toNat else [c]

/-- A string as it is written. -/
def quoted (s : String) : List Char := '"' :: s.toList.flatMap escaped ++ ['"']

/-- The start of a line at a level. -/
def lineStart (level : Nat) : List Char := '\n' :: List.replicate (2 * level) ' '

mutual

/-- The codepoints of a value whose first line is at a level. -/
def chars (level : Nat) : Json → List Char
  | null => "null".toList
  | bool true => "true".toList
  | bool false => "false".toList
  | nat n => Nat.toDigits 10 n
  | string s => quoted s
  | array [] => ['[', ']']
  | array (v :: rest) =>
    '[' :: lineStart (level + 1) ++ chars (level + 1) v ++ itemsChars (level + 1) rest ++
      lineStart level ++ [']']
  | object [] => ['\x7b', '\x7d']
  | object ((key, v) :: rest) =>
    '\x7b' :: lineStart (level + 1) ++ quoted key ++ [':', ' '] ++ chars (level + 1) v ++
      membersChars (level + 1) rest ++ lineStart level ++ ['\x7d']

/-- The codepoints of the elements after the first. -/
def itemsChars (level : Nat) : List Json → List Char
  | [] => []
  | v :: rest => ',' :: lineStart level ++ chars level v ++ itemsChars level rest

/-- The codepoints of the members after the first. -/
def membersChars (level : Nat) : List (String × Json) → List Char
  | [] => []
  | (key, v) :: rest =>
    ',' :: lineStart level ++ quoted key ++ [':', ' '] ++ chars level v ++ membersChars level rest

end

/-- A value as it is written. -/
def pretty (v : Json) : String := String.ofList (v.chars 0)

end Json

end Conformance
