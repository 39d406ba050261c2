import Conformance.Text.Basic
import Conformance.Unicode.Unprintable

/-!
# Quoted forms of a text

Two ways to show a text between quotes. The literal form, between apostrophes, escapes what would
end or break it. The listing form, between double quotes, also shows by number whatever has no
shape of its own.
-/

namespace Conformance

/-- How a codepoint stands inside a literal. -/
def literalChar : Char → List Char
  | '\\' => ['\\', '\\']
  | '\'' => ['\\', '\'']
  | '\n' => ['\\', 'n']
  | '\t' => ['\\', 't']
  | '\r' => ['\\', 'r']
  | c => [c]

/-- How a codepoint stands inside a listing. -/
def listedChar (c : Char) : List Char :=
  match c with
  | '\\' => ['\\', '\\']
  | '"' => ['\\', '"']
  | '\n' => ['\\', 'n']
  | '\t' => ['\\', 't']
  | '\r' => ['\\', 'r']
  | '\x00' => ['\\', '0']
  | c =>
    if Unicode.isUnprintable c then
      ['\\', 'u', '\x7b'] ++ Nat.toDigits 16 c.toNat ++ ['\x7d']
    else [c]

namespace Text

/-- A text as a literal between apostrophes. -/
def literal (t : Text) : Text := ⟨'\'' :: t.chars.flatMap literalChar ++ ['\'']⟩

/-- A text as it is listed, between double quotes. -/
def listing (t : Text) : Text := ⟨'"' :: t.chars.flatMap listedChar ++ ['"']⟩

end Text

end Conformance
