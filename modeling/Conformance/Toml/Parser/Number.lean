import Conformance.Decimal.Read
import Conformance.Toml.Parser.Quoted

/-!
# Reading numbers

Digits may have an underscore between neighbours. A decimal integer has no zeros in front and may
have a sign; integers in other bases have no sign. Integers have 64 bits. A float has a
fraction, an exponent or both, and is refused when it is too large and positive.
-/

namespace Conformance

namespace Toml

namespace Parser

open Conformance.Parser

/-- Any number of digits, each of which an underscore may precede. -/
def furtherDigits (isDigit : Char → Bool) : Parser (List Char) :=
  many (one isDigit <|> (char '_' *> one isDigit))

/-- One or more digits with underscores between neighbours. -/
def digits (isDigit : Char → Bool) : Parser (List Char) := do
  return (← one isDigit) :: (← furtherDigits isDigit)

/-- A sign, or nothing. -/
def sign : Parser (List Char) :=
  (List.singleton <$> one fun c => c == '+' || c == '-') <|> pure []

/-- The digits of a decimal integer, without zeros in front. -/
def wholeDigits : Parser (List Char) := do
  let first ← one Char.isDigit
  if first = '0' then return [first] else return first :: (← furtherDigits Char.isDigit)

/-- The exponent of a float: its mark, perhaps a sign, and digits. -/
def exponent : Parser (List Char) := do
  let mark ← one fun c => c == 'e' || c == 'E'
  return mark :: (← sign) ++ (← digits Char.isDigit)

/-- The digits after the point, with the point. -/
def fraction : Parser (List Char) := do
  char '.'
  return '.' :: (← digits Char.isDigit)

/-- What makes a decimal a float: an exponent, or a fraction and perhaps an exponent. -/
def floatRest : Parser (List Char) :=
  exponent <|> do return (← fraction) ++ (← exponent <|> pure [])

/-- A float in digits. -/
def decimalFloat : Parser Float := do
  let text := (← sign) ++ (← wholeDigits) ++ (← floatRest)
  match Decimal.read text with
  | some x => if x == 1.0 / 0.0 then failure else return x
  | none => failure

/-- Infinity, or no number, as a word. -/
def wordFloat : Parser Float := do
  let negative := (← sign) == ['-']
  let x ← (word ['i', 'n', 'f'] *> pure (1.0 / 0.0)) <|> (word ['n', 'a', 'n'] *> pure (0.0 / 0.0))
  return if negative then -x else x

/-- A float. -/
def float : Parser Float := decimalFloat <|> wordFloat

/-- An integer, when it has 64 bits. -/
def checked (n : Int) : Parser Int :=
  if -9223372036854775808 ≤ n ∧ n ≤ 9223372036854775807 then return n else failure

/-- An integer after a prefix that tells its base. -/
def basedInteger (mark : Char) (base : Nat) (isDigit : Char → Bool) : Parser Int := do
  word ['0', mark]
  checked (numberOf base (← digits isDigit))

/-- A decimal integer. -/
def decimalInteger : Parser Int := do
  let negative := (← sign) == ['-']
  let n := numberOf 10 (← wholeDigits)
  checked (if negative then -(n : Int) else n)

/-- An integer. -/
def integer : Parser Int :=
  basedInteger 'x' 16 isHexDigit <|>
  basedInteger 'o' 8 (fun c => '0' ≤ c && c ≤ '7') <|>
  basedInteger 'b' 2 (fun c => c == '0' || c == '1') <|>
  decimalInteger

end Parser

end Toml

end Conformance
