/-!
# Reading decimals

A decimal is an optional sign, digits with at most one point among or around them, and an
optional exponent. The words for infinity and for no number are read in either case. The value
is the nearest floating-point number, and infinity when the decimal is too large.
-/

namespace Conformance

namespace Decimal

/-- The number that some digits write. -/
def digitsValue (digits : List Char) : Nat :=
  digits.foldl (fun n c => 10 * n + (c.toNat - '0'.toNat)) 0

/-- The floating-point number nearest to `digits * 10 ^ exponent`. Exponents far outside the
range of the format are settled by the number of digits. -/
def nearest (digits : List Char) (exponent : Int) : Float :=
  let significant := digits.dropWhile (· == '0')
  let magnitude := (significant.length : Int) + exponent
  if significant.isEmpty || magnitude < -400 then 0.0
  else if 400 < magnitude then 1.0 / 0.0
  else Float.ofScientific (digitsValue significant) (exponent < 0) exponent.natAbs

/-- Splits a sign from what follows it. A missing sign is a plus. -/
def splitSign : List Char → Bool × List Char
  | '-' :: rest => (true, rest)
  | '+' :: rest => (false, rest)
  | rest => (false, rest)

/-- The exponent that ends a decimal. -/
def readExponent : List Char → Option Int
  | [] => some 0
  | e :: rest =>
    if e == 'e' || e == 'E' then
      let (negative, digits) := splitSign rest
      if digits.isEmpty || !digits.all Char.isDigit then none
      else some (if negative then -(digitsValue digits : Int) else digitsValue digits)
    else none

/-- The value of a decimal without sign. -/
def readUnsigned (s : List Char) : Option Float :=
  let word := s.map Char.toLower
  if word = ['i', 'n', 'f'] || word = ['i', 'n', 'f', 'i', 'n', 'i', 't', 'y'] then
    some (1.0 / 0.0)
  else if word = ['n', 'a', 'n'] then some (0.0 / 0.0)
  else
    let whole := s.takeWhile Char.isDigit
    let rest := s.dropWhile Char.isDigit
    let (fraction, rest) := match rest with
      | '.' :: rest => (rest.takeWhile Char.isDigit, rest.dropWhile Char.isDigit)
      | _ => ([], rest)
    if whole.isEmpty && fraction.isEmpty then none
    else (readExponent rest).map fun e => nearest (whole ++ fraction) (e - fraction.length)

/-- The floating-point number that a text writes. -/
def read (s : List Char) : Option Float :=
  let (negative, rest) := splitSign s
  (readUnsigned rest).map fun x => if negative then -x else x

end Decimal

end Conformance
