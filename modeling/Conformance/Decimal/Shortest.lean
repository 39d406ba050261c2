/-!
# The shortest decimal of a binary number

A binary floating-point number stands for all reals that round to it. Among the decimals with the
fewest digits that read back as the number, the shortest decimal is the nearest one; of two that
are equally near it is the greater. The coarsest grid of powers of ten on which a neighbour of
the number reads back gives it, in exact arithmetic.
-/

namespace Conformance

namespace Decimal

/-- A finite number `mantissa * 2 ^ exponent` of binary64 format. -/
structure Binary where
  mantissa : Nat
  exponent : Int
  /-- Whether the number below is half as far away as the number above. -/
  narrowBelow : Bool

/-- The finite number of some bits, without its sign. -/
def Binary.ofBits (bits : UInt64) : Binary :=
  let biased := ((bits >>> 52) &&& 0x7FF).toNat
  let fraction := (bits &&& 0xFFFFFFFFFFFFF).toNat
  if biased = 0 then ⟨fraction, -1074, false⟩
  else ⟨4503599627370496 + fraction, (biased : Int) - 1075, fraction == 0 && 1 < biased⟩

/-- The number `digits * 10 ^ exponent`. -/
structure Scaled where
  digits : Nat
  exponent : Int
  deriving DecidableEq, Repr

/-- Compares `a * 10 ^ i` with `n * 2 ^ j`. -/
def compareScaled (a : Nat) (i : Int) (n : Nat) (j : Int) : Ordering :=
  compare (a * Nat.pow 10 i.toNat * Nat.pow 2 (-j).toNat)
    (n * Nat.pow 2 j.toNat * Nat.pow 10 (-i).toNat)

/-- Whether a decimal rounds to a number. The ends of the interval do when the mantissa is
even. -/
def Binary.readsBack (x : Binary) (d : Scaled) : Bool :=
  let low := if x.narrowBelow then 4 * x.mantissa - 1 else 4 * x.mantissa - 2
  let high := 4 * x.mantissa + 2
  let closed := x.mantissa % 2 == 0
  let atLow := compareScaled d.digits d.exponent low (x.exponent - 2)
  let atHigh := compareScaled d.digits d.exponent high (x.exponent - 2)
  (atLow == .gt || (closed && atLow == .eq)) && (atHigh == .lt || (closed && atHigh == .eq))

/-- The number of decimal digits. -/
def digitCount (n : Nat) : Nat := (Nat.toDigits 10 n).length

/-- The decimal on the grid of the given exponent that reads back and is nearest, if any does. -/
def Binary.onGrid? (x : Binary) (exponent : Int) : Option Scaled :=
  let top := x.mantissa * Nat.pow 2 x.exponent.toNat * Nat.pow 10 (-exponent).toNat
  let unit := Nat.pow 2 (-x.exponent).toNat * Nat.pow 10 exponent.toNat
  let below : Scaled := ⟨top / unit, exponent⟩
  let above : Scaled := ⟨top / unit + 1, exponent⟩
  match x.readsBack below, x.readsBack above with
  | true, true => if 2 * (top % unit) < unit then some below else some above
  | true, false => some below
  | false, true => some above
  | false, false => none

/-- The first decimal found on the grids from a given exponent down. -/
def Binary.firstBelow (x : Binary) : Nat → Int → Scaled
  | 0, exponent => ⟨0, exponent⟩
  | grids + 1, exponent => (x.onGrid? exponent).getD (x.firstBelow grids (exponent - 1))

/-- The shortest decimal of a positive number. Seventeen digits always suffice, and the first
grid is at most two powers of ten above the first digit. -/
def Binary.shortest (x : Binary) : Scaled :=
  let top := digitCount (x.mantissa * Nat.pow 2 x.exponent.toNat)
  let bottom := digitCount (Nat.pow 2 (-x.exponent).toNat)
  x.firstBelow 21 ((top : Int) - bottom + 1)

/-- A decimal without exponent. A whole number has one zero after the point. -/
def Scaled.positional (d : Scaled) : List Char :=
  let digits := Nat.toDigits 10 d.digits
  match d.exponent with
  | .ofNat zeros => digits ++ List.replicate zeros '0' ++ ['.', '0']
  | .negSucc n =>
    let places := n + 1
    if places < digits.length then
      digits.take (digits.length - places) ++ '.' :: digits.drop (digits.length - places)
    else '0' :: '.' :: List.replicate (places - digits.length) '0' ++ digits

/-- A floating-point number in decimal, without exponent. -/
def ofFloat (x : Float) : List Char :=
  if x.isNaN then ['n', 'a', 'n']
  else
    let sign := if x.toBits >>> 63 == 1 then ['-'] else []
    let size := if x.isInf then ['i', 'n', 'f']
      else
        let b := Binary.ofBits x.toBits
        if b.mantissa = 0 then ['0', '.', '0'] else b.shortest.positional
    sign ++ size

end Decimal

end Conformance
