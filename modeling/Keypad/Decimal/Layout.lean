import Keypad.Decimal.Basic

/-!
# Decimal digits in positional and in exponent form

The digits of a coefficient are laid out around a point, or written with the point after the
first digit and a signed power of ten.
-/

namespace Keypad.Decimal

def digits (d : Decimal) : List Char := Nat.toDigits 10 d.coefficient

/-- The exponent of the leading digit. -/
def leadingExponent (d : Decimal) : Int := d.exponent + d.digits.length - 1

def zeros (count : Nat) : List Char := List.replicate count '0'

/-- Plain positional notation: a single zero before the point when the value is below one, no
point when it is whole, and zeros up to the point. -/
def positional (d : Decimal) : List Char :=
  if 0 ≤ d.exponent then
    d.digits ++ zeros d.exponent.toNat
  else
    let fraction := (-d.exponent).toNat
    if fraction < d.digits.length then
      d.digits.take (d.digits.length - fraction) ++
        '.' :: d.digits.drop (d.digits.length - fraction)
    else
      '0' :: '.' :: (zeros (fraction - d.digits.length) ++ d.digits)

/-- Exponent notation: the first digit, the others after a point if there are any, and the
exponent of the leading digit with its sign. -/
def scientific (d : Decimal) : List Char :=
  let mantissa := match d.digits with
    | first :: second :: rest => first :: '.' :: second :: rest
    | short => short
  let sign := if 0 ≤ d.leadingExponent then '+' else '-'
  mantissa ++ 'e' :: sign :: Nat.toDigits 10 d.leadingExponent.natAbs

end Keypad.Decimal
