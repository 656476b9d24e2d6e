import Keypad.Binary64.Rounding

/-!
# Decimal numbers and the binary number nearest to one

A decimal number is a natural coefficient times a power of ten.  `Decimal.rank` is the rank of
the binary magnitude nearest to it.  The exact quotient is formed only when the value is
within reach of the finite numbers, so a huge exponent costs nothing.
-/

namespace Keypad

/-- The non-negative number `coefficient * 10 ^ exponent`. -/
structure Decimal where
  /-- The digits, read as one natural number. -/
  coefficient : Nat
  /-- The place value of the last digit, as a power of ten. -/
  exponent : Int
  deriving DecidableEq, Repr

namespace Decimal

def powerOfTen (exponent : Nat) : Nat := Nat.pow 10 exponent

/-- The numerator of the value, over `denominator`. -/
def numerator (d : Decimal) : Nat := d.coefficient * powerOfTen d.exponent.toNat

/-- The denominator of the value: a power of ten. -/
def denominator (d : Decimal) : Nat := powerOfTen (-d.exponent).toNat

/-- Whether the value is at least `10 ^ 309`, past every finite binary number. -/
def isHuge (d : Decimal) : Bool := d.coefficient != 0 && decide (309 ≤ d.exponent)

/-- Whether the value is below `10 ^ -324`, where the nearest binary number is zero.

A coefficient of `b` bits is below `10 ^ b`. -/
def isTiny (d : Decimal) : Bool :=
  d.coefficient == 0 || decide (d.exponent + (d.coefficient.log2 + 1) ≤ -324)

/-- The rank of the binary magnitude nearest to the decimal number; ties go to the even rank,
and a rank that is not finite stands for overflow. -/
def rank (d : Decimal) : Nat :=
  if d.isHuge then Binary64.finiteCount
  else if d.isTiny then 0
  else Binary64.nearestRank (d.numerator <<< Binary64.unitExponent) d.denominator

/-- The binary number of a sign nearest to the decimal number. -/
def toBinary64 (negative : Bool) (d : Decimal) : Binary64 := .ofRank negative d.rank

end Decimal

end Keypad
