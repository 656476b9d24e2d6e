import Keypad.Binary64.Basic

/-!
# Rounding to the nearest number

A non-negative rational number of units is rounded to the nearest magnitude, and half-way
cases go to the even rank.  A result at or past the first rank beyond the finite ones is an
infinity, so overflow starts half a spacing above the largest finite number.
-/

namespace Keypad.Binary64

/-- The quotient rounded to the nearest natural number; a half goes to the even neighbour. -/
def divideTiesEven (numerator denominator : Nat) : Nat :=
  let quotient := numerator / denominator
  let twice := 2 * (numerator % denominator)
  if twice < denominator then quotient
  else if denominator < twice then quotient + 1
  else quotient + quotient % 2

/-- The rank of the magnitude nearest to `numerator / denominator` units.

The binade of the quotient fixes the spacing `2 ^ shift`.  The rounded count of spacings
lies between `2 ^ 52` and `2 ^ 53` once `shift` is positive, and adding it to the rank at
which the binade starts also gives the right answer when it reaches the next binade. -/
def nearestRank (numerator denominator : Nat) : Nat :=
  let shift := (numerator / denominator).log2 - 52
  shift * binade + divideTiesEven numerator (denominator <<< shift)

/-- The number of a sign nearest to `numerator / denominator` units. -/
def round (negative : Bool) (numerator denominator : Nat) : Binary64 :=
  ofRank negative (nearestRank numerator denominator)

end Keypad.Binary64
