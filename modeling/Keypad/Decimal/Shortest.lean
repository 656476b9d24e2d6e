import Keypad.Decimal.Basic

/-!
# The shortest decimal that reads back

A binary number is written with the fewest significant digits that read back as the same
number.  The decimals with `n` significant digits near a value lie on a grid of powers of ten,
and if any of them reads back then so does one of the two grid neighbours of the value.  So it
is enough to test these two for `n = 1, 2, … 17`, in exact arithmetic.  Of two that read back
the nearer is taken; what happens when they are equally near is a parameter.
-/

namespace Keypad.Decimal

/-- Which of two equally near shortest decimals is written. -/
inductive TieBreak where
  | up
  /-- The one with an even last digit. -/
  | toEven
  deriving DecidableEq, Repr

/-- The exponent of the leading decimal digit of a positive natural number. -/
def log10 (n : Nat) : Nat :=
  if h : n < 10 then 0 else log10 (n / 10) + 1
termination_by n
decreasing_by omega

/-- The exponent of the leading decimal digit of a positive quotient: the place `e` with
`10 ^ e ≤ numerator / denominator < 10 ^ (e + 1)`. -/
def leadingPlace (numerator denominator : Nat) : Int :=
  if denominator ≤ numerator then log10 (numerator / denominator)
  else -(log10 ((denominator - 1) / numerator) + 1 : Nat)

/-- The quotient divided by `10 ^ place`, as a numerator over a denominator. -/
def scaled (numerator denominator : Nat) (place : Int) : Nat × Nat :=
  (numerator * powerOfTen (-place).toNat, denominator * powerOfTen place.toNat)

/-- Of the grid points `low` and `low + 1`, the one written for the value `numerator /
denominator` between them, when both read back. -/
def nearerPoint (tie : TieBreak) (low numerator denominator : Nat) : Nat :=
  let twice := 2 * (numerator - low * denominator)
  if twice < denominator then low
  else if denominator < twice then low + 1
  else match tie with
    | .up => low + 1
    | .toEven => low + low % 2

/-- Whether a decimal reads back as the magnitude of `rank`. -/
def readsBack (rank : Nat) (d : Decimal) : Bool := d.rank == rank

/-- The decimal on the grid of `10 ^ place` that is written for the magnitude of `rank`, if
one of the two grid neighbours of the value reads back. -/
def onGrid? (tie : TieBreak) (rank : Nat) (place : Int) : Option Decimal :=
  let (numerator, denominator) :=
    scaled (Binary64.units rank) (1 <<< Binary64.unitExponent) place
  let low := numerator / denominator
  match readsBack rank ⟨low, place⟩, readsBack rank ⟨low + 1, place⟩ with
  | true, true => some ⟨nearerPoint tie low numerator denominator, place⟩
  | true, false => some ⟨low, place⟩
  | false, true => some ⟨low + 1, place⟩
  | false, false => none

/-- The first decimal that reads back on the grids that start at `place`, each ten times finer
than the one before. -/
def firstOnGrids? (tie : TieBreak) (rank : Nat) (place : Int) : Nat → Option Decimal
  | 0 => none
  | grids + 1 =>
    match onGrid? tie rank place with
    | some d => some d
    | none => firstOnGrids? tie rank (place - 1) grids

def exact (rank : Nat) : Decimal :=
  ⟨Binary64.units rank * Nat.pow 5 Binary64.unitExponent, -Binary64.unitExponent⟩

/-- The decimal without zeros at the end of its coefficient; zero is left as it is. -/
def normalize (d : Decimal) : Decimal :=
  if h : d.coefficient ≠ 0 ∧ d.coefficient % 10 = 0 then
    normalize ⟨d.coefficient / 10, d.exponent + 1⟩
  else d
termination_by d.coefficient
decreasing_by omega

/-- The shortest decimal that reads back as the magnitude of a positive rank, without zeros at
the end.  Seventeen digits are always enough, so the exact value is never needed. -/
def shortest (tie : TieBreak) (rank : Nat) : Decimal :=
  let place := leadingPlace (Binary64.units rank) (1 <<< Binary64.unitExponent)
  normalize ((firstOnGrids? tie rank place 17).getD (exact rank))

end Keypad.Decimal
