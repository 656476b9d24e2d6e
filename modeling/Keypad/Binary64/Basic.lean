/-!
# Binary floating-point numbers of 64 bits

A number is not-a-number, an infinity, or a finite value with a sign and a magnitude.  The
magnitude is the rank of the absolute value among all finite absolute values, which is also
its 63-bit encoding: rank `0` is zero and each next rank is the next larger value.  All
not-a-number patterns are one value, and every other value has exactly one representation,
so equality of values is equality of encodings.

A rank is read as an exact natural number of *units* of `2 ^ -1074`, the smallest positive
value.  Everything that the other modules say about finite numbers is said about units.
-/

namespace Keypad

namespace Binary64

/-- How many ranks a binade has: `2 ^ 52`. -/
def binade : Nat := 0x10000000000000

/-- How many finite magnitudes there are: those of 2047 binades. -/
def finiteCount : Nat := 2047 * binade

/-- The bit of an encoding that holds the sign: `2 ^ 63`. -/
def signBit : Nat := 0x8000000000000000

/-- The exponent of two in one: a value of one is `2 ^ unitExponent` units. -/
def unitExponent : Nat := 1074

/-- The encoding that stands for all not-a-number patterns: the first quiet one. -/
def quietNan : Nat := 0x7FF8000000000000

/-- The number of units of `2 ^ -1074` in the magnitude of a given rank.

The first binade is evenly spaced by one unit; in each later one the spacing doubles. -/
def units (rank : Nat) : Nat :=
  if rank < binade then rank
  else (binade + rank % binade) <<< (rank / binade - 1)

end Binary64

/-- A 64-bit binary floating-point number, with all not-a-number patterns identified. -/
inductive Binary64 where
  | nan
  | infinity (negative : Bool)
  /-- A finite value, given by its sign and the rank of its magnitude. -/
  | finite (negative : Bool) (magnitude : Fin Binary64.finiteCount)
  deriving DecidableEq

namespace Binary64

/-- The value of a sign and a rank; a rank past the last finite one is an infinity. -/
def ofRank (negative : Bool) (rank : Nat) : Binary64 :=
  if h : rank < finiteCount then .finite negative ⟨rank, h⟩ else .infinity negative

def zero (negative : Bool) : Binary64 := ofRank negative 0

/-- Whether a number is one of the two zeros. -/
def isZero : Binary64 → Bool
  | .finite _ magnitude => magnitude.val == 0
  | _ => false

def isFinite : Binary64 → Bool
  | .finite _ _ => true
  | _ => false

/-- The interchange encoding: the sign bit and the rank below it.

Infinities continue the ranks, and not-a-number is written as `quietNan`. -/
def toBits : Binary64 → Nat
  | .nan => quietNan
  | .infinity negative => (if negative then signBit else 0) + finiteCount
  | .finite negative magnitude => (if negative then signBit else 0) + magnitude.val

/-- The number of an interchange encoding, of which the low 64 bits count. -/
def ofBits (bits : Nat) : Binary64 :=
  let negative := bits / signBit % 2 == 1
  let rank := bits % signBit
  if finiteCount < rank then .nan else ofRank negative rank

@[simp]
theorem ofRank_of_lt {rank : Nat} (negative : Bool) (h : rank < finiteCount) :
    ofRank negative rank = .finite negative ⟨rank, h⟩ := by
  simp [ofRank, h]

@[simp]
theorem ofRank_of_le {rank : Nat} (negative : Bool) (h : finiteCount ≤ rank) :
    ofRank negative rank = .infinity negative := by
  simp [ofRank, Nat.not_lt.2 h]

/-- An encoding with a rank up to the infinities holds the number of that sign and rank. -/
theorem ofBits_add_rank (negative : Bool) {rank : Nat} (h : rank ≤ finiteCount) :
    ofBits ((if negative then signBit else 0) + rank) = ofRank negative rank := by
  have hcount : finiteCount < signBit := by decide
  have hlt : rank < signBit := Nat.lt_of_le_of_lt h hcount
  rw [ofBits]
  cases negative with
  | false =>
    rw [if_neg Bool.false_ne_true, Nat.zero_add, Nat.mod_eq_of_lt hlt,
      Nat.div_eq_of_lt hlt, if_neg (Nat.not_lt.2 h)]
    rfl
  | true =>
    rw [if_pos rfl, Nat.add_mod_left, Nat.mod_eq_of_lt hlt,
      Nat.add_div_left _ (by decide : 0 < signBit), Nat.div_eq_of_lt hlt, if_neg (Nat.not_lt.2 h)]
    rfl

theorem ofBits_toBits (x : Binary64) : ofBits x.toBits = x := by
  cases x with
  | nan => decide +kernel
  | infinity negative =>
    rw [toBits, ofBits_add_rank negative (Nat.le_refl _)]
    exact ofRank_of_le negative (Nat.le_refl _)
  | finite negative magnitude =>
    rw [toBits, ofBits_add_rank negative (Nat.le_of_lt magnitude.isLt)]
    exact ofRank_of_lt negative magnitude.isLt

end Binary64

end Keypad
