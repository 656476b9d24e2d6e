import Keypad.Binary64.Rounding

/-!
# Arithmetic

Each operation rounds the exact result once.  What has no result is not-a-number: a sum of
opposite infinities, a product of zero and an infinity, a quotient of two zeros or of two
infinities.  A quotient by zero is an infinity.
-/

namespace Keypad.Binary64

/-- A finite value as a signed number of units. -/
def signedUnits (negative : Bool) (rank : Nat) : Int :=
  if negative then -(units rank : Int) else units rank

def neg : Binary64 → Binary64
  | .nan => .nan
  | .infinity negative => .infinity !negative
  | .finite negative magnitude => .finite (!negative) magnitude

/-- The sum.  An exact sum of zero is positive, unless both summands are negative zeros. -/
def add : Binary64 → Binary64 → Binary64
  | .nan, _ => .nan
  | _, .nan => .nan
  | .infinity s, .infinity t => if s = t then .infinity s else .nan
  | .infinity s, .finite _ _ => .infinity s
  | .finite _ _, .infinity t => .infinity t
  | .finite s x, .finite t y =>
    let sum := signedUnits s x + signedUnits t y
    if sum = 0 then zero (s && t) else round (decide (sum < 0)) sum.natAbs 1

def sub (x y : Binary64) : Binary64 := x.add y.neg

def mul : Binary64 → Binary64 → Binary64
  | .nan, _ => .nan
  | _, .nan => .nan
  | .infinity s, .infinity t => .infinity (s != t)
  | .infinity s, .finite t y => if y.val = 0 then .nan else .infinity (s != t)
  | .finite s x, .infinity t => if x.val = 0 then .nan else .infinity (s != t)
  | .finite s x, .finite t y => round (s != t) (units x * units y) (1 <<< unitExponent)

def div : Binary64 → Binary64 → Binary64
  | .nan, _ => .nan
  | _, .nan => .nan
  | .infinity _, .infinity _ => .nan
  | .infinity s, .finite t _ => .infinity (s != t)
  | .finite s _, .infinity t => zero (s != t)
  | .finite s x, .finite t y =>
    if y.val = 0 then
      if x.val = 0 then .nan else .infinity (s != t)
    else
      round (s != t) (units x <<< unitExponent) (units y)

instance : Neg Binary64 := ⟨neg⟩
instance : Add Binary64 := ⟨add⟩
instance : Sub Binary64 := ⟨sub⟩
instance : Mul Binary64 := ⟨mul⟩
instance : Div Binary64 := ⟨div⟩

end Keypad.Binary64
