import Keypad.Operator
import Keypad.Proofs.Binary64.Rounding

/-!
# Numbers without a minus sign

Typed operands carry no minus sign, and neither do their products and quotients.  Joined to a
result on the left, such an operand cannot tell apart what the text of the result does not: the
two zeros, and positive infinity from not-a-number.
-/

namespace Keypad

namespace Binary64

/-- Whether a number carries no minus sign; not-a-number carries none. -/
def unsigned : Binary64 → Bool
  | .nan => true
  | .infinity negative => !negative
  | .finite negative _ => !negative

/-- What remains of a result when it is used further: positive infinity is undefined, and a zero
has no sign. -/
def settle : Binary64 → Binary64
  | .infinity false => .nan
  | .finite negative magnitude =>
    if magnitude.val = 0 then zero false else .finite negative magnitude
  | x => x

theorem zero_eq (negative : Bool) : zero negative = .finite negative ⟨0, by decide⟩ := rfl

@[simp] theorem unsigned_nan : unsigned .nan = true := rfl

@[simp] theorem unsigned_infinity (negative : Bool) :
    unsigned (.infinity negative) = !negative := rfl

@[simp] theorem unsigned_finite (negative : Bool) (magnitude : Fin finiteCount) :
    unsigned (.finite negative magnitude) = !negative := rfl

theorem unsigned_ofRank (rank : Nat) : (ofRank false rank).unsigned = true := by
  rw [ofRank]
  split <;> rfl

@[simp] theorem unsigned_round (numerator denominator : Nat) :
    (round false numerator denominator).unsigned = true :=
  unsigned_ofRank _

/-! ## Products and quotients -/

theorem add_eq (x y : Binary64) : x + y = add x y := rfl

theorem sub_eq (x y : Binary64) : x - y = add x (neg y) := rfl

theorem mul_eq (x y : Binary64) : x * y = mul x y := rfl

theorem div_eq (x y : Binary64) : x / y = div x y := rfl

theorem unsigned_mul {x y : Binary64} (hx : x.unsigned = true) (hy : y.unsigned = true) :
    (x * y).unsigned = true := by
  rw [mul_eq]
  cases x <;> cases y <;> simp_all [mul, apply_ite unsigned]

theorem unsigned_div {x y : Binary64} (hx : x.unsigned = true) (hy : y.unsigned = true) :
    (x / y).unsigned = true := by
  rw [div_eq]
  cases x <;> cases y <;> simp_all [div, zero_eq, apply_ite unsigned]

/-! ## A zero on the left -/

theorem round_zero (negative : Bool) (denominator : Nat) :
    round negative 0 denominator = zero negative := by
  rw [round, nearestRank_zero, zero]

theorem natAbs_signedUnits (negative : Bool) (rank : Nat) :
    (signedUnits negative rank).natAbs = units rank := by
  cases negative <;> simp [signedUnits]

theorem signedUnits_lt_zero (negative : Bool) {rank : Nat} (hunits : units rank ≠ 0) :
    decide (signedUnits negative rank < 0) = negative := by
  cases negative with
  | true =>
      simp only [signedUnits, if_true, decide_eq_true_eq]
      omega
  | false => simp [signedUnits]

theorem zero_add_finite (s t : Bool) (magnitude : Fin finiteCount) :
    add (zero s) (.finite t magnitude) =
      if units magnitude = 0 then zero (s && t) else round t (units magnitude) 1 := by
  have hzero : signedUnits s 0 = 0 := by cases s <;> rfl
  have hsum : signedUnits s 0 + signedUnits t magnitude = signedUnits t magnitude := by
    rw [hzero, Int.zero_add]
  rw [zero_eq]
  simp only [add, hsum, ← Int.natAbs_eq_zero, natAbs_signedUnits]
  split
  · rfl
  · next hunits => rw [signedUnits_lt_zero t hunits]

theorem zero_mul_finite (s t : Bool) (magnitude : Fin finiteCount) :
    mul (zero s) (.finite t magnitude) = zero (s != t) := by
  rw [zero_eq, mul]
  simp only [units_of_lt (show 0 < binade by decide), Nat.zero_mul, round_zero]

theorem zero_div_finite (s t : Bool) (magnitude : Fin finiteCount) :
    div (zero s) (.finite t magnitude) = if magnitude.val = 0 then .nan else zero (s != t) := by
  rw [zero_eq, div]
  simp only [units_of_lt (show 0 < binade by decide), Nat.zero_shiftLeft, round_zero, if_true]

/-! ## Results that are used further -/

@[simp] theorem settle_nan : settle .nan = .nan := rfl

@[simp] theorem settle_infinity_false : settle (.infinity false) = .nan := rfl

@[simp] theorem settle_zero (negative : Bool) : settle (zero negative) = zero false := by
  simp [settle, zero_eq]

/-- Settling changes nothing but positive infinity and the sign of a zero. -/
theorem settle_cases (x : Binary64) :
    x.settle = x ∨ x = .infinity false ∨ x = zero true := by
  cases x with
  | nan => exact Or.inl rfl
  | infinity negative =>
      cases negative with
      | true => exact Or.inl rfl
      | false => exact Or.inr (Or.inl rfl)
  | finite negative magnitude =>
      by_cases hzero : magnitude.val = 0
      · have hmagnitude : magnitude = ⟨0, by decide⟩ := Fin.ext hzero
        subst hmagnitude
        cases negative with
        | true => exact Or.inr (Or.inr rfl)
        | false => exact Or.inl (settle_zero false)
      · exact Or.inl (by simp [settle, hzero])

theorem settle_eq (x : Binary64) :
    x.settle = if x.isZero then zero false
      else if x = .nan ∨ x = .infinity false then .nan else x := by
  cases x with
  | nan => rfl
  | infinity negative => cases negative <;> rfl
  | finite negative magnitude =>
      by_cases hzero : magnitude.val = 0
      · simp [settle, isZero, hzero]
      · simp [settle, isZero, hzero]

end Binary64

namespace Operator

theorem unsigned_apply_of_rank_eq_zero {op : Operator} (hrank : op.rank = 0) {x y : Binary64}
    (hx : x.unsigned = true) (hy : y.unsigned = true) : (op.apply x y).unsigned = true := by
  cases op with
  | add => cases hrank
  | subtract => cases hrank
  | multiply => exact Binary64.unsigned_mul hx hy
  | divide => exact Binary64.unsigned_div hx hy

theorem settle_apply_infinity (op : Operator) {y : Binary64} (hy : y.unsigned = true) :
    (op.apply (.infinity false) y).settle = .nan := by
  cases op with
  | add =>
      rw [apply, Binary64.add_eq]
      cases y <;> simp_all [Binary64.add]
  | subtract =>
      rw [apply, Binary64.sub_eq]
      cases y <;> simp_all [Binary64.add, Binary64.neg]
  | multiply =>
      rw [apply, Binary64.mul_eq]
      cases y <;> simp_all [Binary64.mul, apply_ite Binary64.settle]
  | divide =>
      rw [apply, Binary64.div_eq]
      cases y <;> simp_all [Binary64.div]

theorem settle_apply_zero (op : Operator) {y : Binary64} (hy : y.unsigned = true) :
    (op.apply (.zero true) y).settle = (op.apply (.zero false) y).settle := by
  cases y with
  | nan => cases op <;> rfl
  | infinity negative => cases op <;> cases negative <;> rfl
  | finite negative magnitude =>
      obtain rfl : negative = false := by simpa using hy
      cases op with
      | add =>
          rw [apply, apply, Binary64.add_eq, Binary64.add_eq, Binary64.zero_add_finite,
            Binary64.zero_add_finite, Bool.and_false, Bool.and_false]
      | subtract =>
          rw [apply, apply, Binary64.sub_eq, Binary64.sub_eq, Binary64.neg,
            Binary64.zero_add_finite, Binary64.zero_add_finite]
          split <;> simp
      | multiply =>
          rw [apply, apply, Binary64.mul_eq, Binary64.mul_eq, Binary64.zero_mul_finite,
            Binary64.zero_mul_finite, Binary64.settle_zero, Binary64.settle_zero]
      | divide =>
          rw [apply, apply, Binary64.div_eq, Binary64.div_eq, Binary64.zero_div_finite,
            Binary64.zero_div_finite]
          split <;> simp

/-- Nothing that settling changes is seen after an operand without a minus sign is joined on the
right. -/
theorem settle_apply (op : Operator) (x : Binary64) {y : Binary64} (hy : y.unsigned = true) :
    (op.apply x.settle y).settle = (op.apply x y).settle := by
  rcases x.settle_cases with hsame | rfl | rfl
  · rw [hsame]
  · rw [settle_apply_infinity op hy, Binary64.settle_infinity_false]
    cases op <;> rfl
  · rw [Binary64.settle_zero, settle_apply_zero op hy]

end Operator

end Keypad
