import Keypad.Proofs.Expression.Stacks

/-!
# Not-a-number in an expression

An operation on not-a-number gives not-a-number, so no reduction ever takes it off the operand
stack.  Once a walk has pushed it, it is still there when the stack is down to one operand, which
is then the value.  Nothing depends on where it stands or on the operators around it.
-/

namespace Keypad

namespace Operator

theorem apply_nan_left (op : Operator) (y : Binary64) : op.apply .nan y = .nan := by
  cases op <;> rfl

theorem apply_nan_right (op : Operator) (x : Binary64) : op.apply x .nan = .nan := by
  cases op <;> cases x <;> rfl

end Operator

namespace Stacks

theorem nan_mem_reduce {operands : List Binary64} (hnan : .nan ∈ operands) (op : Operator) :
    .nan ∈ reduce operands op := by
  match operands with
  | [] => cases hnan
  | [rhs] =>
      have hvalue : op.apply .nan rhs = .nan := op.apply_nan_left rhs
      simp [reduce, popOperand, hvalue]
  | rhs :: lhs :: below =>
      simp only [reduce, popOperand, List.mem_cons]
      simp only [List.mem_cons] at hnan
      rcases hnan with rfl | rfl | hbelow
      · exact Or.inl (op.apply_nan_right lhs).symm
      · exact Or.inl (op.apply_nan_left rhs).symm
      · exact Or.inr hbelow

theorem nan_mem_foldl_reduce {operands : List Binary64} (hnan : .nan ∈ operands)
    (ops : List Operator) : .nan ∈ ops.foldl reduce operands := by
  induction ops generalizing operands with
  | nil => exact hnan
  | cons op ops ih => exact ih (nan_mem_reduce hnan op)

theorem nan_mem_push {s : Stacks} (hnan : .nan ∈ s.operands) (token : Token) :
    .nan ∈ (s.push token).operands := by
  cases token with
  | operand value => exact List.mem_cons_of_mem value hnan
  | operator op => exact nan_mem_foldl_reduce hnan (s.yielding op)

/-- Not-a-number that is on the operand stack or among the tokens is on the stack after them. -/
theorem nan_mem_pushAll {s : Stacks} {e : Expression}
    (hnan : .nan ∈ s.operands ∨ Token.operand .nan ∈ e) : .nan ∈ (s.pushAll e).operands := by
  induction e generalizing s with
  | nil => simpa using hnan
  | cons token rest ih =>
      rw [pushAll_cons]
      apply ih
      rcases hnan with hstack | htoken
      · exact Or.inl (nan_mem_push hstack token)
      · rcases List.mem_cons.mp htoken with rfl | hrest
        · exact Or.inl List.mem_cons_self
        · exact Or.inr hrest

/-- What is left in the end is one operand at most, so not-a-number among it is the value. -/
theorem result_of_nan_mem_drain {turn : Turn} {s : Stacks} (hbalanced : s.Balanced turn)
    (hnan : .nan ∈ s.drain) : s.result = .nan := by
  have hdrain := drain_eq_result_of_ne_nil hbalanced (List.ne_nil_of_mem hnan)
  rw [hdrain, List.mem_singleton] at hnan
  exact hnan.symm

theorem result_of_nan_mem {turn : Turn} {s : Stacks} (hbalanced : s.Balanced turn)
    (hnan : .nan ∈ s.operands) : s.result = .nan :=
  result_of_nan_mem_drain hbalanced (nan_mem_foldl_reduce hnan s.operators)

end Stacks

namespace Expression

/-- An expression with not-a-number among its operands has no other value, whether or not it is
well formed. -/
theorem evaluate_of_nan_mem {e : Expression} (hnan : Token.operand .nan ∈ e) :
    e.evaluate = .nan := by
  by_cases halternates : e.alternates = true
  · rw [evaluate_of_alternates halternates]
    exact Stacks.result_of_nan_mem (balanced_of_alternates halternates)
      (Stacks.nan_mem_pushAll (Or.inr hnan))
  · exact evaluate_of_not_alternates (eq_false_of_ne_true halternates)

end Expression

end Keypad
