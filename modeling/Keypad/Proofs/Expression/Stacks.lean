import Keypad.Proofs.Expression.Alternation
import Mathlib.Data.List.TakeWhile

/-!
# The stacks of an evaluation

A walk over tokens in turn is a left fold that pushes one token at a time.  At an operator's turn
there is exactly one operand more than there are operators, so reducing never misses an operand
and leaves exactly one value.  An operator to which everything on the stack yields therefore
finds the value so far as the only operand.
-/

namespace Keypad

namespace Stacks

/-! ## A walk as a fold -/

/-- The stacks after a token. -/
def push (s : Stacks) : Token → Stacks
  | .operand value => s.pushOperand value
  | .operator op => s.pushOperator op

/-- The stacks after all tokens of an expression. -/
def pushAll (s : Stacks) (e : Expression) : Stacks := e.foldl push s

@[simp] theorem pushAll_nil (s : Stacks) : s.pushAll [] = s := rfl

@[simp] theorem pushAll_cons (s : Stacks) (token : Token) (rest : Expression) :
    s.pushAll (token :: rest) = (s.push token).pushAll rest := rfl

theorem pushAll_append (s : Stacks) (e f : Expression) :
    s.pushAll (e ++ f) = (s.pushAll e).pushAll f :=
  List.foldl_append

/-- A walk pushes the tokens if they all come in turn, and fails otherwise. -/
theorem walk?_eq (turn : Turn) (s : Stacks) (e : Expression) :
    walk? turn s e = if e.inTurn turn then some (s.pushAll e) else none := by
  induction e generalizing turn s with
  | nil => rfl
  | cons token rest ih =>
      cases turn <;> cases token <;>
        simp [walk?, Expression.inTurn, Token.fits, Turn.next, push, ih]

/-! ## The depth of the stacks -/

/-- The number of operands that belong to the operators on the stack at each turn. -/
def Balanced (turn : Turn) (s : Stacks) : Prop :=
  s.operands.length = s.operators.length + if turn = .operator then 1 else 0

theorem length_reduce (operands : List Binary64) (op : Operator) :
    (reduce operands op).length = operands.length - 2 + 1 := by
  match operands with
  | [] => rfl
  | [_] => rfl
  | _ :: _ :: _ => simp [reduce, popOperand]

theorem length_foldl_reduce {ops : List Operator} {operands : List Binary64}
    (hlength : ops.length < operands.length) :
    (ops.foldl reduce operands).length = operands.length - ops.length := by
  induction ops generalizing operands with
  | nil => rfl
  | cons op ops ih =>
      have hreduce := length_reduce operands op
      simp only [List.length_cons] at hlength ⊢
      rw [List.foldl_cons, ih (by omega)]
      omega

theorem length_foldl_reduce_le_one {ops : List Operator} {operands : List Binary64}
    (hlength : operands.length ≤ ops.length + 1) : (ops.foldl reduce operands).length ≤ 1 := by
  induction ops generalizing operands with
  | nil => exact hlength
  | cons op ops ih =>
      have hreduce := length_reduce operands op
      simp only [List.length_cons] at hlength
      apply ih
      omega

theorem length_yielding_add_staying (s : Stacks) (op : Operator) :
    (s.yielding op).length + (s.staying op).length = s.operators.length := by
  rw [← List.length_append, yielding, staying, List.takeWhile_append_dropWhile]

theorem balanced_push {turn : Turn} {s : Stacks} {token : Token}
    (hbalanced : s.Balanced turn) (hfits : token.fits turn = true) :
    (s.push token).Balanced turn.next := by
  cases turn with
  | operand =>
      cases token with
      | operand value => simpa [Balanced, push, pushOperand, Turn.next] using hbalanced
      | operator op => simp [Token.fits] at hfits
  | operator =>
      cases token with
      | operand value => simp [Token.fits] at hfits
      | operator op =>
          have hsplit := s.length_yielding_add_staying op
          simp only [Balanced, if_true] at hbalanced
          simp only [Balanced, push, pushOperator, Turn.next, List.length_cons]
          rw [length_foldl_reduce (by omega)]
          simp only [reduceCtorEq, if_false]
          omega

/-- Tokens in turn keep the stacks balanced. -/
theorem balanced_pushAll {turn : Turn} {s : Stacks} {e : Expression}
    (hbalanced : s.Balanced turn) (hturn : e.inTurn turn = true) :
    (s.pushAll e).Balanced (turn.after e) := by
  induction e generalizing turn s with
  | nil => exact hbalanced
  | cons token rest ih =>
      simp only [Expression.inTurn, Bool.and_eq_true] at hturn
      exact ih (balanced_push hbalanced hturn.1) hturn.2

theorem length_drain_le_one {turn : Turn} {s : Stacks} (hbalanced : s.Balanced turn) :
    s.drain.length ≤ 1 := by
  apply length_foldl_reduce_le_one
  rw [Balanced] at hbalanced
  split at hbalanced <;> omega

/-- What is left is the result alone, if anything is. -/
theorem drain_eq_result_of_ne_nil {turn : Turn} {s : Stacks} (hbalanced : s.Balanced turn)
    (hne : s.drain ≠ []) : s.drain = [s.result] := by
  have hlength : s.drain.length = 1 :=
    Nat.le_antisymm (length_drain_le_one hbalanced) (List.length_pos_iff.mpr hne)
  obtain ⟨value, hvalue⟩ := List.length_eq_one_iff.mp hlength
  rw [result, hvalue, popOperand]

/-- What is left at an operator's turn is exactly the result. -/
theorem drain_eq_result {s : Stacks} (hbalanced : s.Balanced .operator) :
    s.drain = [s.result] := by
  apply drain_eq_result_of_ne_nil hbalanced
  simp only [Balanced, if_true] at hbalanced
  apply List.ne_nil_of_length_pos
  rw [drain, length_foldl_reduce (by omega)]
  omega

/-! ## The operators on the stack -/

theorem mem_operators_push {s : Stacks} {token : Token} {op : Operator}
    (hmem : op ∈ (s.push token).operators) :
    op ∈ s.operators ∨ token.operator? = some op := by
  cases token with
  | operand value => exact Or.inl hmem
  | operator incoming =>
      rcases List.mem_cons.mp hmem with rfl | hstaying
      · exact Or.inr rfl
      · exact Or.inl ((List.dropWhile_sublist _).subset hstaying)

theorem mem_operators_pushAll {s : Stacks} {e : Expression} {op : Operator}
    (hmem : op ∈ (s.pushAll e).operators) :
    op ∈ s.operators ∨ op ∈ e.operators := by
  induction e generalizing s with
  | nil => exact Or.inl hmem
  | cons token rest ih =>
      rcases ih hmem with hpushed | hrest
      · rcases mem_operators_push hpushed with hold | hnew
        · exact Or.inl hold
        · exact Or.inr (List.mem_filterMap.mpr ⟨token, List.mem_cons_self, hnew⟩)
      · right
        obtain ⟨later, hlater, hop⟩ := List.mem_filterMap.mp hrest
        exact List.mem_filterMap.mpr ⟨later, List.mem_cons_of_mem _ hlater, hop⟩

/-- An operator that comes last is on the stack. -/
theorem operators_pushAll_concat_ne_nil (s : Stacks) (e : Expression) (op : Operator) :
    (s.pushAll (e ++ [.operator op])).operators ≠ [] := by
  rw [pushAll_append]
  exact List.cons_ne_nil _ _

/-- Where everything on the stack yields to an operator, nothing stays. -/
theorem yielding_of_rank_le {s : Stacks} {op : Operator}
    (hyield : ∀ top ∈ s.operators, top.rank ≤ op.rank) :
    s.yielding op = s.operators ∧ s.staying op = [] := by
  have hall : ∀ top ∈ s.operators, decide (top.rank ≤ op.rank) = true :=
    fun top htop => decide_eq_true (hyield top htop)
  exact ⟨List.takeWhile_eq_self_iff.mpr hall, List.dropWhile_eq_nil_iff.mpr hall⟩

/-- An operator to which everything on the stack yields finds the stacks drained. -/
theorem pushOperator_of_yielding {s : Stacks} {op : Operator}
    (hyield : ∀ top ∈ s.operators, top.rank ≤ op.rank) :
    s.pushOperator op = ⟨s.drain, [op]⟩ := by
  obtain ⟨hyielding, hstaying⟩ := yielding_of_rank_le hyield
  rw [pushOperator, hyielding, hstaying, drain]

end Stacks

namespace Expression

theorem walk?_of_alternates {e : Expression} (halternates : e.alternates = true) :
    Stacks.walk? .operand {} e = some (Stacks.pushAll {} e) := by
  rw [Stacks.walk?_eq, ← alternates, if_pos halternates]

theorem balanced_of_alternates {e : Expression} (halternates : e.alternates = true) :
    (Stacks.pushAll {} e).Balanced (Turn.after .operand e) :=
  Stacks.balanced_pushAll rfl halternates

theorem evaluate_of_alternates {e : Expression} (halternates : e.alternates = true) :
    e.evaluate = (Stacks.pushAll {} e).result := by
  rw [evaluate, walk?_of_alternates halternates]

theorem evaluate_of_not_alternates {e : Expression} (halternates : e.alternates = false) :
    e.evaluate = .nan := by
  have hwalk : Stacks.walk? .operand {} e = none := by
    rw [Stacks.walk?_eq, ← alternates, halternates, if_neg Bool.false_ne_true]
  rw [evaluate, hwalk]

end Expression

end Keypad
