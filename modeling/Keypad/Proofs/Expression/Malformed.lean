import Keypad.Proofs.Expression.NotANumber
import Keypad.Proofs.Expression.Operations

/-!
# Which expressions have no value

An expression that is no chain is empty, or has a token of the wrong kind, or ends on an operator.
Nothing but the first two is looked for: an operator at the end is pushed like any other, and then
the reductions run out of operands.  What is missing reads as not-a-number, which no reduction takes
off the stack again.  On a chain no operand is ever missing, so not-a-number comes from an operand
or from an operation that has no result.
-/

namespace Keypad

/-! ## What can be wrong with an expression -/

namespace Turn

/-- The turn some tokens after a turn. -/
def later (turn : Turn) (tokens : Nat) : Turn := if tokens % 2 = 0 then turn else turn.next

theorem later_succ (turn : Turn) (tokens : Nat) :
    turn.later (tokens + 1) = turn.next.later tokens := by
  rcases Nat.mod_two_eq_zero_or_one tokens with heven | hodd
  · rw [later, later, if_pos heven, if_neg (by omega)]
  · rw [later, later, if_pos (by omega), if_neg (by omega)]
    cases turn <;> rfl

end Turn

/-- Whether something is wrong with an expression as a sequence of tokens. -/
inductive Malformed : Expression → Prop
  | empty : Malformed []
  /-- Operands belong at even places and operators at odd ones. -/
  | outOfTurn {e : Expression} {place : Nat} {token : Token} (htoken : e[place]? = some token)
      (hkind : token.fits (Turn.operand.later place) = false) : Malformed e
  | trailing (c : Chain) (op : Operator) : Malformed (c.tokens ++ [.operator op])

namespace Expression

/-- A walk fails if there is a place where a token is of the wrong kind. -/
theorem inTurn_eq_false_iff {turn : Turn} {e : Expression} :
    e.inTurn turn = false ↔
      ∃ (place : Nat) (token : Token),
        e[place]? = some token ∧ token.fits (turn.later place) = false := by
  induction e generalizing turn with
  | nil => simp [inTurn]
  | cons token rest ih =>
      rw [inTurn, Bool.and_eq_false_iff, ih]
      constructor
      · rintro (hfirst | ⟨place, later, hlater, hkind⟩)
        · exact ⟨0, token, rfl, hfirst⟩
        · exact ⟨place + 1, later, hlater, by rwa [Turn.later_succ]⟩
      · rintro ⟨place, later, hlater, hkind⟩
        cases place with
        | zero =>
            obtain rfl := Option.some.inj hlater
            exact Or.inl hkind
        | succ place =>
            rw [Turn.later_succ] at hkind
            exact Or.inr ⟨place, later, hlater, hkind⟩

end Expression

namespace Chain

/-- Tokens in turn behind an operand are links, and there may be an operator at the end. -/
theorem exists_links_of_inTurn : ∀ {e : Expression}, e.inTurn .operator = true →
    ∃ links, e = linkTokens links ∨ ∃ op, e = linkTokens links ++ [.operator op]
  | [], _ => ⟨[], Or.inl rfl⟩
  | [.operator op], _ => ⟨[], Or.inr ⟨op, rfl⟩⟩
  | .operator op :: .operand x :: rest, hturn => by
      obtain ⟨links, hrest⟩ := exists_links_of_inTurn (e := rest) hturn
      refine ⟨(op, x) :: links, ?_⟩
      rcases hrest with rfl | ⟨last, rfl⟩
      · exact Or.inl rfl
      · exact Or.inr ⟨last, rfl⟩

/-- An expression in turn is a chain, but for an operator that may stand at its end. -/
theorem exists_chain_of_alternates {e : Expression} (hne : e ≠ [])
    (halternates : e.alternates = true) :
    ∃ c : Chain, e = c.tokens ∨ ∃ op, e = c.tokens ++ [.operator op] := by
  obtain ⟨token, rest, rfl⟩ := List.exists_cons_of_ne_nil hne
  cases token with
  | operator op => cases halternates
  | operand x =>
      obtain ⟨links, hrest⟩ := exists_links_of_inTurn (e := rest) halternates
      refine ⟨⟨x, links⟩, ?_⟩
      rcases hrest with rfl | ⟨op, rfl⟩
      · exact Or.inl rfl
      · exact Or.inr ⟨op, rfl⟩

theorem after_tokens (c : Chain) : Turn.after .operand c.tokens = .operator :=
  after_linkTokens c.links

end Chain

/-- The malformed expressions are those that are no chain. -/
theorem malformed_iff (e : Expression) : Malformed e ↔ ¬∃ c : Chain, e = c.tokens := by
  constructor
  · rintro hmalformed ⟨c, rfl⟩
    have hturn := c.alternates_tokens
    have hafter := c.after_tokens
    generalize c.tokens = e at *
    cases hmalformed with
    | empty => cases hafter
    | outOfTurn htoken hkind =>
        have hfault := Expression.inTurn_eq_false_iff.mpr ⟨_, _, htoken, hkind⟩
        rw [← Expression.alternates, hturn] at hfault
        cases hfault
    | trailing c' op =>
        rw [Turn.after_append, c'.after_tokens] at hafter
        cases hafter
  · intro hchain
    by_cases hempty : e = []
    · rw [hempty]
      exact .empty
    cases halternates : e.alternates with
    | false =>
        obtain ⟨place, token, htoken, hkind⟩ := Expression.inTurn_eq_false_iff.mp halternates
        exact .outOfTurn htoken hkind
    | true =>
        obtain ⟨c, rfl | ⟨op, rfl⟩⟩ := Chain.exists_chain_of_alternates hempty halternates
        · exact absurd ⟨c, rfl⟩ hchain
        · exact .trailing c op

namespace Stacks

/-! ## Missing operands -/

/-- As many operators as operands, or more, do not find the operands that they need. -/
theorem nan_mem_foldl_reduce_of_length_le {operands : List Binary64} {ops : List Operator}
    (hne : ops ≠ []) (hlength : operands.length ≤ ops.length) :
    .nan ∈ ops.foldl reduce operands := by
  induction ops generalizing operands with
  | nil => exact absurd rfl hne
  | cons op ops ih =>
      rw [List.foldl_cons]
      match operands with
      | [] => exact nan_mem_foldl_reduce (by simp [reduce, popOperand, op.apply_nan_left]) ops
      | [rhs] => exact nan_mem_foldl_reduce (by simp [reduce, popOperand, op.apply_nan_left]) ops
      | rhs :: lhs :: below =>
          simp only [List.length_cons] at hlength
          apply ih (List.ne_nil_of_length_pos (by omega))
          rw [length_reduce]
          simp only [List.length_cons]
          omega

/-- An operator at the end of a chain lacks its right operand. -/
theorem result_of_trailing (c : Chain) (op : Operator) :
    (pushAll {} (c.tokens ++ [Token.operator op])).result = .nan := by
  have hbalanced := Expression.balanced_of_alternates (c.alternates_tokens_concat op)
  rw [Turn.after_append, c.after_tokens] at hbalanced
  apply result_of_nan_mem_drain hbalanced
  exact nan_mem_foldl_reduce_of_length_le (operators_pushAll_concat_ne_nil {} c.tokens op)
    (Nat.le_of_eq hbalanced)

end Stacks

/-! ## Operations without a result -/

/-- Whether an operation has no result though it has both operands, as the quotient of two zeros. -/
def Operation.IsInvalid (operation : Operation) : Prop :=
  operation.lhs ≠ .nan ∧ operation.rhs ≠ .nan ∧ operation.value = .nan

namespace Stacks

theorem nan_mem_foldl_reduce_of_mem_reductions {operands : List Binary64} {ops : List Operator}
    {operation : Operation} (hmem : operation ∈ reductions operands ops)
    (hvalue : operation.value = .nan) : .nan ∈ ops.foldl reduce operands := by
  induction ops generalizing operands with
  | nil => cases hmem
  | cons op ops ih =>
      rw [List.foldl_cons]
      rcases List.mem_cons.mp hmem with rfl | hlater
      · apply nan_mem_foldl_reduce
        rw [reduce_eq, hvalue]
        exact List.mem_cons_self
      · exact ih hlater

/-- Not-a-number that an operation gives is still there at the end. -/
theorem nan_mem_drain_of_mem_operations {s : Stacks} {e : Expression} {operation : Operation}
    (hmem : operation ∈ s.operations e) (hvalue : operation.value = .nan) :
    .nan ∈ (s.pushAll e).drain := by
  induction e generalizing s with
  | nil => exact nan_mem_foldl_reduce_of_mem_reductions hmem hvalue
  | cons token rest ih =>
      rcases List.mem_append.mp hmem with hpush | hrest
      · cases token with
        | operand value => cases hpush
        | operator op =>
            have hnan : .nan ∈ (s.push (.operator op)).operands :=
              nan_mem_foldl_reduce_of_mem_reductions hpush hvalue
            exact nan_mem_foldl_reduce (nan_mem_pushAll (Or.inl hnan)) _
      · exact ih hrest

/-- With operands enough, reducing gives not-a-number only by an operation without a result. -/
theorem nan_not_mem_foldl_reduce {operands : List Binary64} {ops : List Operator}
    (hlength : ops.length < operands.length) (hclean : .nan ∉ operands)
    (hvalid : ∀ operation ∈ reductions operands ops, ¬operation.IsInvalid) :
    .nan ∉ ops.foldl reduce operands := by
  induction ops generalizing operands with
  | nil => exact hclean
  | cons op ops ih =>
      match operands with
      | [] => cases hlength
      | [_] => exact absurd hlength (by simp)
      | rhs :: lhs :: below =>
          simp only [List.mem_cons, not_or] at hclean
          obtain ⟨hrhs, hlhs, hbelow⟩ := hclean
          have hfirst : ¬(⟨op, lhs, rhs⟩ : Operation).IsInvalid := hvalid _ List.mem_cons_self
          have hvalue : op.apply lhs rhs ≠ .nan :=
            fun hnan => hfirst ⟨Ne.symm hlhs, Ne.symm hrhs, hnan⟩
          simp only [List.length_cons] at hlength
          rw [List.foldl_cons]
          apply ih
          · rw [length_reduce]
            simp only [List.length_cons]
            omega
          · exact List.not_mem_cons_of_ne_of_not_mem (Ne.symm hvalue) hbelow
          · intro operation hmem
            exact hvalid operation (List.mem_cons_of_mem _ hmem)

/-- A walk in turn over operands that are numbers puts nothing but numbers on the stack, unless an
operation has no result. -/
theorem nan_not_mem_push {turn : Turn} {s : Stacks} {token : Token} (hbalanced : s.Balanced turn)
    (hfits : token.fits turn = true) (hclean : .nan ∉ s.operands) (htoken : token ≠ .operand .nan)
    (hvalid : ∀ operation ∈ s.pushOperations token, ¬operation.IsInvalid) :
    .nan ∉ (s.push token).operands := by
  cases token with
  | operand value =>
      have hvalue : .nan ≠ value := fun heq => htoken (heq ▸ rfl)
      exact List.not_mem_cons_of_ne_of_not_mem hvalue hclean
  | operator op =>
      cases turn with
      | operand => cases hfits
      | operator =>
          have hsplit := s.length_yielding_add_staying op
          simp only [Balanced, if_true] at hbalanced
          exact nan_not_mem_foldl_reduce (by omega) hclean hvalid

theorem result_ne_nan {turn : Turn} {s : Stacks} {e : Expression} (hbalanced : s.Balanced turn)
    (hturn : e.inTurn turn = true) (hend : turn.after e = .operator) (hclean : .nan ∉ s.operands)
    (htokens : .operand .nan ∉ e) (hvalid : ∀ operation ∈ s.operations e, ¬operation.IsInvalid) :
    (s.pushAll e).result ≠ .nan := by
  induction e generalizing turn s with
  | nil =>
      obtain rfl : turn = .operator := hend
      have hdrain := drain_eq_result hbalanced
      simp only [Balanced, if_true] at hbalanced
      have hnot := nan_not_mem_foldl_reduce (by omega) hclean hvalid
      rw [← drain, hdrain, List.mem_singleton] at hnot
      exact Ne.symm hnot
  | cons token rest ih =>
      simp only [Expression.inTurn, Bool.and_eq_true] at hturn
      rw [List.mem_cons, not_or] at htokens
      apply ih (balanced_push hbalanced hturn.1) hturn.2 hend _ htokens.2
      · intro operation hmem
        exact hvalid operation (List.mem_append_right _ hmem)
      · apply nan_not_mem_push hbalanced hturn.1 hclean (Ne.symm htokens.1)
        intro operation hmem
        exact hvalid operation (List.mem_append_left _ hmem)

end Stacks

/-! ## Expressions without a value -/

namespace Expression

theorem evaluate_of_malformed {e : Expression} (hmalformed : Malformed e) :
    e.evaluate = .nan := by
  cases hmalformed with
  | empty => rfl
  | outOfTurn htoken hkind =>
      exact evaluate_of_not_alternates (inTurn_eq_false_iff.mpr ⟨_, _, htoken, hkind⟩)
  | trailing c op =>
      rw [evaluate_of_alternates (c.alternates_tokens_concat op)]
      exact Stacks.result_of_trailing c op

theorem evaluate_of_isInvalid {e : Expression} {operation : Operation}
    (hmem : operation ∈ e.operations) (hinvalid : operation.IsInvalid) : e.evaluate = .nan := by
  by_cases halternates : e.alternates = true
  · rw [evaluate_of_alternates halternates]
    exact Stacks.result_of_nan_mem_drain (balanced_of_alternates halternates)
      (Stacks.nan_mem_drain_of_mem_operations hmem hinvalid.2.2)
  · exact evaluate_of_not_alternates (eq_false_of_ne_true halternates)

theorem evaluate_tokens_ne_nan {c : Chain} (hclean : .operand .nan ∉ c.tokens)
    (hvalid : ∀ operation ∈ c.tokens.operations, ¬operation.IsInvalid) :
    c.tokens.evaluate ≠ .nan := by
  rw [evaluate_of_alternates c.alternates_tokens]
  exact Stacks.result_ne_nan (s := {}) (by simp [Stacks.Balanced]) c.alternates_tokens
    c.after_tokens (by simp) hclean hvalid

/-- An expression evaluates to not-a-number exactly if it is malformed, has not-a-number among its
operands, or comes to an operation on two numbers that has no result.  The malformed expressions,
which are empty, have a token of the wrong kind or end on an operator, are all but the chains.  So a
value that is a number shows that the expression is a chain of numbers. -/
theorem evaluate_eq_nan_iff (e : Expression) :
    (Malformed e ↔ ¬∃ c : Chain, e = c.tokens) ∧
      (e.evaluate = .nan ↔
        Malformed e ∨ .operand .nan ∈ e ∨ ∃ operation ∈ e.operations, operation.IsInvalid) ∧
      (e.evaluate ≠ .nan → (∃ c : Chain, e = c.tokens) ∧ .operand .nan ∉ e) := by
  have hiff : e.evaluate = .nan ↔
      Malformed e ∨ .operand .nan ∈ e ∨ ∃ operation ∈ e.operations, operation.IsInvalid := by
    constructor
    · intro hnan
      by_contra hnone
      simp only [not_or, not_exists, not_and] at hnone
      obtain ⟨hformed, hclean, hvalid⟩ := hnone
      rw [malformed_iff, not_not] at hformed
      obtain ⟨c, rfl⟩ := hformed
      exact evaluate_tokens_ne_nan hclean hvalid hnan
    · rintro (hmalformed | hmem | ⟨operation, hmem, hinvalid⟩)
      · exact evaluate_of_malformed hmalformed
      · exact evaluate_of_nan_mem hmem
      · exact evaluate_of_isInvalid hmem hinvalid
  refine ⟨malformed_iff e, hiff, ?_⟩
  intro hvalue
  constructor
  · by_contra hchain
    exact hvalue (hiff.mpr (Or.inl ((malformed_iff e).mpr hchain)))
  · intro hmem
    exact hvalue (hiff.mpr (Or.inr (Or.inl hmem)))

end Expression

end Keypad
