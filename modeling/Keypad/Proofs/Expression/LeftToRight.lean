import Keypad.Proofs.Expression.NotANumber
import Keypad.Proofs.Expression.Precedence
import Keypad.Proofs.Expression.RunningTotal
import Mathlib.Data.List.Induction

/-!
# When precedence does not matter

While the ranks of the operators never decrease, each operator is applied to the value so far, so
evaluation is the left fold whatever the operands are.  Once a tight operator stands right behind a
loose one, there are operands that tell the two apart: the operand between them is zero and the one
behind them makes it not-a-number.  The left fold never sees that zero alone and ends with an
infinity.
-/

namespace Keypad

/-! ## Ranks that decrease -/

theorem ranksAscend_cons_eq_false {ops : List Operator} (hdescend : ranksAscend ops = false)
    (first : Operator) : ranksAscend (first :: ops) = false := by
  cases ops with
  | nil => cases hdescend
  | cons second ops => rw [ranksAscend, hdescend, Bool.and_false]

/-- Ranks ascend unless they decrease from one operator to the next. -/
theorem ranksAscend_eq_false_iff {ops : List Operator} :
    ranksAscend ops = false ↔
      ∃ before left right later, ops = before ++ left :: right :: later ∧
        right.rank < left.rank := by
  constructor
  · exact exists_rank_lt_of_not_ranksAscend
  · rintro ⟨before, left, right, later, rfl, hrank⟩
    induction before with
    | nil =>
        rw [List.nil_append, ranksAscend, decide_eq_false (Nat.not_le.mpr hrank),
          Bool.false_and]
    | cons first before ih => exact ranksAscend_cons_eq_false ih first

/-- Ranks that ascend do so without the last operator. -/
theorem ranksAscend_of_concat {ops : List Operator} {last : Operator}
    (hascend : ranksAscend (ops ++ [last]) = true) : ranksAscend ops = true := by
  by_contra hdescend
  obtain ⟨before, left, right, later, rfl, hrank⟩ :=
    ranksAscend_eq_false_iff.mp (eq_false_of_ne_true hdescend)
  have hlonger : ranksAscend (before ++ left :: right :: later ++ [last]) = false :=
    ranksAscend_eq_false_iff.mpr
      ⟨before, left, right, later ++ [last], by simp, hrank⟩
  exact Bool.false_ne_true (hlonger.symm.trans hascend)

namespace Chain

/-- The operators of a chain, from left to right. -/
def operators (c : Chain) : List Operator := c.links.map Prod.fst

theorem linkTokens_append (links later : List (Operator × Binary64)) :
    linkTokens (links ++ later) = linkTokens links ++ linkTokens later :=
  List.flatMap_append

/-- The operators of a chain's tokens are its operators. -/
@[simp] theorem operators_tokens (c : Chain) : c.tokens.operators = c.operators := by
  obtain ⟨first, links⟩ := c
  induction links with
  | nil => rfl
  | cons link links ih => exact congrArg (link.1 :: ·) ih

/-! ## Ranks that ascend -/

theorem fold_concat (x y : Binary64) (links : List (Operator × Binary64)) (op : Operator) :
    fold ⟨x, links ++ [(op, y)]⟩ = op.apply (fold ⟨x, links⟩) y :=
  List.foldl_append

/-- With ascending ranks a chain is evaluated from left to right. -/
theorem evaluate_eq_fold_of_ranksAscend {c : Chain} (hascend : ranksAscend c.operators = true) :
    c.tokens.evaluate = c.fold := by
  obtain ⟨x, links⟩ := c
  induction links using List.reverseRecOn with
  | nil => rfl
  | append_singleton links link ih =>
      obtain ⟨op, y⟩ := link
      rw [operators, List.map_append] at hascend
      have hbefore := ih (ranksAscend_of_concat hascend)
      have htotal : (tokens ⟨x, links⟩ ++ [Token.operator op]).hasRunningTotal = true := by
        rw [Expression.hasRunningTotal, Expression.operators_append, operators_tokens]
        exact hascend
      have htokens : tokens ⟨x, links ++ [(op, y)]⟩ =
          tokens ⟨x, links⟩ ++ [Token.operator op] ++ [Token.operand y] := by
        simp [tokens, linkTokens_append]
      calc (tokens ⟨x, links ++ [(op, y)]⟩).evaluate
          = Expression.evaluate [.operand (tokens ⟨x, links⟩).evaluate, .operator op,
              .operand y] := by
            rw [htokens]
            exact Expression.evaluate_append_of_hasRunningTotal
              (alternates_tokens_concat _ op) htotal _
        _ = op.apply (tokens ⟨x, links⟩).evaluate y := rfl
        _ = fold ⟨x, links ++ [(op, y)]⟩ := by rw [hbefore, fold_concat]

/-! ## Operands that show a decrease -/

/-- Behind a loose operator a tight one is applied before anything else. -/
theorem value_tight_behind_loose {left right : Operator} (hloose : left.tight = false)
    (htight : right.tight = true) (x y z : Binary64)
    (before later : List (Operator × Binary64)) :
    value ⟨x, before ++ (left, y) :: (right, z) :: later⟩ =
      value ⟨x, before ++ (left, right.apply y z) :: later⟩ := by
  have hsums : ∀ sum ∈ [left], sum.tight = false := by simpa using hloose
  have happend : ∀ more, Stacks.finish ⟨[x], []⟩ (before ++ more) =
      Stacks.finish (Stacks.pushAll ⟨[x], []⟩ (linkTokens before)) more := by
    intro more
    rw [Stacks.finish, linkTokens_append, Stacks.pushAll_append]
    rfl
  rw [← Stacks.finish_first, ← Stacks.finish_first, happend, happend,
    Stacks.finish_cons_of_not_tight hloose, Stacks.finish_cons_of_tight htight y z hsums,
    Stacks.finish_cons_of_not_tight hloose]

end Chain

def Binary64.one : Binary64 := .ofBits 0x3FF0000000000000

namespace Operator

/-- The right operand with which an operator changes neither one nor infinity. -/
def neutral (op : Operator) : Binary64 := if op.tight then .one else .zero false

/-- The right operand with which a tight operator makes zero not-a-number. -/
def undefining : Operator → Binary64
  | divide => .zero false
  | _ => .infinity false

theorem apply_one_neutral (op : Operator) : op.apply .one op.neutral = .one := by
  cases op <;> decide +kernel

theorem apply_infinity_neutral (op : Operator) :
    op.apply (.infinity false) op.neutral = .infinity false := by
  cases op <;> decide +kernel

theorem apply_undefining {op : Operator} (htight : op.tight = true) :
    op.apply .one op.undefining = .infinity false ∧
      op.apply (.zero false) op.undefining = .nan := by
  cases op with
  | add => cases htight
  | subtract => cases htight
  | multiply => decide +kernel
  | divide => decide +kernel

end Operator

namespace Chain

def neutralLinks (ops : List Operator) : List (Operator × Binary64) :=
  ops.map fun op => (op, op.neutral)

theorem map_fst_neutralLinks (ops : List Operator) : (neutralLinks ops).map Prod.fst = ops := by
  simp [neutralLinks, Function.comp_def]

theorem fold_neutralLinks {x : Binary64} (hx : ∀ op : Operator, op.apply x op.neutral = x)
    (ops : List Operator) (links : List (Operator × Binary64)) :
    fold ⟨x, neutralLinks ops ++ links⟩ = fold ⟨x, links⟩ := by
  induction ops with
  | nil => rfl
  | cons op ops ih =>
      have hcons : neutralLinks (op :: ops) ++ links =
          (op, op.neutral) :: (neutralLinks ops ++ links) := rfl
      rw [hcons, fold_cons, hx, ih]

/-- Where a tight operator stands right behind a loose one, some operands have another value by
precedence than from left to right. -/
theorem exists_evaluate_ne_fold {left right : Operator} (hloose : left.tight = false)
    (htight : right.tight = true) (before later : List Operator) :
    ∃ c : Chain, c.operators = before ++ left :: right :: later ∧
      c.tokens.evaluate ≠ c.fold := by
  obtain ⟨hinfinite, hnan⟩ := Operator.apply_undefining htight
  have hone : left.apply .one (.zero false) = .one := by
    have hneutral := left.apply_one_neutral
    rwa [Operator.neutral, hloose, if_neg Bool.false_ne_true] at hneutral
  obtain ⟨links, hlinks⟩ : ∃ links, links = neutralLinks before ++
      (left, .zero false) :: (right, right.undefining) :: neutralLinks later := ⟨_, rfl⟩
  have hevaluate : (tokens ⟨.one, links⟩).evaluate = .nan := by
    rw [hlinks, evaluate_tokens, value_tight_behind_loose hloose htight, hnan,
      ← evaluate_tokens]
    apply Expression.evaluate_of_nan_mem
    simp [tokens, linkTokens_append]
  have hfold : fold ⟨.one, links⟩ = .infinity false := by
    calc fold ⟨.one, links⟩
        = fold ⟨.one, (left, .zero false) :: (right, right.undefining) ::
            neutralLinks later⟩ := by
          rw [hlinks]
          exact fold_neutralLinks Operator.apply_one_neutral before _
      _ = fold ⟨.infinity false, neutralLinks later ++ []⟩ := by
          rw [fold_cons, hone, fold_cons, hinfinite, List.append_nil]
      _ = .infinity false := fold_neutralLinks Operator.apply_infinity_neutral later []
  refine ⟨⟨.one, links⟩, ?_, ?_⟩
  · simp [operators, hlinks, map_fst_neutralLinks]
  · intro hequal
    rw [hevaluate, hfold] at hequal
    cases hequal

end Chain

namespace Expression

/-- An expression has a running total exactly if, whatever the operands between its operators are,
evaluation applies the operators from left to right.  And exactly if a product or quotient stands
right behind a sum or difference somewhere, there are operands for which it does not. -/
theorem hasRunningTotal_iff_evaluate_eq_fold (e : Expression) :
    (e.hasRunningTotal = true ↔
        ∀ c : Chain, c.operators = e.operators → c.tokens.evaluate = c.fold) ∧
      ((∃ before left right later, e.operators = before ++ left :: right :: later ∧
          (left = .add ∨ left = .subtract) ∧ (right = .multiply ∨ right = .divide)) ↔
        ∃ c : Chain, c.operators = e.operators ∧ c.tokens.evaluate ≠ c.fold) := by
  have hdescends : e.hasRunningTotal = false ↔ ∃ before left right later,
      e.operators = before ++ left :: right :: later ∧
        left.tight = false ∧ right.tight = true := by
    simp only [hasRunningTotal, ranksAscend_eq_false_iff, Operator.rank_lt_iff]
  have hequal : e.hasRunningTotal = true →
      ∀ c : Chain, c.operators = e.operators → c.tokens.evaluate = c.fold := by
    intro htotal c hoperators
    apply Chain.evaluate_eq_fold_of_ranksAscend
    rw [hoperators]
    exact htotal
  have hdiffer : e.hasRunningTotal = false →
      ∃ c : Chain, c.operators = e.operators ∧ c.tokens.evaluate ≠ c.fold := by
    intro htotal
    obtain ⟨before, left, right, later, hoperators, hloose, htight⟩ := hdescends.mp htotal
    rw [hoperators]
    exact Chain.exists_evaluate_ne_fold hloose htight before later
  refine ⟨⟨hequal, ?_⟩, ?_⟩
  · intro hall
    by_contra htotal
    obtain ⟨c, hoperators, hne⟩ := hdiffer (eq_false_of_ne_true htotal)
    exact hne (hall c hoperators)
  · simp only [← Operator.not_tight_iff, ← Operator.tight_iff]
    rw [← hdescends]
    refine ⟨hdiffer, ?_⟩
    rintro ⟨c, hoperators, hne⟩
    by_contra htotal
    exact hne (hequal (eq_true_of_ne_false htotal) c hoperators)

end Expression

end Keypad
