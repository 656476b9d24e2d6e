import Keypad.Proofs.Expression.Stacks

/-!
# Evaluation by precedence

The value of a chain is the sum of its terms from left to right, and the value of a term is the
product of its factors from left to right.  Both are the same left fold: of the links of a term,
and of the chain of the terms' values.  The two stacks compute exactly this value.  A tight
operator on top of the stack yields to every later operator, so it may as well be reduced at
once; with that, the walk follows the two folds step by step.
-/

namespace Keypad

namespace Operator

/-- Whether the operator joins the factors of a term. -/
def tight (op : Operator) : Bool := op.rank == 0

theorem rank_eq_zero_of_tight {op : Operator} (htight : op.tight = true) : op.rank = 0 := by
  simpa [tight] using htight

theorem rank_eq_one_of_not_tight {op : Operator} (hloose : op.tight = false) : op.rank = 1 := by
  cases op <;> first | rfl | cases hloose

theorem tight_iff {op : Operator} : op.tight = true ↔ op = .multiply ∨ op = .divide := by
  cases op <;> decide

theorem not_tight_iff {op : Operator} : op.tight = false ↔ op = .add ∨ op = .subtract := by
  cases op <;> decide

theorem rank_le_one (op : Operator) : op.rank ≤ 1 := by
  cases op <;> decide

/-- Every operator yields to a loose one. -/
theorem rank_le_of_not_tight {op : Operator} (hloose : op.tight = false) (top : Operator) :
    top.rank ≤ op.rank := by
  rw [rank_eq_one_of_not_tight hloose]
  exact top.rank_le_one

/-- Only a loose operator and a tight one differ in rank. -/
theorem rank_lt_iff {left right : Operator} :
    right.rank < left.rank ↔ left.tight = false ∧ right.tight = true := by
  cases left <;> cases right <;> decide

end Operator

namespace Chain

/-! ## The value of a chain -/

/-- The value of a chain when its operators are applied from left to right, whatever their rank. -/
def fold (c : Chain) : Binary64 :=
  c.links.foldl (fun value link => link.1.apply value link.2) c.first

/-- Links cut before each loose operator: the factors of the first term, and the further terms
with the operators before them. -/
def splitTerms : List (Operator × Binary64) →
    List (Operator × Binary64) × List (Operator × Chain)
  | [] => ([], [])
  | (op, x) :: links =>
    let (factors, terms) := splitTerms links
    if op.tight then ((op, x) :: factors, terms) else ([], (op, ⟨x, factors⟩) :: terms)

theorem splitTerms_cons_of_tight {op : Operator} (htight : op.tight = true) (x : Binary64)
    (links : List (Operator × Binary64)) :
    splitTerms ((op, x) :: links) =
      ((op, x) :: (splitTerms links).1, (splitTerms links).2) := by
  simp only [splitTerms, htight, if_true]

theorem splitTerms_cons_of_not_tight {op : Operator} (hloose : op.tight = false) (x : Binary64)
    (links : List (Operator × Binary64)) :
    splitTerms ((op, x) :: links) =
      ([], (op, ⟨x, (splitTerms links).1⟩) :: (splitTerms links).2) := by
  simp only [splitTerms, hloose, Bool.false_eq_true, if_false]

/-- The factors of the first term are links, and tight operators join them. -/
theorem mem_splitTerms_factors {links : List (Operator × Binary64)}
    {factor : Operator × Binary64} (hmem : factor ∈ (splitTerms links).1) :
    factor ∈ links ∧ factor.1.tight = true := by
  induction links with
  | nil => cases hmem
  | cons link links ih =>
      obtain ⟨op, x⟩ := link
      cases hop : op.tight with
      | false => simp [splitTerms_cons_of_not_tight hop] at hmem
      | true =>
          rw [splitTerms_cons_of_tight hop, List.mem_cons] at hmem
          rcases hmem with rfl | hfactor
          · exact ⟨List.mem_cons_self, hop⟩
          · exact ⟨List.mem_cons_of_mem _ (ih hfactor).1, (ih hfactor).2⟩

def firstTerm (c : Chain) : Chain := ⟨c.first, (splitTerms c.links).1⟩

/-- The chain of the values of a chain's terms. -/
def termValues (c : Chain) : Chain :=
  ⟨c.firstTerm.fold, (splitTerms c.links).2.map fun term => (term.1, term.2.fold)⟩

/-- The value of a chain by precedence: the sum of its terms' values from left to right. -/
def value (c : Chain) : Binary64 := c.termValues.fold

@[simp] theorem fold_nil (x : Binary64) : fold ⟨x, []⟩ = x := rfl

@[simp] theorem fold_cons (x y : Binary64) (op : Operator) (links : List (Operator × Binary64)) :
    fold ⟨x, (op, y) :: links⟩ = fold ⟨op.apply x y, links⟩ := rfl

theorem value_cons_of_tight {op : Operator} (htight : op.tight = true) (x y : Binary64)
    (links : List (Operator × Binary64)) :
    value ⟨x, (op, y) :: links⟩ = value ⟨op.apply x y, links⟩ := by
  simp only [value, termValues, firstTerm, splitTerms_cons_of_tight htight, fold_cons]

/-- Links behind a value with a loose operator after it: the value is the start of the sum of the
terms. -/
theorem value_cons_of_not_tight {op : Operator} (hloose : op.tight = false) (x y : Binary64)
    (links : List (Operator × Binary64)) :
    value ⟨x, (op, y) :: links⟩ = fold ⟨x, (op, (firstTerm ⟨y, links⟩).fold) ::
      (termValues ⟨y, links⟩).links⟩ := by
  simp only [value, termValues, firstTerm, splitTerms_cons_of_not_tight hloose, fold_nil,
    List.map_cons]

end Chain

namespace Stacks

/-! ## The walk over a chain -/

/-- The value that a walk over links ends with. -/
def finish (s : Stacks) (links : List (Operator × Binary64)) : Binary64 :=
  (s.pushAll (Chain.linkTokens links)).result

theorem finish_cons (s : Stacks) (op : Operator) (x : Binary64)
    (links : List (Operator × Binary64)) :
    s.finish ((op, x) :: links) = ((s.pushOperator op).pushOperand x).finish links := rfl

/-- A tight operator on top yields to every operator, so it may as well be reduced before. -/
theorem pushOperator_of_tight_top {top : Operator} (htight : top.tight = true)
    (operands : List Binary64) (below : List Operator) (op : Operator) :
    pushOperator ⟨operands, top :: below⟩ op = pushOperator ⟨reduce operands top, below⟩ op := by
  have hyields : decide (top.rank ≤ op.rank) = true := by
    simp [Operator.rank_eq_zero_of_tight htight]
  simp only [pushOperator, yielding, staying, List.takeWhile_cons, List.dropWhile_cons, hyields,
    if_true, List.foldl_cons]

/-- Nothing yields to a tight operator but another tight one. -/
theorem yielding_of_tight {op : Operator} (htight : op.tight = true) {sums : List Operator}
    (hsums : ∀ sum ∈ sums, sum.tight = false) (operands : List Binary64) :
    yielding ⟨operands, sums⟩ op = [] ∧ staying ⟨operands, sums⟩ op = sums := by
  cases sums with
  | nil => exact ⟨rfl, rfl⟩
  | cons sum sums =>
      have hstays : decide (sum.rank ≤ op.rank) = false := by
        simp [Operator.rank_eq_zero_of_tight htight,
          Operator.rank_eq_one_of_not_tight (hsums sum List.mem_cons_self)]
      simp [yielding, staying, hstays]

theorem pushOperator_of_tight {op : Operator} (htight : op.tight = true) {sums : List Operator}
    (hsums : ∀ sum ∈ sums, sum.tight = false) (operands : List Binary64) :
    pushOperator ⟨operands, sums⟩ op = ⟨operands, op :: sums⟩ := by
  obtain ⟨hyielding, hstaying⟩ := yielding_of_tight htight hsums operands
  rw [pushOperator, hyielding, hstaying, List.foldl_nil]

theorem finish_of_tight {top : Operator} (htight : top.tight = true)
    (operands : List Binary64) (below : List Operator) (links : List (Operator × Binary64)) :
    finish ⟨operands, top :: below⟩ links = finish ⟨reduce operands top, below⟩ links := by
  cases links with
  | nil => rfl
  | cons link links => rw [finish_cons, finish_cons, pushOperator_of_tight_top htight]

theorem finish_cons_of_tight {op : Operator} (htight : op.tight = true) (x y : Binary64)
    {below : List Binary64} {sums : List Operator}
    (hsums : ∀ sum ∈ sums, sum.tight = false) (links : List (Operator × Binary64)) :
    finish ⟨x :: below, sums⟩ ((op, y) :: links) =
      finish ⟨op.apply x y :: below, sums⟩ links := by
  rw [finish_cons, pushOperator_of_tight htight hsums, pushOperand, finish_of_tight htight]
  rfl

theorem finish_cons_of_not_tight {op : Operator} (hloose : op.tight = false) (y : Binary64)
    (s : Stacks) (links : List (Operator × Binary64)) :
    s.finish ((op, y) :: links) = finish ⟨y :: s.drain, [op]⟩ links := by
  rw [finish_cons, pushOperator_of_yielding fun top _ => Operator.rank_le_of_not_tight hloose top,
    pushOperand]

/-- With a sum begun, the walk adds the terms that follow one by one. -/
theorem finish_sum {op : Operator} (hloose : op.tight = false) (sum x : Binary64)
    (links : List (Operator × Binary64)) :
    finish ⟨[x, sum], [op]⟩ links = Chain.fold
      ⟨sum, (op, (Chain.firstTerm ⟨x, links⟩).fold) :: (Chain.termValues ⟨x, links⟩).links⟩ := by
  induction links generalizing op sum x with
  | nil => rfl
  | cons link links ih =>
      obtain ⟨next, y⟩ := link
      cases hnext : next.tight with
      | true =>
          have hsums : ∀ top ∈ [op], top.tight = false := by simpa using hloose
          rw [finish_cons_of_tight hnext x y hsums, ih hloose]
          simp only [Chain.firstTerm, Chain.termValues, Chain.splitTerms_cons_of_tight hnext,
            Chain.fold_cons]
      | false =>
          have hdrain : drain ⟨[x, sum], [op]⟩ = [op.apply sum x] := rfl
          rw [finish_cons_of_not_tight hnext, hdrain, ih hnext]
          simp only [Chain.firstTerm, Chain.termValues, Chain.splitTerms_cons_of_not_tight hnext,
            Chain.fold_cons, Chain.fold_nil, List.map_cons]

/-- The walk over a chain from its first operand ends with its value by precedence. -/
theorem finish_first (x : Binary64) (links : List (Operator × Binary64)) :
    finish ⟨[x], []⟩ links = Chain.value ⟨x, links⟩ := by
  induction links generalizing x with
  | nil => rfl
  | cons link links ih =>
      obtain ⟨op, y⟩ := link
      cases hop : op.tight with
      | true =>
          rw [finish_cons_of_tight hop x y (by simp), ih, Chain.value_cons_of_tight hop]
      | false =>
          have hdrain : drain ⟨[x], []⟩ = [x] := rfl
          rw [finish_cons_of_not_tight hop, hdrain, finish_sum hop,
            Chain.value_cons_of_not_tight hop]

end Stacks

namespace Chain

/-- Evaluating the tokens of a chain gives its value by precedence. -/
theorem evaluate_tokens (c : Chain) : c.tokens.evaluate = c.value := by
  rw [Expression.evaluate_of_alternates c.alternates_tokens]
  exact Stacks.finish_first c.first c.links

end Chain

end Keypad
