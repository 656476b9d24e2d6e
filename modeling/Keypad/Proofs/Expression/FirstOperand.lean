import Keypad.Proofs.Binary64.Sign
import Keypad.Proofs.Expression.Precedence

/-!
# The first operand of a chain

Whatever the operators, the first operand of a chain is only ever the left operand of an
operation.  When no later operand carries a minus sign, no later factor or term does, and the
value of the chain settles to the same number whether or not the first operand is settled first.
-/

namespace Keypad.Chain

/-- Whether no operand of links carries a minus sign. -/
def LinksUnsigned (links : List (Operator × Binary64)) : Prop :=
  ∀ link ∈ links, link.2.unsigned = true

/-! ## Factors and terms -/

theorem unsigned_fold {x : Binary64} {links : List (Operator × Binary64)}
    (hx : x.unsigned = true) (hlinks : LinksUnsigned links)
    (htight : ∀ link ∈ links, link.1.tight = true) :
    (fold ⟨x, links⟩).unsigned = true := by
  induction links generalizing x with
  | nil => exact hx
  | cons link links ih =>
      obtain ⟨op, y⟩ := link
      obtain ⟨hy, hlinks⟩ := List.forall_mem_cons.mp hlinks
      obtain ⟨hop, htight⟩ := List.forall_mem_cons.mp htight
      rw [fold_cons]
      exact ih (Operator.unsigned_apply_of_rank_eq_zero
        (Operator.rank_eq_zero_of_tight hop) hx hy) hlinks htight

theorem linksUnsigned_factors {links : List (Operator × Binary64)}
    (hlinks : LinksUnsigned links) : LinksUnsigned (splitTerms links).1 :=
  fun factor hfactor => hlinks factor (mem_splitTerms_factors hfactor).1

theorem linksUnsigned_termValues (x : Binary64) {links : List (Operator × Binary64)}
    (hlinks : LinksUnsigned links) : LinksUnsigned (termValues ⟨x, links⟩).links := by
  induction links with
  | nil => simp [LinksUnsigned, termValues, splitTerms]
  | cons link links ih =>
      obtain ⟨op, y⟩ := link
      obtain ⟨hy, hlinks⟩ := List.forall_mem_cons.mp hlinks
      have hterms := ih hlinks
      cases hop : op.tight with
      | true =>
          rw [termValues, splitTerms_cons_of_tight hop]
          exact hterms
      | false =>
          simp only [termValues, splitTerms_cons_of_not_tight hop, List.map_cons]
          refine List.forall_mem_cons.mpr ⟨?_, hterms⟩
          exact unsigned_fold hy (linksUnsigned_factors hlinks)
            fun factor hfactor => (mem_splitTerms_factors hfactor).2

/-! ## Settling the first operand -/

theorem settle_fold (x : Binary64) {links : List (Operator × Binary64)}
    (hlinks : LinksUnsigned links) :
    (fold ⟨x.settle, links⟩).settle = (fold ⟨x, links⟩).settle := by
  induction links generalizing x with
  | nil =>
      rcases x.settle_cases with hsame | rfl | rfl
      · rw [hsame]
      · rfl
      · simp
  | cons link links ih =>
      obtain ⟨op, y⟩ := link
      obtain ⟨hy, hlinks⟩ := List.forall_mem_cons.mp hlinks
      calc (fold ⟨x.settle, (op, y) :: links⟩).settle
          = (fold ⟨(op.apply x.settle y).settle, links⟩).settle := by
            rw [fold_cons, ih _ hlinks]
        _ = (fold ⟨(op.apply x y).settle, links⟩).settle := by rw [Operator.settle_apply op x hy]
        _ = (fold ⟨x, (op, y) :: links⟩).settle := by rw [fold_cons, ih _ hlinks]

/-- Settling the first operand does not change what the value of a chain settles to. -/
theorem settle_value (x : Binary64) {links : List (Operator × Binary64)}
    (hlinks : LinksUnsigned links) :
    (value ⟨x.settle, links⟩).settle = (value ⟨x, links⟩).settle := by
  have hterms := linksUnsigned_termValues x hlinks
  have hfirst := settle_fold x (linksUnsigned_factors hlinks)
  calc (value ⟨x.settle, links⟩).settle
      = (fold ⟨(fold ⟨x.settle, (splitTerms links).1⟩).settle,
          (termValues ⟨x, links⟩).links⟩).settle := (settle_fold _ hterms).symm
    _ = (fold ⟨(fold ⟨x, (splitTerms links).1⟩).settle,
          (termValues ⟨x, links⟩).links⟩).settle := by rw [hfirst]
    _ = (value ⟨x, links⟩).settle := settle_fold _ hterms

end Keypad.Chain
