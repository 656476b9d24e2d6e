import Keypad.Proofs.Calculator.Replies
import Keypad.Proofs.Expression.NotANumber
import Keypad.Proofs.Outcome

/-!
# Undefined until cleared

An undefined value sits in an entry in one of two places: committed, as not-a-number, or pending,
as the text of an undefined outcome with whatever was typed behind it.  Digits leave it where it
is, an operator commits it, and equals makes it pending again.  Only clear removes it, so until
then no result is a value.
-/

namespace Keypad

namespace Entry

/-- Whether an entry holds an undefined value, committed or at the start of the pending text. -/
def HoldsUndefined (entry : Entry) : Prop :=
  Token.operand .nan ∈ entry.expression ∨ undefinedText.toList <+: entry.pending.toList

theorem nan_mem_completed {entry : Entry} (hundefined : entry.HoldsUndefined) :
    Token.operand .nan ∈ entry.completed := by
  rcases hundefined with hcommitted | hpending
  · exact List.mem_append_left _ hcommitted
  · apply List.mem_append_right
    rw [Outcome.ofText_behind_undefinedText hpending]
    exact List.mem_singleton_self _

theorem outcome_of_holdsUndefined {entry : Entry} (hundefined : entry.HoldsUndefined) :
    entry.outcome = .undefined .nan := by
  rw [outcome, Expression.evaluate_of_nan_mem (nan_mem_completed hundefined)]
  rfl

theorem holdsUndefined_of_pending {entry : Entry} (hpending : entry.pending = undefinedText) :
    entry.HoldsUndefined := by
  right
  simp only [hpending, List.prefix_rfl]

/-- No key but clear takes an undefined value out of an entry. -/
theorem HoldsUndefined.after {entry : Entry} (hundefined : entry.HoldsUndefined) {key : Key}
    (hclear : key ≠ .clear) : (entry.after key).HoldsUndefined := by
  cases key with
  | digit d =>
      rcases hundefined with hcommitted | hpending
      · exact Or.inl hcommitted
      · right
        simp only [Entry.after, pending_typeDigit, String.toList_push]
        exact hpending.trans (List.prefix_append _ _)
  | operator op => exact Or.inl (List.mem_append_left _ (nan_mem_completed hundefined))
  | equals =>
      apply holdsUndefined_of_pending
      rw [Entry.after, outcome_of_holdsUndefined hundefined]
      rfl
  | clear => exact absurd rfl hclear

end Entry

namespace Calculator

theorem holdsUndefined_pressAll {calculator : Calculator}
    (hundefined : calculator.entry.HoldsUndefined) {keys : List Key}
    (hclear : Key.clear ∉ keys) : (calculator.pressAll keys).entry.HoldsUndefined := by
  apply pressAll_invariant (P := fun state => state.entry.HoldsUndefined)
  · intro state key hkey hstate
    rw [entry_after]
    apply hstate.after
    rintro rfl
    exact hclear hkey
  · exact hundefined

theorem holdsUndefined_of_finish {calculator after : Calculator} {number : Binary64}
    (hfinish : calculator.finish = .ok (.undefined number, after)) :
    after.entry.HoldsUndefined := by
  rw [finish_eq] at hfinish
  split at hfinish
  · cases hfinish
  · obtain ⟨houtcome, rfl⟩ := Prod.mk.inj (Except.ok.inj hfinish)
    apply Entry.holdsUndefined_of_pending
    rw [entry_enter, houtcome]
    rfl

/-- The reply to equals where an undefined value is held: refused by strict mode, or undefined
again. -/
theorem reply_equals_of_holdsUndefined {calculator : Calculator}
    (hundefined : calculator.entry.HoldsUndefined) :
    calculator.settings.strict = true ∧
        (calculator.reply .equals).result = .error .emptyOperand ∨
      (calculator.reply .equals).result = .ok (some (.undefined .nan)) ∧
        (calculator.reply .equals).entry.pending = undefinedText := by
  have houtcome := Entry.outcome_of_holdsUndefined hundefined
  by_cases hrefuses : calculator.refuses .equals = true
  · left
    rw [reply_of_refuses hrefuses]
    exact ⟨strict_of_refuses hrefuses, rfl⟩
  · right
    rw [reply_of_not_refuses (eq_false_of_ne_true hrefuses)]
    constructor
    · rw [answer, if_pos rfl, houtcome]
    · rw [entry_after, Entry.after, houtcome]
      rfl

/-- From any state that holds an undefined value, as every undefined outcome leaves it, each state
of a run without clear holds one, and equals, unless strict mode refuses it, answers that the
result is undefined. -/
theorem undefined_until_clear {calculator : Calculator} {keys : List Key}
    (hundefined : calculator.entry.HoldsUndefined ∨
      ∃ before number, finish before = .ok (.undefined number, calculator))
    (hclear : Key.clear ∉ keys) :
    calculator.entry.HoldsUndefined ∧
      ∀ reply ∈ calculator.replies keys,
        reply.entry.HoldsUndefined ∧
          (reply.key = .equals →
            calculator.settings.strict = true ∧ reply.result = .error .emptyOperand ∨
              reply.result = .ok (some (.undefined .nan)) ∧
                reply.entry.pending = undefinedText) := by
  have hstart : calculator.entry.HoldsUndefined := by
    rcases hundefined with hholds | ⟨before, number, hfinish⟩
    · exact hholds
    · exact holdsUndefined_of_finish hfinish
  refine ⟨hstart, ?_⟩
  intro reply hreply
  obtain ⟨before, hstarts, heq⟩ := exists_of_mem_replies hreply
  have hkeys : Key.clear ∉ before ++ [reply.key] := fun hmem => hclear (hstarts.subset hmem)
  constructor
  · rw [heq, entry_reply, ← pressAll_concat]
    exact holdsUndefined_pressAll hstart hkeys
  · intro hequals
    rw [heq, hequals, ← settings_pressAll calculator before]
    apply reply_equals_of_holdsUndefined
    exact holdsUndefined_pressAll hstart fun hmem => hkeys (List.mem_append_left _ hmem)

/-- After `1 / 0 =` in strict mode, `5 + = 2 =` has its first equals refused and its second
undefined. -/
theorem undefined_until_clear_quotient :
    let calculator := pressAll { settings := { strict := true } }
      [.digit ⟨'1', rfl⟩, .operator .divide, .digit ⟨'0', rfl⟩, .equals]
    let keys : List Key :=
      [.digit ⟨'5', rfl⟩, .operator .add, .equals, .digit ⟨'2', rfl⟩, .equals]
    (calculator.entry.HoldsUndefined ∨
        ∃ before number, finish before = .ok (.undefined number, calculator)) ∧
      Key.clear ∉ keys ∧ calculator.entry.HoldsUndefined ∧
      ∀ reply ∈ calculator.replies keys,
        reply.entry.HoldsUndefined ∧
          (reply.key = .equals →
            calculator.settings.strict = true ∧ reply.result = .error .emptyOperand ∨
              reply.result = .ok (some (.undefined .nan)) ∧
                reply.entry.pending = undefinedText) := by
  intro calculator keys
  have hpending : calculator.entry.pending = undefinedText := by decide +kernel
  have hundefined : calculator.entry.HoldsUndefined ∨
      ∃ before number, finish before = .ok (.undefined number, calculator) :=
    Or.inl (Entry.holdsUndefined_of_pending hpending)
  have hclear : Key.clear ∉ keys := by decide
  exact ⟨hundefined, hclear, undefined_until_clear hundefined hclear⟩

end Calculator

end Keypad
