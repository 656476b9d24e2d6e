import Keypad.Proofs.Calculator.Replies

/-!
# Strict mode

Strict mode decides only whether a key is refused.  What an accepted key does depends on the entry
and the width of the screen alone, so a calculator without strict mode follows a strict one
through the keys that the strict one accepts, with the same reply to each.
-/

namespace Keypad.Calculator

/-- The calculator with strict mode off. -/
def lenient (calculator : Calculator) : Calculator :=
  { calculator with settings := { calculator.settings with strict := false } }

theorem refuses_lenient (calculator : Calculator) (key : Key) :
    calculator.lenient.refuses key = false := rfl

theorem after_lenient (calculator : Calculator) (key : Key) :
    calculator.lenient.after key = (calculator.after key).lenient := by
  cases key <;> rfl

theorem reply_lenient {calculator : Calculator} {key : Key}
    (hrefuses : calculator.refuses key = false) :
    calculator.lenient.reply key = calculator.reply key := by
  rw [reply_of_not_refuses hrefuses, reply_of_not_refuses (calculator.refuses_lenient key),
    after_lenient]
  rfl

/-- The accepted keys of a run get the same replies from a calculator without strict mode. -/
theorem replies_lenient (calculator : Calculator) (keys : List Key) :
    calculator.lenient.replies (((calculator.replies keys).filter Reply.isAccepted).map Reply.key) =
      (calculator.replies keys).filter Reply.isAccepted := by
  induction keys generalizing calculator with
  | nil => rfl
  | cons key keys ih =>
      rw [replies_cons, List.filter_cons, isAccepted_reply]
      by_cases hrefuses : calculator.refuses key = true
      · -- A refused key leaves the state, so the rest of the run starts where it stood.
        rw [tryPress_of_refuses hrefuses, hrefuses]
        exact ih calculator
      · have haccepts : calculator.refuses key = false := eq_false_of_ne_true hrefuses
        have hkey : (calculator.reply key).key = key := rfl
        rw [haccepts, Bool.not_false, if_pos rfl, List.map_cons, hkey, replies_cons,
          reply_lenient haccepts, tryPress_of_not_refuses haccepts,
          tryPress_of_not_refuses (calculator.refuses_lenient key), after_lenient, ih]

/-- In every state of a run, strict mode refuses exactly the operators and equals that come with
no operand typed, and then nothing changes.  Without the refused keys the run is one without
strict mode: nothing is refused, and every reply is the same. -/
theorem strict_replies_eq_lenient_replies (width : UInt64) (keys : List Key) :
    let strict : Calculator := { settings := { strict := true, width } }
    let lenient : Calculator := { settings := { strict := false, width } }
    let kept := (strict.replies keys).filter Reply.isAccepted
    (∀ key,
      let state := strict.pressAll keys
      if key.needsOperand && state.entry.pending.isEmpty then
        state.reply key = ⟨key, .error .emptyOperand, state.entry, state.display⟩
      else (state.reply key).isAccepted = true) ∧
      lenient.replies (kept.map Reply.key) = kept ∧
      ∀ reply ∈ lenient.replies (kept.map Reply.key), reply.isAccepted = true := by
  intro strict lenient kept
  have hreplies : lenient.replies (kept.map Reply.key) = kept := strict.replies_lenient keys
  refine ⟨?_, hreplies, ?_⟩
  · intro key state
    have hstrict : state.settings.strict = true := by rw [settings_pressAll]
    rw [← refuses_of_strict hstrict]
    by_cases hrefuses : state.refuses key = true
    · rw [if_pos hrefuses]
      exact reply_of_refuses hrefuses
    · rw [if_neg hrefuses, isAccepted_reply, eq_false_of_ne_true hrefuses]
      rfl
  · intro reply hreply
    rw [hreplies] at hreply
    exact (List.mem_filter.mp hreply).2

end Keypad.Calculator
