import Keypad.Proofs.Calculator.Press
import Mathlib.Data.List.Induction

/-!
# What a run shows

All that a run shows to whoever presses the keys is, for each key, how the calculator answered it
and what it held and displayed afterwards.  The replies of a run are the list of this, refused
keys included.  Each reply comes from the state that the keys before it lead to, so what holds of
the state after every run holds of every reply.
-/

namespace Keypad

/-- A key of a run, how it was answered, and the entry and the screen after it. -/
structure Reply where
  key : Key
  result : Except KeypadError (Option Outcome)
  entry : Entry
  display : String

def Reply.isAccepted (reply : Reply) : Bool := reply.result.isOk

namespace Calculator

def reply (calculator : Calculator) (key : Key) : Reply where
  key := key
  result := (calculator.press key).map Prod.fst
  entry := (calculator.tryPress key).entry
  display := (calculator.tryPress key).display

/-- The replies to keys in turn, going on after refused ones. -/
def replies (calculator : Calculator) : List Key → List Reply
  | [] => []
  | key :: rest => calculator.reply key :: (calculator.tryPress key).replies rest

@[simp] theorem replies_nil (calculator : Calculator) : calculator.replies [] = [] := rfl

@[simp] theorem replies_cons (calculator : Calculator) (key : Key) (rest : List Key) :
    calculator.replies (key :: rest) =
      calculator.reply key :: (calculator.tryPress key).replies rest := rfl

theorem replies_append (calculator : Calculator) (keys later : List Key) :
    calculator.replies (keys ++ later) =
      calculator.replies keys ++ (calculator.pressAll keys).replies later := by
  induction keys generalizing calculator with
  | nil => rfl
  | cons key keys ih =>
      rw [List.cons_append, replies_cons, replies_cons, pressAll_cons, ih, List.cons_append]

theorem replies_concat (calculator : Calculator) (keys : List Key) (key : Key) :
    calculator.replies (keys ++ [key]) =
      calculator.replies keys ++ [(calculator.pressAll keys).reply key] := by
  rw [replies_append, replies_cons, replies_nil]

theorem pressAll_concat (calculator : Calculator) (keys : List Key) (key : Key) :
    calculator.pressAll (keys ++ [key]) = (calculator.pressAll keys).tryPress key := by
  rw [pressAll_append, pressAll_cons, pressAll_nil]

theorem entry_reply (calculator : Calculator) (key : Key) :
    (calculator.reply key).entry = (calculator.tryPress key).entry := rfl

theorem reply_of_refuses {calculator : Calculator} {key : Key}
    (hrefuses : calculator.refuses key = true) :
    calculator.reply key =
      ⟨key, .error .emptyOperand, calculator.entry, calculator.display⟩ := by
  rw [reply, tryPress_of_refuses hrefuses, press_eq, if_pos hrefuses]
  rfl

theorem reply_of_not_refuses {calculator : Calculator} {key : Key}
    (hrefuses : calculator.refuses key = false) :
    calculator.reply key = ⟨key, .ok (calculator.answer key), (calculator.after key).entry,
      (calculator.after key).display⟩ := by
  rw [reply, tryPress_of_not_refuses hrefuses, press_eq, hrefuses, if_neg Bool.false_ne_true]
  rfl

theorem isAccepted_reply (calculator : Calculator) (key : Key) :
    (calculator.reply key).isAccepted = !calculator.refuses key := by
  cases hrefuses : calculator.refuses key with
  | true =>
      rw [reply_of_refuses hrefuses]
      rfl
  | false =>
      rw [reply_of_not_refuses hrefuses]
      rfl

/-- Keys that are refused in one state are refused in turn, since none of them changes it. -/
theorem isAccepted_replies_of_refuses {calculator : Calculator} {keys : List Key}
    (hrefuses : ∀ key ∈ keys, calculator.refuses key = true) :
    ∀ reply ∈ calculator.replies keys, reply.isAccepted = false := by
  induction keys with
  | nil =>
      intro reply hreply
      cases hreply
  | cons key keys ih =>
      obtain ⟨hkey, hkeys⟩ := List.forall_mem_cons.mp hrefuses
      rw [replies_cons, tryPress_of_refuses hkey]
      refine List.forall_mem_cons.mpr ⟨?_, ih hkeys⟩
      rw [isAccepted_reply, hkey]
      rfl

/-- Every reply of a run is the reply to one of its keys, in the state after those before it. -/
theorem exists_of_mem_replies {calculator : Calculator} {keys : List Key} {reply : Reply}
    (hreply : reply ∈ calculator.replies keys) :
    ∃ before, before ++ [reply.key] <+: keys ∧
      reply = (calculator.pressAll before).reply reply.key := by
  induction keys using List.reverseRecOn with
  | nil => cases hreply
  | append_singleton keys key ih =>
      rw [replies_concat, List.mem_append, List.mem_singleton] at hreply
      rcases hreply with hearlier | rfl
      · obtain ⟨before, hstarts, heq⟩ := ih hearlier
        exact ⟨before, hstarts.trans (List.prefix_append keys [key]), heq⟩
      · exact ⟨keys, List.prefix_rfl, rfl⟩

end Calculator

end Keypad
