import Keypad.CommandLine.Log
import Keypad.Proofs.Calculator.Replies

/-!
# The log of a key run

The log of a run is put together from the logs of its parts, in order.  Warnings do not depend on
whether every key is traced, and the traced lines are those of the replies to the keys: each shows
its key and the screen after it.
-/

namespace Keypad.CommandLine

namespace Log

theorem ext {log other : Log} (hlines : log.lines = other.lines)
    (hwarnings : log.warnings = other.warnings) : log = other := by
  obtain ⟨lines, warnings⟩ := log
  subst hlines hwarnings
  rfl

@[simp] theorem append_empty (log : Log) : log ++ {} = log := by
  apply ext
  · exact List.append_nil _
  · exact List.append_nil _

theorem append_assoc (log later last : Log) : log ++ later ++ last = log ++ (later ++ last) := by
  apply ext
  · exact List.append_assoc _ _ _
  · exact List.append_assoc _ _ _

end Log

theorem pressAllLog_append (trace : Bool) (calculator : Calculator) (keys later : List Key) :
    pressAllLog trace calculator (keys ++ later) =
      pressAllLog trace calculator keys ++
        pressAllLog trace (calculator.pressAll keys) later := by
  induction keys generalizing calculator with
  | nil => rfl
  | cons key keys ih =>
      rw [List.cons_append, pressAllLog, ih, pressAllLog, Calculator.pressAll_cons,
        Log.append_assoc]

/-- Tracing changes nothing of the warnings. -/
theorem warnings_pressAllLog (trace : Bool) (calculator : Calculator) (keys : List Key) :
    (pressAllLog trace calculator keys).warnings =
      (pressAllLog false calculator keys).warnings := by
  induction keys generalizing calculator with
  | nil => rfl
  | cons key keys ih =>
      rw [pressAllLog, pressAllLog, Log.warnings_append, Log.warnings_append, ih]
      rfl

@[simp] theorem lines_pressAllLog_false (calculator : Calculator) (keys : List Key) :
    (pressAllLog false calculator keys).lines = [] := by
  induction keys generalizing calculator with
  | nil => rfl
  | cons key keys ih =>
      rw [pressAllLog, Log.lines_append, ih]
      rfl

/-- The lines of a trace: each shows a key, and behind it a screen. -/
def traceLines (keys : List Key) (screens : List String) : List String :=
  List.zipWith (fun key screen => key.char.toString ++ "\t" ++ screen) keys screens

/-- The traced lines of a run show the screens that the replies to its keys report. -/
theorem lines_pressAllLog_true (calculator : Calculator) (keys : List Key) :
    (pressAllLog true calculator keys).lines =
      traceLines keys ((calculator.replies keys).map Reply.display) := by
  induction keys generalizing calculator with
  | nil => rfl
  | cons key keys ih =>
      rw [pressAllLog, Log.lines_append, ih, Calculator.replies_cons, List.map_cons]
      rfl

/-! ## Printed lines -/

/-- A text that is printed as given lines: each is ended by a line feed and holds no other. -/
def IsPrinted (stdout : String) (lines : List String) : Prop :=
  stdout = .join (lines.map (· ++ "\n")) ∧ ∀ line ∈ lines, '\n' ∉ line.toList

theorem Log.isPrinted_text {log : Log} (hlines : ∀ line ∈ log.lines, '\n' ∉ line.toList) :
    IsPrinted log.text log.lines :=
  ⟨rfl, hlines⟩

end Keypad.CommandLine

namespace Keypad.Calculator

@[simp] theorem length_replies (calculator : Calculator) (keys : List Key) :
    (calculator.replies keys).length = keys.length := by
  induction keys generalizing calculator with
  | nil => rfl
  | cons key keys ih => rw [replies_cons, List.length_cons, List.length_cons, ih]

/-- The reply to a key of a run reports the screen that the run up to that key ends with. -/
theorem display_getElem_replies (calculator : Calculator) {keys : List Key} {place : Nat}
    (hplace : place < (calculator.replies keys).length) :
    (calculator.replies keys)[place].display =
      (calculator.pressAll (keys.take (place + 1))).display := by
  induction keys generalizing calculator place with
  | nil => simp at hplace
  | cons key keys ih =>
      cases place with
      | zero => rfl
      | succ place =>
          simp only [replies_cons, List.getElem_cons_succ, List.take_succ_cons, pressAll_cons]
          exact ih _ _

end Keypad.Calculator
