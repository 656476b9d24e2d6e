import Keypad.Key
import Keypad.Settings.Basic

/-!
# The calculator

A calculator is its settings, what has been entered and what is on the screen.  Every accepted
key refreshes the screen; where the new entry has nothing to show, the previous text stays.  A
refused key changes nothing.
-/

namespace Keypad

structure Calculator where
  settings : Settings
  entry : Entry := {}
  display : String := ""
  deriving DecidableEq

namespace Calculator

/-- The calculator with a new entry, and the screen refreshed for it. -/
def enter (calculator : Calculator) (entry : Entry) : Calculator :=
  let shown := Screen.render calculator.settings.width.toNat entry
  { calculator with entry, display := shown.getD calculator.display }

@[simp]
theorem entry_enter (calculator : Calculator) (entry : Entry) :
    (calculator.enter entry).entry = entry := rfl

def typeDigit (calculator : Calculator) (digit : Digit) : Calculator :=
  calculator.enter (calculator.entry.typeDigit digit)

/-- The calculator after an operator key. -/
def commit (calculator : Calculator) (op : Operator) : Except KeypadError Calculator :=
  match calculator.entry.commit calculator.settings.strict op with
  | .ok entry => .ok (calculator.enter entry)
  | .error e => .error e

/-- The outcome of the equals key, and the calculator after it. -/
def finish (calculator : Calculator) : Except KeypadError (Outcome × Calculator) :=
  match calculator.entry.finish calculator.settings.strict with
  | .ok (outcome, entry) => .ok (outcome, calculator.enter entry)
  | .error e => .error e

def clear (calculator : Calculator) : Calculator :=
  { calculator with entry := {}, display := "" }

/-- The calculator after a key, and the outcome if the key was equals. -/
def press (calculator : Calculator) : Key → Except KeypadError (Option Outcome × Calculator)
  | .digit digit => .ok (none, calculator.typeDigit digit)
  | .operator op =>
    match calculator.commit op with
    | .ok after => .ok (none, after)
    | .error e => .error e
  | .equals =>
    match calculator.finish with
    | .ok (outcome, after) => .ok (some outcome, after)
    | .error e => .error e
  | .clear => .ok (none, calculator.clear)

/-- The calculator after a key, refused or not. -/
def tryPress (calculator : Calculator) (key : Key) : Calculator :=
  match calculator.press key with
  | .ok (_, after) => after
  | .error _ => calculator

/-- The calculator after keys in turn, going on after refused ones. -/
def pressAll (calculator : Calculator) (keys : List Key) : Calculator :=
  keys.foldl tryPress calculator

@[simp]
theorem pressAll_nil (calculator : Calculator) : calculator.pressAll [] = calculator := rfl

@[simp]
theorem pressAll_cons (calculator : Calculator) (key : Key) (rest : List Key) :
    calculator.pressAll (key :: rest) = (calculator.tryPress key).pressAll rest := rfl

theorem pressAll_append (calculator : Calculator) (keys later : List Key) :
    calculator.pressAll (keys ++ later) = (calculator.pressAll keys).pressAll later :=
  List.foldl_append

end Calculator

end Keypad
