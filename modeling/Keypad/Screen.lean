import Keypad.Entry
import Keypad.Expression.Evaluation

/-!
# What the screen shows

The screen shows the operand being typed, or else the running total of what is committed.
Where there is no running total it shows nothing new.  Text that is wider than the screen is
replaced by a marker.
-/

namespace Keypad.Screen

/-- The text shown in place of one that does not fit. -/
def errorText : String := "Error"

/-- The text as a screen of a given width shows it. -/
def fit (width : Nat) (text : String) : String :=
  if width < text.length then errorText else text

theorem fit_of_le {width : Nat} {text : String} (h : text.length ≤ width) :
    fit width text = text := by
  simp [fit, Nat.not_lt.2 h]

theorem fit_of_lt {width : Nat} {text : String} (h : width < text.length) :
    fit width text = errorText := by
  simp [fit, h]

/-- What there is to show of an entry, however wide. -/
def content? (entry : Entry) : Option String :=
  if !entry.pending.isEmpty then some entry.pending
  else if entry.expression.isEmpty then none
  else if entry.expression.hasRunningTotal then some entry.expression.runningTotal.toText
  else none

/-- The text that a screen of a given width newly shows for an entry, if any. -/
def render (width : Nat) (entry : Entry) : Option String := (content? entry).map (fit width)

end Keypad.Screen
