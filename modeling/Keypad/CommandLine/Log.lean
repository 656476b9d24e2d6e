import Keypad.Calculator

/-!
# What pressing keys leaves behind

Pressing keys prints lines and gives warnings.  A refused key changes nothing, so the keys
after it are pressed all the same.
-/

namespace Keypad.CommandLine

/-- What is worth a warning, though it stops nothing. -/
inductive Warning where
  | refused (key : Key) (error : KeypadError)
  | undefined (number : Binary64)
  deriving DecidableEq

namespace Warning

def numberText : Binary64 → String
  | .infinity false => "inf"
  | .infinity true => "-inf"
  | x => x.toText

def message : Warning → String
  | refused key error => "key rejected key=" ++ key.char.toString ++ " err=" ++ error.message
  | undefined number =>
    "expression evaluated to an undefined value value=" ++ numberText number

/-- The warnings that pressing a key gives. -/
def ofPress (key : Key) : Except KeypadError (Option Outcome × Calculator) → List Warning
  | .ok (some (.undefined number), _) => [.undefined number]
  | .ok _ => []
  | .error error => [.refused key error]

end Warning

/-- Printed lines and warnings, each in order. -/
structure Log where
  lines : List String := []
  warnings : List Warning := []
  deriving DecidableEq

namespace Log

/-- The log of one run after another. -/
def append (log later : Log) : Log :=
  ⟨log.lines ++ later.lines, log.warnings ++ later.warnings⟩

instance : Append Log := ⟨append⟩

@[simp]
theorem lines_append (log later : Log) : (log ++ later).lines = log.lines ++ later.lines := rfl

@[simp]
theorem warnings_append (log later : Log) :
    (log ++ later).warnings = log.warnings ++ later.warnings := rfl

/-- The printed lines as one text, each ended by a line feed. -/
def text (log : Log) : String := .join (log.lines.map (· ++ "\n"))

@[simp]
theorem text_append (log later : Log) : (log ++ later).text = log.text ++ later.text := by
  simp [text]

end Log

/-- The line printed for a key when every key is traced. -/
def traceLine (key : Key) (after : Calculator) : String :=
  key.char.toString ++ "\t" ++ after.display

/-- What pressing a key leaves behind. -/
def pressLog (trace : Bool) (calculator : Calculator) (key : Key) : Log :=
  { lines := if trace then [traceLine key (calculator.tryPress key)] else []
    warnings := Warning.ofPress key (calculator.press key) }

/-- What pressing keys in turn leaves behind. -/
def pressAllLog (trace : Bool) (calculator : Calculator) : List Key → Log
  | [] => {}
  | key :: rest => pressLog trace calculator key ++ pressAllLog trace (calculator.tryPress key) rest

end Keypad.CommandLine
