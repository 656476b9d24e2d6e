import Keypad.CommandLine.Arguments
import Keypad.CommandLine.Log
import Keypad.Json.Entry
import Keypad.Settings.Location
import Keypad.Text

/-!
# Runs of the program

A run resolves the settings, presses the keys that were given as an argument or line by line
on standard input, and reports what it printed.  Nothing of a line that cannot be read is
pressed, and what was printed before it stays printed.
-/

namespace Keypad.CommandLine

/-- The reasons for a run to fail. -/
inductive RunError where
  /-- The settings cannot be loaded. -/
  | load (error : LoadError)
  /-- The settings are not valid with the width that the arguments choose. -/
  | settings (error : SettingsError)
  /-- A line on standard input is no text. -/
  | notText
  /-- A text is no key sequence. -/
  | keys (error : KeypadError)
  deriving DecidableEq

def RunError.message : RunError → String
  | load error => error.message
  | settings error => error.message
  | notText => "Failed to read keys from stdin"
  | keys error => error.message

/-- What a run printed, how it ended and what it warned of. -/
structure Report where
  code : Nat
  stdout : String := ""
  error : Option RunError := none
  warnings : List Warning := []
  deriving DecidableEq

/-- What the program sees of its surroundings. -/
structure Surroundings where
  /-- What each path leads to. -/
  find : String → FileState
  /-- The default place of the settings file. -/
  defaultPath : String
  stdin : List UInt8

/-- The settings of a run: the loaded ones, unless the arguments say otherwise. -/
def Options.settings (options : Options) (find : String → FileState) (defaultPath : String) :
    Except RunError Settings :=
  match Settings.load find defaultPath options.config with
  | .error e => .error (.load e)
  | .ok loaded =>
    let settings := { loaded with strict := loaded.strict || options.strict }
    match options.width with
    | none => .ok settings
    | some width =>
      match Settings.validate { settings with width } with
      | .ok settings => .ok settings
      | .error e => .error (.settings e)

def Options.printsScreen (options : Options) : Bool := !options.trace && !options.json

/-- Presses the keys of a text, or nothing if it is no key sequence. -/
def pressText (trace : Bool) (calculator : Calculator) (text : String) :
    Except RunError (Calculator × Log) :=
  match Key.parse text with
  | .ok keys => .ok (calculator.pressAll keys, pressAllLog trace calculator keys)
  | .error e => .error (.keys e)

/-- Presses the keys of a line of bytes, or nothing if it is no text or no key sequence.  The
screen after the line is printed if it is wanted. -/
def pressLine (options : Options) (calculator : Calculator) (line : List UInt8) :
    Except RunError (Calculator × Log) :=
  match Text.decodeUtf8? line with
  | none => .error .notText
  | some text =>
    match pressText options.trace calculator text with
    | .error e => .error e
    | .ok (after, log) =>
      .ok (after, if options.printsScreen then log ++ ⟨[after.display], []⟩ else log)

/-- Presses the keys of lines, up to the first one that cannot be read. -/
def pressLines (options : Options) (calculator : Calculator) :
    List (List UInt8) → Calculator × Log × Option RunError
  | [] => (calculator, {}, none)
  | line :: rest =>
    match pressLine options calculator line with
    | .error e => (calculator, {}, some e)
    | .ok (after, log) =>
      let (last, later, error) := pressLines options after rest
      (last, log ++ later, error)

/-- What is printed at the end of a successful run: the final state if it is wanted, and the
screen if it is wanted and was not printed line by line. -/
def Options.conclude (options : Options) (calculator : Calculator) : List String :=
  if options.json then [calculator.entry.toJson]
  else if options.keys.isSome && !options.trace then [calculator.display]
  else []

/-- Presses the keys that were given, wherever they were given. -/
def pressGiven (options : Options) (stdin : List UInt8) (calculator : Calculator) :
    Calculator × Log × Option RunError :=
  match options.keys with
  | some keys =>
    match pressText options.trace calculator keys with
    | .ok (after, log) => (after, log, none)
    | .error e => (calculator, {}, some e)
  | none => pressLines options calculator (Text.byteLines stdin)

/-- The report of a run with valid settings. -/
def runCalculator (options : Options) (stdin : List UInt8) (calculator : Calculator) : Report :=
  match pressGiven options stdin calculator with
  | (after, log, none) =>
    let log := log ++ ⟨options.conclude after, []⟩
    { code := 0, stdout := log.text, warnings := log.warnings }
  | (_, log, some e) =>
    { code := 1, stdout := log.text, error := some e, warnings := log.warnings }

def runOptions (surroundings : Surroundings) (options : Options) : Report :=
  match options.settings surroundings.find surroundings.defaultPath with
  | .error e => { code := 1, error := some e }
  | .ok settings => runCalculator options surroundings.stdin { settings }

def versionText : String := "calcpad 0.1.0\n"

def helpText : String :=
  String.join [
    "A keypad calculator. Feed it key presses such as \"12+3=\" and it prints what the ",
    "calculator screen shows\n\n",
    "Usage: calcpad [OPTIONS] [KEYS]\n\n",
    "Arguments:\n",
    "  [KEYS]  Keys to press: 0-9 . + - * / = and c to clear. Reads lines from stdin when ",
    "omitted\n\n",
    "Options:\n",
    "  -c, --config <CONFIG>  Config file to use instead of the default location\n",
    "      --strict           Reject an operator or \"=\" while no operand has been typed\n",
    "      --width <WIDTH>    Screen width in characters\n",
    "  -t, --trace            Print the screen after every key press\n",
    "      --json             Print the final state as JSON instead of the screen\n",
    "  -h, --help             Print help\n",
    "  -V, --version          Print version\n"]

/-- The report of a run with the given arguments. -/
def run (surroundings : Surroundings) (arguments : List String) : Report :=
  match Request.ofArguments arguments with
  | .run options => runOptions surroundings options
  | .help => { code := 0, stdout := helpText }
  | .version => { code := 0, stdout := versionText }
  | .usageError => { code := 2 }

end Keypad.CommandLine
