import Keypad.CommandLine.Run

/-!
# The program

The outer layer: it reads the arguments, the environment, the settings file and standard input,
and writes the report of the run.
-/

open Keypad

/-- What a path leads to in the file system. -/
def fileState (path : String) : IO FileState := do
  try
    let bytes ← IO.FS.readBinFile path
    pure (.file bytes.toList)
  catch
    | .noFileOrDirectory _ _ _ => pure .missing
    | _ => pure .directory

def main (arguments : List String) : IO UInt32 := do
  let home := (← IO.getEnv "HOME").getD ""
  let defaultPath := Settings.defaultPath home (← IO.getEnv "XDG_CONFIG_HOME")
  let options : CommandLine.Options :=
    match CommandLine.Request.ofArguments arguments with
    | .run options => options
    | _ => { keys := some "" }
  let state ← fileState (options.config.getD defaultPath)
  let stdin ←
    if options.keys.isSome then pure .empty
    else (← IO.getStdin).readBinToEnd
  let report := CommandLine.run ⟨fun _ => state, defaultPath, stdin.toList⟩ arguments
  for warning in report.warnings do
    IO.eprintln ("WARN calcpad: " ++ warning.message)
  IO.print report.stdout
  if let some error := report.error then
    IO.eprintln ("Error: " ++ error.message)
  if report.code = 2 then
    IO.eprintln "error: unexpected arguments\n\nUsage: calcpad [OPTIONS] [KEYS]"
  return report.code.toUInt32
