import Keypad.FileTree
import Keypad.Settings.Toml
import Keypad.Text

/-!
# Where settings come from

Settings are read from a file that is named, or from the file at the default place if there is
one.  The default place is below the directory for configuration files, which is below the home
directory unless the environment names an absolute one.
-/

namespace Keypad

/-- The reasons for failing to load settings, each with the path of the file. -/
inductive LoadError where
  /-- The file cannot be read as text. -/
  | unreadable (path : String)
  /-- The text of the file holds no valid settings. -/
  | invalid (path : String) (cause : SettingsError)
  deriving DecidableEq, Repr

namespace LoadError

def message : LoadError → String
  | unreadable path => "Failed to read config file " ++ path
  | invalid path _ => "Invalid config file " ++ path

end LoadError

namespace Settings

/-- The default place of the settings file, given the home directory and the directory for
configuration files that the environment names. -/
def defaultPath (home : String) (configHome? : Option String) : String :=
  let configHome := match configHome?.filter FilePath.isAbsolute with
    | some directory => directory
    | none => FilePath.join home ".config"
  FilePath.join (FilePath.join configHome "calcpad") "config.toml"

/-- The settings in the file at a path. -/
def read (find : String → FileState) (path : String) : Except LoadError Settings :=
  match find path with
  | .file bytes =>
    match Text.decodeUtf8? bytes with
    | some text =>
      match ofToml text with
      | .ok settings => .ok settings
      | .error cause => .error (.invalid path cause)
    | none => .error (.unreadable path)
  | _ => .error (.unreadable path)

/-- The settings in the file that is named, or in the one at the default place.  Only the
default file may be missing. -/
def load (find : String → FileState) (defaultPath : String) (named? : Option String) :
    Except LoadError Settings :=
  match named? with
  | some path => read find path
  | none => if (find defaultPath).isPresent then read find defaultPath else .ok {}

end Settings

end Keypad
