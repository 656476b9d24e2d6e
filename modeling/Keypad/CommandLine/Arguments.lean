import Keypad.Text

/-!
# Arguments of the command line

Arguments are read from left to right.  Options have a long name, some also a letter; letters
may be joined behind one dash.  A value is attached to its option, with or without an equals
sign behind a letter, or is the next argument, which then must not look like an option.  No
option may be repeated.  At most one argument is no option: the keys.  After two dashes no
argument is an option.  A request for help or for the version ends the reading.
-/

namespace Keypad.CommandLine

/-- What the arguments choose. -/
structure Options where
  /-- The keys to press; without them keys are read from standard input. -/
  keys : Option String := none
  /-- The settings file to read in place of the default one. -/
  config : Option String := none
  /-- Refuse empty operands, whatever the settings file says. -/
  strict : Bool := false
  /-- The width of the screen, in place of the one in the settings file. -/
  width : Option UInt64 := none
  trace : Bool := false
  /-- Print the final state as JSON. -/
  json : Bool := false
  deriving DecidableEq, Repr

/-- What the arguments ask for. -/
inductive Request where
  | run (options : Options)
  | help
  | version
  /-- The arguments are not understood. -/
  | usageError
  deriving DecidableEq, Repr

inductive Switch where
  | strict
  | trace
  | json
  | help
  | version
  deriving DecidableEq, Repr

inductive Setting where
  | config
  | width
  deriving DecidableEq, Repr

/-- The state of reading the arguments. -/
inductive Reading where
  /-- The next argument is read. -/
  | next (options : Options)
  /-- The next argument is the value of an option. -/
  | value (setting : Setting) (options : Options)
  /-- The rest does not count. -/
  | stop (request : Request)
  deriving DecidableEq, Repr

def named? (name : String) : Option (Switch ⊕ Setting) :=
  if name = "config" then some (.inr .config)
  else if name = "width" then some (.inr .width)
  else if name = "strict" then some (.inl .strict)
  else if name = "trace" then some (.inl .trace)
  else if name = "json" then some (.inl .json)
  else if name = "help" then some (.inl .help)
  else if name = "version" then some (.inl .version)
  else none

def lettered? (letter : Char) : Option (Switch ⊕ Setting) :=
  if letter = 'c' then some (.inr .config)
  else if letter = 't' then some (.inl .trace)
  else if letter = 'h' then some (.inl .help)
  else if letter = 'V' then some (.inl .version)
  else none

/-- The unsigned 64-bit number of a text: digits, with or without a plus sign. -/
def unsigned? (cs : List Char) : Option UInt64 :=
  let ds := match cs with
    | '+' :: ds => ds
    | ds => ds
  if ds.isEmpty || !ds.all Char.isDigit || UInt64.size ≤ Text.digitsValue ds then none
  else some (.ofNat (Text.digitsValue ds))

namespace Options

def turnOn (options : Options) : Switch → Reading
  | .strict => if options.strict then .stop .usageError else .next { options with strict := true }
  | .trace => if options.trace then .stop .usageError else .next { options with trace := true }
  | .json => if options.json then .stop .usageError else .next { options with json := true }
  | .help => .stop .help
  | .version => .stop .version

/-- The state after an option with its value.  A path must not be empty. -/
def set (options : Options) (setting : Setting) (value : List Char) : Reading :=
  match setting with
  | .config =>
    if options.config.isSome || value.isEmpty then .stop .usageError
    else .next { options with config := some (.ofList value) }
  | .width =>
    match options.width, unsigned? value with
    | none, some width => .next { options with width := some width }
    | _, _ => .stop .usageError

def setKeys (options : Options) (keys : String) : Reading :=
  if options.keys.isSome then .stop .usageError else .next { options with keys := some keys }

/-- The state after an option by its long name, with the value attached to it, if any. -/
def readNamed (options : Options) (name : String) (attached? : Option (List Char)) : Reading :=
  match named? name, attached? with
  | some (.inl switch), none => options.turnOn switch
  | some (.inr setting), some value => options.set setting value
  | some (.inr setting), none => .value setting options
  | _, _ => .stop .usageError

/-- The state after options by their letters, the last of which may have a value attached. -/
def readLetters (options : Options) : List Char → Reading
  | [] => .next options
  | letter :: rest =>
    match lettered? letter with
    | some (.inl switch) =>
      match options.turnOn switch with
      | .next options => options.readLetters rest
      | stopped => stopped
    | some (.inr setting) =>
      match rest with
      | [] => .value setting options
      | '=' :: value => options.set setting value
      | value => options.set setting value
    | none => .stop .usageError

/-- The state after an argument in front of the two dashes. -/
def readArgument (options : Options) (argument : String) : Reading :=
  match argument.toList with
  | '-' :: '-' :: rest =>
    let name := rest.takeWhile (· != '=')
    let attached? := (rest.dropWhile (· != '=')).tail?
    options.readNamed (.ofList name) attached?
  | '-' :: letter :: rest => options.readLetters (letter :: rest)
  | _ => options.setKeys argument

/-- What the arguments behind the two dashes ask for. -/
def readPositionals (options : Options) : List String → Request
  | [] => .run options
  | argument :: rest =>
    match options.setKeys argument with
    | .next options => options.readPositionals rest
    | _ => .usageError

/-- Whether an argument cannot be the value of the option before it. -/
def looksLikeOption (argument : String) : Bool :=
  match argument.toList with
  | '-' :: _ :: _ => true
  | _ => false

/-- What the arguments ask for, given what those before them chose. -/
def read (options : Options) : List String → Request
  | [] => .run options
  | argument :: rest =>
    if argument = "--" then options.readPositionals rest
    else match options.readArgument argument with
      | .next options => options.read rest
      | .stop request => request
      | .value setting options =>
        match rest with
        | [] => .usageError
        | value :: rest =>
          if looksLikeOption value then .usageError
          else match options.set setting value.toList with
            | .next options => options.read rest
            | _ => .usageError

end Options

def Request.ofArguments (arguments : List String) : Request := ({} : Options).read arguments

end Keypad.CommandLine
