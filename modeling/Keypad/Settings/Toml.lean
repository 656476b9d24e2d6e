import Keypad.Settings.Basic
import Keypad.Text

/-!
# Settings files

A settings file is a TOML document with at most the two fields of the settings, each at most
once: one line with the strict flag as a boolean and one with the width as an unsigned 64-bit
integer.  No other document fits the settings, so the reader knows just these lines, blank
lines and comments.  A field that is missing has its default.
-/

namespace Keypad

namespace Toml

/-- Whether a character is blank inside a line. -/
def isBlank (c : Char) : Bool := c == ' ' || c == '\t'

def skipBlanks (cs : List Char) : List Char := cs.dropWhile isBlank

/-- Whether a character may stand in a comment. -/
def isCommentChar (c : Char) : Bool := c == '\t' || (0x20 ≤ c.toNat && c.toNat != 0x7F)

/-- Whether a text is empty or a comment, blanks before it aside. -/
def isEmptyOrComment (cs : List Char) : Bool :=
  match skipBlanks cs with
  | [] => true
  | '#' :: comment => comment.all isCommentChar
  | _ => false

/-- Whether a character may stand in a key without quotes. -/
def isBareKeyChar (c : Char) : Bool := c.isAlphanum || c == '_' || c == '-'

/-- Puts the character of a numeric escape in front of the rest of a key. -/
def consEscaped? (hexDigits : List Char) (rest? : Option (List Char × List Char)) :
    Option (List Char × List Char) := do
  let code ← Text.hexNumber? hexDigits
  let (key, after) ← rest?
  some (Char.ofNat code :: key, after)

/-- The key between double quotes and what follows it, from after the opening quote.  Escapes
other than the numeric ones stand for characters that are in no field name and are refused. -/
def quotedKey? : List Char → Option (List Char × List Char)
  | [] => none
  | '"' :: rest => some ([], rest)
  | '\\' :: 'x' :: a :: b :: rest => consEscaped? [a, b] (quotedKey? rest)
  | '\\' :: 'u' :: a :: b :: c :: d :: rest => consEscaped? [a, b, c, d] (quotedKey? rest)
  | '\\' :: 'U' :: a :: b :: c :: d :: e :: f :: g :: h :: rest =>
    consEscaped? [a, b, c, d, e, f, g, h] (quotedKey? rest)
  | c :: rest =>
    if c = '\\' then none
    else (quotedKey? rest).map fun (key, after) => (c :: key, after)

/-- The key at the start of a text and what follows it. -/
def key? : List Char → Option (List Char × List Char)
  | '"' :: rest => quotedKey? rest
  | '\'' :: rest =>
    match rest.dropWhile (· != '\'') with
    | _ :: after => some (rest.takeWhile (· != '\''), after)
    | [] => none
  | cs => some (cs.takeWhile isBareKeyChar, cs.dropWhile isBareKeyChar)

/-- The key and the value of a line.  The value extends to a blank, a comment or the end of the
line, and only a comment may follow it. -/
def field? (line : List Char) : Option (List Char × List Char) := do
  let (key, rest) ← key? (skipBlanks line)
  match skipBlanks rest with
  | '=' :: rest =>
    let rest := skipBlanks rest
    let ends := fun c => isBlank c || c == '#'
    if isEmptyOrComment (rest.dropWhile (!ends ·)) then some (key, rest.takeWhile (!ends ·))
    else none
  | _ => none

/-- The digits of a number in which single underscores may stand between two digits. -/
def ungroup? (isDigit : Char → Bool) : List Char → Option (List Char)
  | [] => none
  | [c] => if isDigit c then some [c] else none
  | c :: '_' :: rest => if isDigit c then (ungroup? isDigit rest).map (c :: ·) else none
  | c :: rest => if isDigit c then (ungroup? isDigit rest).map (c :: ·) else none

def digitsIn? (base : Nat) (cs : List Char) : Option Nat := do
  let isDigit := fun c => match Text.hexValue? c with
    | some value => decide (value < base)
    | none => false
  let ds ← ungroup? isDigit cs
  some (ds.foldl (fun value c => base * value + (Text.hexValue? c).getD 0) 0)

/-- The value of decimal digits with underscores between them and no zero in front. -/
def decimal? (cs : List Char) : Option Nat := do
  let ds ← ungroup? Char.isDigit cs
  if ds.head? == some '0' && ds.length != 1 then none else some (Text.digitsValue ds)

/-- The unsigned 64-bit integer of a value.  A minus sign is good only for zero. -/
def unsigned? (value : List Char) : Option UInt64 := do
  let n ← match value with
    | '0' :: 'x' :: ds => digitsIn? 16 ds
    | '0' :: 'o' :: ds => digitsIn? 8 ds
    | '0' :: 'b' :: ds => digitsIn? 2 ds
    | '+' :: ds => decimal? ds
    | '-' :: ds => (decimal? ds).filter (· == 0)
    | ds => decimal? ds
  if n < UInt64.size then some (.ofNat n) else none

def boolean? (value : List Char) : Option Bool :=
  if value = "true".toList then some true
  else if value = "false".toList then some false
  else none

end Toml

namespace Settings

structure Fields where
  strict : Option Bool := none
  width : Option UInt64 := none
  deriving DecidableEq, Repr

/-- The name of the strict flag in a settings file. -/
def strictName : String := "strict_operands"

/-- The name of the width in a settings file. -/
def widthName : String := "display_width"

/-- The fields after one more line of a settings file. -/
def Fields.readLine? (fields : Fields) (line : List Char) : Option Fields :=
  if Toml.isEmptyOrComment line then some fields
  else do
    let (key, value) ← Toml.field? line
    if key = strictName.toList ∧ fields.strict = none then
      some { fields with strict := some (← Toml.boolean? value) }
    else if key = widthName.toList ∧ fields.width = none then
      some { fields with width := some (← Toml.unsigned? value) }
    else none

/-- The fields of a settings file; a byte order mark at its start is skipped. -/
def Fields.read? (cs : List Char) : Option Fields :=
  let cs := match cs with
    | '\uFEFF' :: rest => rest
    | cs => cs
  (Text.lines cs).foldlM Fields.readLine? {}

/-- The settings that the fields of a file stand for. -/
def ofFields (fields : Fields) : Settings :=
  let defaults : Settings := {}
  ⟨fields.strict.getD defaults.strict, fields.width.getD defaults.width⟩

/-- The valid settings that a settings file holds. -/
def ofToml (text : String) : Except SettingsError Settings :=
  match Fields.read? text.toList with
  | some fields => (ofFields fields).validate
  | none => .error .malformed

theorem ofToml_of_fields {text : String} {fields : Fields}
    (hfields : Fields.read? text.toList = some fields) :
    ofToml text = (ofFields fields).validate := by
  rw [ofToml, hfields]

theorem ofToml_of_malformed {text : String} (hfields : Fields.read? text.toList = none) :
    ofToml text = .error .malformed := by
  rw [ofToml, hfields]

/-- The settings as a settings file. -/
def toToml (settings : Settings) : String :=
  strictName ++ " = " ++ (if settings.strict then "true" else "false") ++ "\n" ++
    widthName ++ " = " ++ settings.width.toNat.repr ++ "\n"

end Settings

end Keypad
