import Keypad.Text

/-!
# JSON strings

A string is written between double quotes.  The quote, the backslash and the characters below
`U+0020` are escaped, everything else stands for itself.  The reader knows all escapes of the
format, with a character past `U+FFFF` as a pair of surrogates.
-/

namespace Keypad.Json

def escape (c : Char) : List Char :=
  if c = '"' then ['\\', '"']
  else if c = '\\' then ['\\', '\\']
  else if c = '\x08' then ['\\', 'b']
  else if c = '\x0c' then ['\\', 'f']
  else if c = '\n' then ['\\', 'n']
  else if c = '\r' then ['\\', 'r']
  else if c = '\t' then ['\\', 't']
  else if c.toNat < 0x20 then
    ['\\', 'u', '0', '0', Text.hexDigit (c.toNat / 16), Text.hexDigit (c.toNat % 16)]
  else [c]

def quote (cs : List Char) : List Char := '"' :: (cs.flatMap escape ++ ['"'])

/-- The character that a backslash and a single character stand for. -/
def shortEscape? (c : Char) : Option Char :=
  if c = '"' then some '"'
  else if c = '\\' then some '\\'
  else if c = '/' then some '/'
  else if c = 'b' then some '\x08'
  else if c = 'f' then some '\x0c'
  else if c = 'n' then some '\n'
  else if c = 'r' then some '\r'
  else if c = 't' then some '\t'
  else none

def isHighSurrogate (unit : Nat) : Bool := 0xD800 ≤ unit && unit < 0xDC00

def isLowSurrogate (unit : Nat) : Bool := 0xDC00 ≤ unit && unit < 0xE000

/-- The character of a surrogate pair. -/
def surrogatePair (high low : Nat) : Char :=
  Char.ofNat (0x10000 + (high - 0xD800) * 0x400 + (low - 0xDC00))

/-- The text of a string and what follows its closing quote, from after the opening one. -/
def unquote? : List Char → Option (List Char × List Char)
  | [] => none
  | '"' :: rest => some ([], rest)
  | '\\' :: 'u' :: a :: b :: c :: d :: rest =>
    match Text.hexNumber? [a, b, c, d] with
    | none => none
    | some unit =>
      if isHighSurrogate unit then
        match rest with
        | '\\' :: 'u' :: e :: f :: g :: h :: rest =>
          match Text.hexNumber? [e, f, g, h] with
          | none => none
          | some low =>
            if isLowSurrogate low then
              (unquote? rest).map fun (cs, rest) => (surrogatePair unit low :: cs, rest)
            else none
        | _ => none
      else if isLowSurrogate unit then none
      else (unquote? rest).map fun (cs, rest) => (Char.ofNat unit :: cs, rest)
  | '\\' :: c :: rest =>
    match shortEscape? c with
    | none => none
    | some c => (unquote? rest).map fun (cs, rest) => (c :: cs, rest)
  | c :: rest =>
    if c = '\\' || c.toNat < 0x20 then none
    else (unquote? rest).map fun (cs, rest) => (c :: cs, rest)

end Keypad.Json
