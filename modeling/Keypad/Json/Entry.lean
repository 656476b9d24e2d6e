import Keypad.Entry
import Keypad.Json.Number
import Keypad.Json.Quoted

/-!
# Entries and expressions in JSON

An entry is written as an object without blanks: its expression, an array in which a number is
an operand and a string of one symbol an operator, and its pending text.

An expression is read from such an array with any blanks between its parts.  An operator may
also stand as an object that maps its symbol to `null`.
-/

namespace Keypad.Json

def writeToken : Token → List Char
  | .operand value => writeNumber value
  | .operator op => ['"', op.symbol, '"']

/-- The tokens of an array in JSON, with the bracket that closes it. -/
def writeTokens : Expression → List Char
  | [] => [']']
  | [token] => writeToken token ++ [']']
  | token :: next :: rest => writeToken token ++ ',' :: writeTokens (next :: rest)

def writeExpression (e : Expression) : List Char := '[' :: writeTokens e

/-- The characters of an entry in JSON. -/
def writeEntry (entry : Entry) : List Char :=
  "\x7b\"expression\":".toList ++ writeExpression entry.expression ++
    ",\"current_number\":".toList ++ quote entry.pending.toList ++ ['}']

/-- Whether a character may stand between the parts of a JSON text. -/
def isBlank (c : Char) : Bool := c == ' ' || c == '\t' || c == '\n' || c == '\r'

def skipBlanks (cs : List Char) : List Char := cs.dropWhile isBlank

/-- The operator whose symbol is the whole text of a string. -/
def operatorOf? : List Char → Option Operator
  | [c] => Operator.ofSymbol? c
  | _ => none

/-- The operator at the start of a text, from after the opening quote, and what follows. -/
def readOperator? (cs : List Char) : Option (Operator × List Char) := do
  let (symbol, rest) ← unquote? cs
  let op ← operatorOf? symbol
  some (op, rest)

/-- What follows a given run of characters at the start of a text, blanks before it aside. -/
def skip? (expected cs : List Char) : Option (List Char) :=
  let cs := skipBlanks cs
  if expected.isPrefixOf cs then some (cs.drop expected.length) else none

/-- The token at the start of a text, and what follows it. -/
def readToken? : List Char → Option (Token × List Char)
  | '"' :: rest => do
    let (op, rest) ← readOperator? rest
    some (.operator op, rest)
  | '{' :: rest => do
    let (op, rest) ← readOperator? (← skip? ['"'] rest)
    let rest ← skip? [':'] rest
    let rest ← skip? ['n', 'u', 'l', 'l'] rest
    let rest ← skip? ['}'] rest
    some (.operator op, rest)
  | cs => do
    let (value, rest) ← readNumber? cs
    some (.operand value, rest)

/-- The tokens of a non-empty array up to its end, and what follows it.  A text has at most as
many tokens as characters, which bounds the number of steps. -/
def readTokens? : Nat → List Char → Option (Expression × List Char)
  | 0, _ => none
  | steps + 1, cs => do
    let (token, rest) ← readToken? (skipBlanks cs)
    match skipBlanks rest with
    | ',' :: rest =>
      let (tokens, rest) ← readTokens? steps rest
      some (token :: tokens, rest)
    | ']' :: rest => some ([token], rest)
    | _ => none

/-- The expression at the start of a text, and what follows it. -/
def readArray? (cs : List Char) : Option (Expression × List Char) := do
  let rest ← skip? ['['] cs
  match skipBlanks rest with
  | ']' :: rest => some ([], rest)
  | _ => readTokens? rest.length rest

/-- The expression that the characters of a whole JSON text hold. -/
def readExpression? (cs : List Char) : Option Expression := do
  let (e, rest) ← readArray? cs
  if (skipBlanks rest).isEmpty then some e else none

end Keypad.Json

namespace Keypad

def Entry.toJson (entry : Entry) : String := .ofList (Json.writeEntry entry)

def Expression.ofJson? (text : String) : Option Expression := Json.readExpression? text.toList

end Keypad
