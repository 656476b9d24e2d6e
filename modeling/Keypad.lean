import Keypad.Main
import Keypad.Proofs.Expression.Alternation
import Keypad.Proofs.Expression.Stacks
import Keypad.Proofs.Expression.Precedence
import Keypad.Proofs.Expression.Operations
import Keypad.Proofs.Expression.LeftToRight
import Keypad.Proofs.Expression.RunningTotal
import Keypad.Proofs.Expression.NotANumber
import Keypad.Proofs.Expression.Malformed
import Keypad.Proofs.Expression.Discipline
import Keypad.Proofs.Binary64.Rounding
import Keypad.Proofs.Decimal.Value
import Keypad.Proofs.Decimal.Reading
import Keypad.Proofs.NumberText
import Keypad.Proofs.Binary64.Sign
import Keypad.Proofs.Expression.FirstOperand
import Keypad.Proofs.Outcome
import Keypad.Proofs.Screen
import Keypad.Proofs.Calculator.History
import Keypad.Proofs.Calculator.Reuse
import Keypad.Proofs.TypedNumber
import Keypad.Proofs.Calculator.EarlyEquals
import Keypad.Proofs.Calculator.Replies
import Keypad.Proofs.Calculator.StrictMode
import Keypad.Proofs.Calculator.Undefined
import Keypad.Proofs.Calculator.Display
import Keypad.Proofs.Calculator.Width
import Keypad.Proofs.Calculator.LiveTotal
import Keypad.Proofs.OperandText
import Keypad.Proofs.Text.Lines
import Keypad.Proofs.CommandLine.Arguments
import Keypad.Proofs.CommandLine.Lines
import Keypad.Proofs.NoBlanks
import Keypad.Proofs.CommandLine.StandardInput
import Keypad.Proofs.CommandLine.Settings
import Keypad.Proofs.Binary64.Error
import Keypad.Proofs.Decimal.Shortest
import Keypad.Proofs.Decimal.SignificantDigits
import Keypad.Proofs.Decimal.Closest
import Keypad.Proofs.ShortestText
import Keypad.Proofs.CanonicalText
import Keypad.Proofs.Json.Number
import Keypad.Proofs.Json.Quoted
import Keypad.Proofs.Json.Scaling
import Keypad.Proofs.Json.Operand
import Keypad.Proofs.Json.Expression
import Keypad.Proofs.Json.Identity
import Keypad.Proofs.KeySequence
import Keypad.Proofs.CommittedOperands
import Keypad.Proofs.TextLength
import Keypad.Proofs.Calculator.WideScreen
import Keypad.Proofs.PrintedKeys
import Keypad.Proofs.Settings.WrittenFile
