import DeskCalculator.Binary64.Arithmetic
import DeskCalculator.Binary64.Basic
import DeskCalculator.Binary64.Bits
import DeskCalculator.Binary64.Rounding
import DeskCalculator.Decimal.Basic
import DeskCalculator.Decimal.Layout
import DeskCalculator.Decimal.Numeral
import DeskCalculator.Decimal.Shortest
import DeskCalculator.Display
import DeskCalculator.Expression.Evaluation
import DeskCalculator.Expression.Fault
import DeskCalculator.Expression.Grammar
import DeskCalculator.Expression.Lexeme
import DeskCalculator.Expression.OperandStack
import DeskCalculator.Expression.Operator
import DeskCalculator.Expression.ReversePolish
import DeskCalculator.Expression.Token
import DeskCalculator.Expression.Tree
import DeskCalculator.History.Entry
import DeskCalculator.History.File
import DeskCalculator.History.Stepwise
import DeskCalculator.History.Store
import DeskCalculator.Json.Basic
import DeskCalculator.Json.Coerce
import DeskCalculator.Json.Reader
import DeskCalculator.Json.Token
import DeskCalculator.Json.Writer
import DeskCalculator.Keypad.Basic
import DeskCalculator.Keypad.Press
import DeskCalculator.Keypad.Sign
import DeskCalculator.Log
import DeskCalculator.Operand
import DeskCalculator.Proofs.Expression.Conversion
import DeskCalculator.Proofs.Expression.Postorder
import DeskCalculator.Proofs.Expression.Precedence
import DeskCalculator.Service.Answer
import DeskCalculator.Service.Handle
import DeskCalculator.Service.Request
import DeskCalculator.Settings.Basic
import DeskCalculator.Settings.Logging
import DeskCalculator.Settings.VariableFile
import DeskCalculator.Settings.Variables
import DeskCalculator.Text.Blank
import DeskCalculator.Text.Glyph
import DeskCalculator.Text.Matcher
import DeskCalculator.Text.Quoted
import DeskCalculator.Text.Slice
import DeskCalculator.Validation
import DeskCalculator.Proofs.Expression.Lexemes
import DeskCalculator.Proofs.Expression.Written
import DeskCalculator.Proofs.Expression.Conservation
import DeskCalculator.Proofs.Expression.Parentheses
import DeskCalculator.Proofs.Expression.Sentence
import DeskCalculator.Proofs.Expression.Acceptance
import DeskCalculator.Proofs.Keypad.Appended
import DeskCalculator.Proofs.Keypad.Composed
import DeskCalculator.Proofs.Keypad.Acceptance
import DeskCalculator.Proofs.Keypad.Pressed
import DeskCalculator.Proofs.Keypad.Orderly
import DeskCalculator.Proofs.Keypad.Legible
import DeskCalculator.Proofs.Keypad.Sign
import DeskCalculator.Proofs.Keypad.Placement
import DeskCalculator.Proofs.Keypad.Typed
import DeskCalculator.Proofs.Keypad.Flipped
import DeskCalculator.Proofs.Binary64.Nearest
import DeskCalculator.Proofs.Decimal.Reading
import DeskCalculator.Proofs.Decimal.Shortest
import DeskCalculator.Proofs.Operand.RoundTrip
import DeskCalculator.Proofs.Expression.Substitution
import DeskCalculator.Expression.Primitive
import DeskCalculator.Proofs.Expression.Primitive
import DeskCalculator.Proofs.Binary64.Finite
import DeskCalculator.Proofs.Expression.Safety
import DeskCalculator.Proofs.Json.Numeral
import DeskCalculator.Proofs.Json.Scanning
import DeskCalculator.Proofs.Json.Readable
import DeskCalculator.Proofs.Json.RoundTrip
import DeskCalculator.Proofs.History.Entry
import DeskCalculator.Proofs.History.File
import DeskCalculator.Proofs.History.Store
import DeskCalculator.Proofs.Service.Exchange
import DeskCalculator.Proofs.Service.History
import DeskCalculator.Proofs.Expression.Forest
import DeskCalculator.Proofs.History.Frame
import DeskCalculator.Proofs.History.Work
import DeskCalculator.Proofs.History.Stepwise
import DeskCalculator.Proofs.History.Untroubled
import DeskCalculator.Proofs.Service.Stepwise
import DeskCalculator.Proofs.Keypad.Length
import DeskCalculator.Proofs.Operand.Limited
import DeskCalculator.Proofs.Service.Session
import DeskCalculator.Proofs.Decimal.Places
import DeskCalculator.Proofs.Decimal.Minimal
import DeskCalculator.Proofs.Operand.Rounded
import DeskCalculator.Proofs.Operand.PowerOfTen
import DeskCalculator.Proofs.Operand.Exactness
import DeskCalculator.Proofs.Binary64.Correctness
import DeskCalculator.Proofs.Decimal.Correctness
import DeskCalculator.Proofs.Expression.Tokens
import DeskCalculator.Proofs.Expression.Printing
import DeskCalculator.Proofs.Decimal.Numeral
import DeskCalculator.Proofs.Decimal.Significant
import DeskCalculator.Proofs.Decimal.Denotation
import DeskCalculator.Proofs.Decimal.Pattern
import DeskCalculator.Proofs.Decimal.Layout
import DeskCalculator.Proofs.Operand.Significant
import DeskCalculator.Proofs.Display.Rounding
import DeskCalculator.Proofs.Display.Order
import DeskCalculator.Proofs.Display.Shape
import DeskCalculator.Proofs.Expression.Stages
import DeskCalculator.Proofs.Expression.Records
import DeskCalculator.Proofs.Service.Clearing
import DeskCalculator.Proofs.Service.Refused
import DeskCalculator.Proofs.Service.Finite
import DeskCalculator.Proofs.Json.Written
import DeskCalculator.Proofs.History.Faults
import DeskCalculator.Proofs.Service.Classified
import DeskCalculator.Proofs.Expression.OperatorStack
import DeskCalculator.Proofs.Keypad.NumberSearch
