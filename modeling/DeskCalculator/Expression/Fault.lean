import DeskCalculator.Expression.Token

/-!
# Faults of expressions

* `Fault` : why a computation on an expression stops;
* `Kind` : the kinds of rejection that users are told; `Kind.usualMessage` : what they say;
* `Report` : a kind with its message, and the character if one is to blame; `Kind.report`;
* `Fault.report?` : what a user is told, if the fault is the expression's and not the program's.
-/

namespace DeskCalculator

/-- Why a computation on an expression stops. -/
inductive Fault
  /-- A run of digits and points is no number. -/
  | invalidNumber (run : List Char)
  /-- A number lies beyond the last finite one. -/
  | numberTooLarge
  /-- A character has no place in expressions. -/
  | unexpectedCharacter (c : Char)
  /-- A parenthesis has no counterpart. -/
  | mismatchedParentheses
  /-- Operators and operands do not line up. -/
  | invalidExpression
  /-- A token has no place in reverse Polish order. -/
  | unexpectedToken (t : Token)
  /-- The divisor is zero. -/
  | divisionByZero
  /-- A result is not finite. -/
  | resultNotFinite
  /-- A token was compared as an operator and is none. -/
  | notAnOperator (t : Token)
  deriving DecidableEq

/-- The kinds of rejection; `general` is that of a rejection with no kind of its own. -/
inductive Kind
  | general
  | invalidNumber
  | numberTooLarge
  | unexpectedCharacter
  | mismatchedParentheses
  | invalidExpression
  | divisionByZero
  | resultNotFinite
  deriving DecidableEq

namespace Kind

/-- The kind's name. -/
def name : Kind → String
  | .general => "CalculatorError"
  | .invalidNumber => "InvalidNumber"
  | .numberTooLarge => "NumberTooLarge"
  | .unexpectedCharacter => "UnexpectedCharacter"
  | .mismatchedParentheses => "MismatchedParentheses"
  | .invalidExpression => "InvalidExpression"
  | .divisionByZero => "DivisionByZero"
  | .resultNotFinite => "ResultNotFinite"

/-- Every kind. -/
def all : List Kind :=
  [general, invalidNumber, numberTooLarge, unexpectedCharacter, mismatchedParentheses,
    invalidExpression, divisionByZero, resultNotFinite]

/-- The message of a rejection that has no other. -/
def usualMessage : Kind → String
  | .general => "Invalid expression"
  | .invalidNumber => "Invalid number"
  | .numberTooLarge => "Number too large"
  | .unexpectedCharacter => "Invalid expression"
  | .mismatchedParentheses => "Mismatched parentheses"
  | .invalidExpression => "Invalid expression"
  | .divisionByZero => "Division by zero"
  | .resultNotFinite => "Result not finite"

end Kind

/-- What a user is told about a rejected expression. -/
structure Report where
  kind : Kind
  message : String
  character : Option String
  deriving DecidableEq

/-- The report of a kind. An empty message is none, and a rejection with none has the usual one; for
an unexpected character the detail is the character. -/
def Kind.report (kind : Kind) (detail : Option String) : Report :=
  let given := detail.getD ""
  if kind = .unexpectedCharacter then ⟨kind, "Unexpected character: " ++ given, some given⟩
  else ⟨kind, if given = "" then kind.usualMessage else given, none⟩

namespace Fault

/-- What a user is told; `none` for a fault that no expression can be blamed for. -/
def report? : Fault → Option Report
  | .invalidNumber run =>
    some (Kind.invalidNumber.report (some ("Invalid number: " ++ String.ofList run)))
  | .numberTooLarge => some (Kind.numberTooLarge.report none)
  | .unexpectedCharacter c =>
    some (Kind.unexpectedCharacter.report (some (String.singleton c)))
  | .mismatchedParentheses => some (Kind.mismatchedParentheses.report none)
  | .invalidExpression => some (Kind.invalidExpression.report none)
  | .unexpectedToken t =>
    some (Kind.invalidExpression.report
      (some ("Unexpected token in postfix sequence: " ++ t.text)))
  | .divisionByZero => some (Kind.divisionByZero.report none)
  | .resultNotFinite => some (Kind.resultNotFinite.report none)
  | .notAnOperator _ => none

end Fault

end DeskCalculator
