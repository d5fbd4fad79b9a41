import DeskCalculator.Expression.Lexeme
import DeskCalculator.Expression.OperandStack
import DeskCalculator.Expression.ReversePolish
import DeskCalculator.Log
import DeskCalculator.Text.Quoted

/-!
# Evaluating expressions

* `evaluate` : the value of an expression, zero for a blank one, or its fault;
* `evaluationRecords` : what is logged meanwhile;
* `preview` : the value while an expression is being typed, which never fails.
-/

namespace DeskCalculator

/-- The value of an expression, or its fault. -/
def evaluate (expression : List Char) : Except Fault Binary64 := do
  let tokens ← tokenize expression
  if tokens.isEmpty then return .zero false
  evaluateReversePolish (← toReversePolish tokens)

/-- Whether the expression holds blanks only. -/
def isBlankText (expression : List Char) : Bool := expression.all isBlank

/-- The value while an expression is being typed: the last good result stands in for one that does
not evaluate. -/
def preview (expression : List Char) (lastResult : Binary64) : Binary64 :=
  if isBlankText expression then .zero false
  else match evaluate expression with
    | .ok value => value
    | .error _ => lastResult

/-! ## Records -/

/-- The record of a rejection. -/
def rejectionRecord (expression : List Char) (fault : Fault) : List Record :=
  match fault.report? with
  | some report =>
    [⟨.calculator, .info,
      "Rejected expression " ++ quoted expression ++ ": " ++ report.kind.name ++ ": "
        ++ report.message⟩]
  | none => []

/-- The records after the conversion. -/
def operandRecords (expression : List Char) (tokens : List Token) : List Record :=
  match evaluateReversePolish tokens with
  | .ok _ => []
  | .error fault => rejectionRecord expression fault

/-- The records after the tokens are known. -/
def conversionRecords (expression : List Char) (tokens : List Token) : List Record :=
  if tokens.isEmpty then []
  else match toReversePolish tokens with
    | .ok output =>
      ⟨.converter, .debug, "Postfix: " ++ Token.line output⟩ :: operandRecords expression output
    | .error fault => rejectionRecord expression fault

/-- All that evaluating an expression logs, in order. -/
def evaluationRecords (expression : List Char) : List Record :=
  ⟨.calculator, .debug, "Evaluating expression: " ++ quoted expression⟩ ::
    match tokenize expression with
    | .ok tokens =>
      ⟨.tokenizer, .debug,
        "Tokenized " ++ quoted expression ++ " into " ++ toString tokens.length ++ " tokens"⟩ ::
        conversionRecords expression tokens
    | .error fault => rejectionRecord expression fault

end DeskCalculator
