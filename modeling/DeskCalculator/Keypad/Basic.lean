import DeskCalculator.Decimal.Numeral
import DeskCalculator.Text.Slice

/-!
# Composing expressions on a keypad

* `effectiveLimit` : the length limit that a given one stands for; `clip` cuts a text to it;
* `appendValue` : what pressing a digit, operator, point or parenthesis makes of an expression;
* `backspace` : the expression without its last character.
-/

namespace DeskCalculator.Keypad

/-- The length limit unless another is given. -/
def defaultLimit : Int := 240

/-- The limit that an optional one stands for; zero is none. -/
def effectiveLimit (limit : Option Int) : Int :=
  match limit with
  | none => defaultLimit
  | some n => if n = 0 then defaultLimit else n

/-- The text cut to a limit. -/
def clip (limit : Int) (text : List Char) : List Char := upTo limit text

/-- The characters of the binary operators. -/
def isOperatorChar (c : Char) : Bool := c == '+' || c == '-' || c == '*' || c == '/'

/-- The characters that end a number. -/
def isSeparator (c : Char) : Bool := isOperatorChar c || c == '(' || c == ')'

/-- Whether the last character is in a class; an empty text has none. -/
def endsWith (test : Char → Bool) (text : List Char) : Bool := text.getLast?.any test

/-- What follows the last separator. -/
def lastSegment (expression : List Char) : List Char :=
  (expression.reverse.takeWhile (!isSeparator ·)).reverse

/-- Whether a text occurs somewhere in another. -/
def occursIn (part : List Char) : List Char → Bool
  | [] => part.isEmpty
  | c :: cs => part.isPrefixOf (c :: cs) || occursIn part cs

/-- Whether a value is a run of consecutive digits in counting order, as a digit alone is. -/
def isDigitRun (value : List Char) : Bool := occursIn value "0123456789".toList

/-- The expression with an operator that replaces the one at its end, if the value is an operator
and there is one. -/
def replacedOperator? (expression value : List Char) : Option (List Char) :=
  match value with
  | [c] =>
    if isOperatorChar c && endsWith isOperatorChar expression then
      some (expression.dropLast ++ value)
    else none
  | _ => none

/-- Whether the value is an operator that no expression can begin with. -/
def isIdleOperator (expression value : List Char) : Bool :=
  match value with
  | [c] => isOperatorChar c && c != '-' && expression.isEmpty
  | _ => false

/-- What a point appends: nothing after another point in the same number, a zero before it where
there is no number yet, and a multiplication after a closing parenthesis. -/
def appendedPoint (expression : List Char) : List Char :=
  let segment := lastSegment expression
  if segment.contains '.' then []
  else if segment.isEmpty then
    if endsWith (· == ')') expression then "*0.".toList else "0.".toList
  else ['.']

/-- What a value appends: a multiplication is implied between a number or a closing parenthesis and
an opening one, and between a closing parenthesis and a number. -/
def appended (expression value : List Char) : List Char :=
  if value = ['.'] then appendedPoint expression
  else if value = ['('] then
    if endsWith (fun c => isDigit c || c == ')') expression then ['*', '('] else ['(']
  else if isDigitRun value && endsWith (· == ')') expression then '*' :: value
  else value

/-- The expression after the keys of a value. A full expression takes nothing more. -/
def appendValue (limit : Option Int) (expression value : List Char) : List Char :=
  let limit := effectiveLimit limit
  if value.isEmpty ∨ limit ≤ expression.length then expression
  else if isIdleOperator expression value then expression
  else match replacedOperator? expression value with
    | some replaced => clip limit replaced
    | none => clip limit (expression ++ appended expression value)

/-- The expression without its last character. -/
def backspace (expression : List Char) : List Char := expression.dropLast

end DeskCalculator.Keypad
