import DeskCalculator.Keypad.Basic

/-!
# Flipping the sign of the last number

* `spanNumber` : a number at the start of a text: digits, and a point with digits if there is one;
* `findLastNumber` : the first number after which its line holds no digit, with what surrounds it;
* `endsInSign` : whether a text ends in a minus that is a sign;
* `toggleSign` : the expression with the sign of its last number flipped.
-/

namespace DeskCalculator.Keypad

/-- Splits a number off the start of a text: its digits, and a point and more digits if there are
any after the point. -/
def spanNumber (cs : List Char) : List Char × List Char :=
  let (whole, rest) := cs.span isDigit
  match rest with
  | '.' :: more =>
    let (fraction, after) := more.span isDigit
    if fraction.isEmpty then (whole, rest) else (whole ++ '.' :: fraction, after)
  | _ => (whole, rest)

/-- Whether the rest of the line holds a digit. -/
def lineHoldsDigit (cs : List Char) : Bool := (cs.takeWhile (· != '\n')).any isDigit

/-- A number in a text, with what comes before and after it. -/
structure Found where
  before : List Char
  number : List Char
  after : List Char
  deriving DecidableEq

/-- The first number after which its line holds no digit. -/
def findLastNumber : List Char → Option Found
  | [] => none
  | c :: cs =>
    let (number, after) := spanNumber (c :: cs)
    if isDigit c && !lineHoldsDigit after then some ⟨[], number, after⟩
    else (findLastNumber cs).map fun found => ⟨c :: found.before, found.number, found.after⟩

/-- Whether a text ends in a minus at its start, after an operator or after an opening parenthesis:
anywhere else the minus is a subtraction. -/
def endsInSign (before : List Char) : Bool :=
  match before.reverse with
  | ['-'] => true
  | '-' :: c :: _ => isOperatorChar c || c == '('
  | _ => false

/-- The expression with the sign of its last number flipped. An empty expression becomes a minus. -/
def toggleSign (limit : Option Int) (expression : List Char) : List Char :=
  match findLastNumber expression with
  | none => if expression.isEmpty then ['-'] else expression
  | some ⟨before, number, after⟩ =>
    if endsInSign before then before.dropLast ++ (number ++ after)
    else clip (effectiveLimit limit) (before ++ '-' :: (number ++ after))

end DeskCalculator.Keypad
