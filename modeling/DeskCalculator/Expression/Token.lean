import DeskCalculator.Decimal.Layout
import DeskCalculator.Expression.Operator

/-!
# Tokens

* `Token` : a number, an operator or a parenthesis;
* `Token.text` : the token as logs show it;
* `Token.isSign` : whether the token is one of the two signs.
-/

namespace DeskCalculator

/-- A lexical unit of an expression. -/
inductive Token
  | number (value : Binary64)
  | op (operator : Operator)
  | opening
  | closing
  deriving DecidableEq

namespace Token

/-- The token as logs show it. -/
def text : Token → String
  | .number value => String.ofList (value.numeral "nan" "inf")
  | .op operator => operator.symbol
  | .opening => "("
  | .closing => ")"

/-- Whether the token is an operator of one operand. -/
def isSign : Token → Bool
  | .op operator => operator.arity == 1
  | _ => false

/-- Token texts with a space between them. -/
def line (tokens : List Token) : String := " ".intercalate (tokens.map text)

end Token

end DeskCalculator
