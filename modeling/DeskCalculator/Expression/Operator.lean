/-!
# Operators

* `Operator` : the four binary operators and the two signs;
* `Operator.symbol`, `Operator.ofSymbol?` : their symbols (`Operator.ofSymbol?_symbol`);
* `Operator.precedence`, `Operator.associativity`, `Operator.arity` : how they bind;
* `Operator.sign?` : the sign that a binary operator is written like.
-/

namespace DeskCalculator

/-- The binary operators and the signs. -/
inductive Operator
  | add
  | sub
  | mul
  | div
  | pos
  | neg
  deriving DecidableEq

/-- Which of two equal operators in a row is applied first. -/
inductive Associativity
  | left
  | right
  deriving DecidableEq

namespace Operator

/-- The symbol in token lists; the signs have symbols of their own. -/
def symbol : Operator → String
  | .add => "+"
  | .sub => "-"
  | .mul => "*"
  | .div => "/"
  | .pos => "u+"
  | .neg => "u-"

/-- The operator of a symbol. -/
def ofSymbol? (s : String) : Option Operator :=
  [add, sub, mul, div, pos, neg].find? fun o => o.symbol == s

@[simp] theorem ofSymbol?_symbol (o : Operator) : ofSymbol? o.symbol = some o := by
  cases o <;> decide

/-- The binary operator that a character of an expression stands for. -/
def ofChar? : Char → Option Operator
  | '+' => some .add
  | '-' => some .sub
  | '*' => some .mul
  | '/' => some .div
  | _ => none

/-- Operators of higher precedence bind tighter. -/
def precedence : Operator → Nat
  | .add | .sub => 1
  | .mul | .div => 2
  | .pos | .neg => 3

/-- Binary operators group to the left, signs to the right. -/
def associativity : Operator → Associativity
  | .pos | .neg => .right
  | _ => .left

/-- The number of operands. -/
def arity : Operator → Nat
  | .pos | .neg => 1
  | _ => 2

/-- The sign that is written like the operator. -/
def sign? : Operator → Option Operator
  | .add => some .pos
  | .sub => some .neg
  | _ => none

/-- Whether an operator on the stack is applied before the incoming one. -/
def yieldsTo (top incoming : Operator) : Bool :=
  incoming.precedence < top.precedence
    || (top.precedence == incoming.precedence && incoming.associativity == .left)

end Operator

end DeskCalculator
