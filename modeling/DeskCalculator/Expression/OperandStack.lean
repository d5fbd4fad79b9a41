import DeskCalculator.Binary64.Arithmetic
import DeskCalculator.Expression.Fault

/-!
# The operand stack

* `Operator.exact1`, `Operator.exact2` : what operators compute;
* `Operator.apply1`, `Operator.apply2` : the same, with the faults of arithmetic;
* `stepOperands` : one token in reverse Polish order;
* `evaluateReversePolish` : the value of a token list in reverse Polish order.
-/

namespace DeskCalculator

namespace Operator

/-- What a sign makes of its operand. -/
def exact1 : Operator → Binary64 → Binary64
  | .neg, x => x.neg
  | _, x => x

/-- What a binary operator makes of its operands. -/
def exact2 : Operator → Binary64 → Binary64 → Binary64
  | .add, x, y => x.add y
  | .sub, x, y => x.sub y
  | .mul, x, y => x.mul y
  | .div, x, y => x.div y
  | _, x, _ => x

/-- A value that has to be finite. -/
def checked (value : Binary64) : Except Fault Binary64 :=
  if value.isFinite then .ok value else .error .resultNotFinite

/-- Applies a sign. -/
def apply1 (o : Operator) (x : Binary64) : Except Fault Binary64 := checked (o.exact1 x)

/-- Applies a binary operator; a divisor of zero is a fault of its own, whatever is divided. -/
def apply2 (o : Operator) (x y : Binary64) : Except Fault Binary64 :=
  if o = .div ∧ y.isZero then .error .divisionByZero else checked (o.exact2 x y)

end Operator

/-- One token. The top of the stack comes first, and is an operator's last operand. -/
def stepOperands (stack : List Binary64) : Token → Except Fault (List Binary64)
  | .number value => .ok (value :: stack)
  | .op o =>
    if o.arity = 1 then
      match stack with
      | x :: rest => do return (← o.apply1 x) :: rest
      | [] => .error .invalidExpression
    else
      match stack with
      | y :: x :: rest => do return (← o.apply2 x y) :: rest
      | _ => .error .invalidExpression
  | t => .error (.unexpectedToken t)

/-- The value of a token list in reverse Polish order: exactly one operand has to be left. -/
def evaluateReversePolish (tokens : List Token) : Except Fault Binary64 := do
  match ← tokens.foldlM stepOperands [] with
  | [value] => return value
  | _ => throw .invalidExpression

end DeskCalculator
