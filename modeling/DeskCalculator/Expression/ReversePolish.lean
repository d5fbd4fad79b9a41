import DeskCalculator.Expression.Fault

/-!
# Reverse Polish order

* `Token.yieldsTo` : whether a stacked token goes to the output before an incoming operator;
* `readsAsSign` : whether an operator after a given token is a sign;
* `Conversion` : the output so far, the operator stack and the last token read;
* `Conversion.step`, `Conversion.finish` : one token, and the end of the expression;
* `toReversePolish` : the tokens of an expression in reverse Polish order.
-/

namespace DeskCalculator

/-- Whether a stacked token goes to the output before an incoming operator. An opening parenthesis
stays, whatever comes in. -/
def Token.yieldsTo : Token → Token → Except Fault Bool
  | .op top, .op incoming => .ok (top.yieldsTo incoming)
  | .op _, incoming => .error (.notAnOperator incoming)
  | _, _ => .ok false

/-- Whether an operator is a sign: at the start, after another operator, and after an opening
parenthesis. -/
def readsAsSign : Option Token → Bool
  | none => true
  | some (.op _) => true
  | some .opening => true
  | some _ => false

/-- The operator that a written one stands for after a given token. -/
def Operator.inPosition (previous : Option Token) (operator : Operator) : Operator :=
  if readsAsSign previous then operator.sign?.getD operator else operator

/-- A conversion in progress. The output is in reverse, and the top of the stack comes first. -/
structure Conversion where
  output : List Token
  stack : List Token
  previous : Option Token
  deriving DecidableEq

/-- Moves stacked operators to the output until one stays for the incoming token. -/
def unwind (incoming : Token) (output : List Token) :
    List Token → Except Fault (List Token × List Token)
  | [] => .ok (output, [])
  | top :: stack =>
    match top.yieldsTo incoming with
    | .error fault => .error fault
    | .ok true => unwind incoming (top :: output) stack
    | .ok false => .ok (output, top :: stack)

/-- Moves stacked operators to the output down to an opening parenthesis, and drops that. -/
def closeGroup (output : List Token) : List Token → Except Fault (List Token × List Token)
  | [] => .error .mismatchedParentheses
  | .opening :: stack => .ok (output, stack)
  | top :: stack => closeGroup (top :: output) stack

/-- Moves all stacked operators to the output. -/
def flush (output : List Token) : List Token → Except Fault (List Token)
  | [] => .ok output
  | .opening :: _ => .error .mismatchedParentheses
  | top :: stack => flush (top :: output) stack

namespace Conversion

/-- Nothing read yet. -/
def start : Conversion := ⟨[], [], none⟩

/-- One token. -/
def step (c : Conversion) (t : Token) : Except Fault Conversion :=
  match t with
  | .number _ => .ok ⟨t :: c.output, c.stack, some t⟩
  | .opening => .ok ⟨c.output, t :: c.stack, some t⟩
  | .closing => do
    let (output, stack) ← closeGroup c.output c.stack
    return ⟨output, stack, some t⟩
  | .op operator => do
    let incoming := Token.op (operator.inPosition c.previous)
    let (output, stack) ← unwind incoming c.output c.stack
    return ⟨output, incoming :: stack, some t⟩

/-- The end of the expression. -/
def finish (c : Conversion) : Except Fault (List Token) := do
  let output ← flush c.output c.stack
  return output.reverse

end Conversion

/-- The tokens of an expression in reverse Polish order: every operator after its operands, signs
under their own symbols, no parentheses. Only the parentheses are checked. -/
def toReversePolish (tokens : List Token) : Except Fault (List Token) := do
  let c ← tokens.foldlM Conversion.step .start
  c.finish

end DeskCalculator
