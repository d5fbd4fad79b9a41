import DeskCalculator.Expression.Evaluation

/-!
# Evaluation by primitives

The same calculation on primitives that break down where nothing guards them: an empty stack has no
top, a symbol may be no operator's, a token may have no precedence, and zero divides nothing.

* `Breakdown` : what a primitive breaks down on; `Stop` : a fault or a breakdown;
* `Primitive.pop`, `Primitive.operatorOf`, `Primitive.precedenceOf`, `Primitive.exact1`,
  `Primitive.exact2` : the primitives;
* `Primitive.token`, `Primitive.step`, `Primitive.stepOperands` : one lexeme and one token of the
  three passes over an expression, each with its guards;
* `Primitive.evaluate` : the value of an expression, or what stops the calculation.
-/

namespace DeskCalculator

/-- What a primitive breaks down on. -/
inductive Breakdown
  /-- A stack without a top. -/
  | emptyStack
  /-- A symbol that is no operator's. -/
  | unknownSymbol (symbol : String)
  /-- A token that is no operator and has no precedence. -/
  | noPrecedence (t : Token)
  /-- An operator that computes nothing from so many operands. -/
  | noFunction (o : Operator)
  /-- A divisor of zero. -/
  | zeroDivisor
  deriving DecidableEq

/-- Why a calculation by primitives stops. -/
inductive Stop
  | fault (f : Fault)
  | breakdown (b : Breakdown)
  deriving DecidableEq

namespace Primitive

/-! ## Primitives -/

/-- Ends the calculation with a fault. -/
def reject {α : Type} (f : Fault) : Except Stop α := .error (.fault f)

/-- Ends the calculation with a breakdown. -/
def failure {α : Type} (b : Breakdown) : Except Stop α := .error (.breakdown b)

/-- A calculation that can only fault. -/
def lift {α : Type} (x : Except Fault α) : Except Stop α := x.mapError .fault

/-- The top of a stack, and what is below it. -/
def pop {α : Type} : List α → Except Stop (α × List α)
  | [] => failure .emptyStack
  | top :: rest => .ok (top, rest)

/-- The operator of a symbol. -/
def operatorOf (symbol : String) : Except Stop Operator :=
  match Operator.ofSymbol? symbol with
  | some o => .ok o
  | none => failure (.unknownSymbol symbol)

/-- The operator that a token has its precedence from. -/
def precedenceOf : Token → Except Stop Operator
  | .op o => .ok o
  | t => failure (.noPrecedence t)

/-- What an operator makes of one operand. -/
def exact1 (o : Operator) (x : Binary64) : Except Stop Binary64 :=
  match o with
  | .pos => .ok x
  | .neg => .ok x.neg
  | _ => failure (.noFunction o)

/-- What an operator makes of two operands. -/
def exact2 (o : Operator) (x y : Binary64) : Except Stop Binary64 :=
  match o with
  | .add => .ok (x.add y)
  | .sub => .ok (x.sub y)
  | .mul => .ok (x.mul y)
  | .div => if y.isZero then failure .zeroDivisor else .ok (x.div y)
  | _ => failure (.noFunction o)

/-! ## Scanning -/

/-- The symbols that an expression can hold. -/
def writtenSymbols : List String := ["+", "-", "*", "/"]

/-- The token of a character that is part of no number. -/
def mark (c : Char) : Except Stop Token :=
  if c = '(' then .ok .opening
  else if c = ')' then .ok .closing
  else if writtenSymbols.contains (String.singleton c) then
    Token.op <$> operatorOf (String.singleton c)
  else reject (.unexpectedCharacter c)

/-- The token of a lexeme. -/
def token : Lexeme → Except Stop Token
  | .run cs => lift (Lexeme.run cs).token
  | .mark c => mark c

/-! ## Converting -/

/-- The symbols of the signs by the symbols that they are written with. -/
def signSymbols : List (String × String) := [("+", "u+"), ("-", "u-")]

/-- The sign that an operator is written like, or else the operator. -/
def signOf (o : Operator) : Except Stop Operator :=
  match signSymbols.lookup o.symbol with
  | some symbol => operatorOf symbol
  | none => .ok o

/-- The operator that a written one stands for after a given token. -/
def inPosition (previous : Option Token) (o : Operator) : Except Stop Operator :=
  if readsAsSign previous then signOf o else .ok o

/-- Whether a stacked token goes to the output before an incoming one. -/
def yieldsTo (incoming : Token) : Token → Except Stop Bool
  | .op top => do
    let top ← precedenceOf (.op top)
    let incoming ← precedenceOf incoming
    return top.yieldsTo incoming
  | _ => .ok false

theorem length_of_pop {α : Type} {stack rest : List α} {top : α}
    (h : pop stack = .ok (top, rest)) : rest.length < stack.length := by
  cases stack with
  | nil => cases h
  | cons x xs =>
    cases h
    exact Nat.lt_succ_self _

/-- Moves tokens to the output as long as there are any and the top one passes a test. -/
def popWhile (test : Token → Except Stop Bool) (output stack : List Token) :
    Except Stop (List Token × List Token) :=
  if stack.isEmpty then .ok (output, stack)
  else
    match _hpop : pop stack with
    | .error stop => .error stop
    | .ok (top, rest) =>
      match test top with
      | .error stop => .error stop
      | .ok true => popWhile test (top :: output) rest
      | .ok false => .ok (output, stack)
termination_by stack.length
decreasing_by exact length_of_pop _hpop

/-- One token of an expression. -/
def step (c : Conversion) (t : Token) : Except Stop Conversion :=
  match t with
  | .number _ => .ok ⟨t :: c.output, c.stack, some t⟩
  | .opening => .ok ⟨c.output, t :: c.stack, some t⟩
  | .closing => do
    let (output, stack) ← popWhile (fun top => .ok (top != .opening)) c.output c.stack
    if stack.isEmpty then reject .mismatchedParentheses
    else
      let (_, below) ← pop stack
      return ⟨output, below, some t⟩
  | .op o => do
    let incoming ← inPosition c.previous o
    let (output, stack) ← popWhile (yieldsTo (.op incoming)) c.output c.stack
    return ⟨output, .op incoming :: stack, some t⟩

/-- The end of an expression. -/
def finish (c : Conversion) : Except Stop (List Token) := do
  let test (top : Token) : Except Stop Bool :=
    if top = .opening then reject .mismatchedParentheses else .ok true
  let (output, _) ← popWhile test c.output c.stack
  return output.reverse

/-! ## Evaluating -/

/-- Applies a sign. -/
def apply1 (o : Operator) (x : Binary64) : Except Stop Binary64 := do
  lift (Operator.checked (← exact1 o x))

/-- Applies a binary operator; a divisor of zero is refused before anything is divided. -/
def apply2 (o : Operator) (x y : Binary64) : Except Stop Binary64 :=
  if o = .div ∧ y.isZero then reject .divisionByZero
  else do lift (Operator.checked (← exact2 o x y))

/-- One token in reverse Polish order. -/
def stepOperands (stack : List Binary64) : Token → Except Stop (List Binary64)
  | .number value => .ok (value :: stack)
  | .op o =>
    if o.arity = 1 then
      if stack.isEmpty then reject .invalidExpression
      else do
        let (x, rest) ← pop stack
        return (← apply1 o x) :: rest
    else
      if stack.length < 2 then reject .invalidExpression
      else do
        let (y, rest) ← pop stack
        let (x, rest) ← pop rest
        return (← apply2 o x y) :: rest
  | t => reject (.unexpectedToken t)

/-- The value of a token list in reverse Polish order. -/
def evaluateReversePolish (tokens : List Token) : Except Stop Binary64 := do
  let stack ← tokens.foldlM stepOperands []
  if stack.length ≠ 1 then reject .invalidExpression
  else
    let (value, _) ← pop stack
    return value

/-- The value of an expression, or what stops the calculation. -/
def evaluate (expression : List Char) : Except Stop Binary64 := do
  let tokens ← (lexemes (withoutBlanks expression)).mapM token
  if tokens.isEmpty then return .zero false
  let c ← tokens.foldlM step .start
  evaluateReversePolish (← finish c)

end Primitive

end DeskCalculator
