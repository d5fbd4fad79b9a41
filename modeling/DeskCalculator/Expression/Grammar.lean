import DeskCalculator.Expression.OperandStack

/-!
# The grammar of expressions

An expression is a term, or an expression plus or minus a term; a term is a factor, or a term times
or divided by a factor; a factor is a number, an expression in parentheses, or a sign before a
factor.

* `Grammar.Expr`, `Grammar.Term`, `Grammar.Factor` : derivations of the three;
* `Expr.tokens` : the sentence of a derivation, as it is written;
* `Expr.evaluate` : its value, the left operand before the right one;
* `IsSentence` : a token list that some derivation of an expression writes.
-/

namespace DeskCalculator.Grammar

/-- The additive characters, which are also those of the signs. -/
inductive Additive
  | plus
  | minus
  deriving DecidableEq

/-- The multiplicative characters. -/
inductive Multiplicative
  | times
  | divide
  deriving DecidableEq

/-- The binary operator of an additive character. -/
def Additive.operator : Additive → Operator
  | .plus => .add
  | .minus => .sub

/-- The sign of an additive character. -/
def Additive.sign : Additive → Operator
  | .plus => .pos
  | .minus => .neg

/-- The operator of a multiplicative character. -/
def Multiplicative.operator : Multiplicative → Operator
  | .times => .mul
  | .divide => .div

mutual

/-- A derivation of an expression. -/
inductive Expr
  | term (t : Term)
  | sum (left : Expr) (o : Additive) (right : Term)

/-- A derivation of a term. -/
inductive Term
  | factor (f : Factor)
  | product (left : Term) (o : Multiplicative) (right : Factor)

/-- A derivation of a factor. -/
inductive Factor
  | number (value : Binary64)
  | group (e : Expr)
  | signed (o : Additive) (f : Factor)

end

/-! ## Sentences -/

mutual

/-- The tokens of an expression, as written. -/
def Expr.tokens : Expr → List Token
  | .term t => t.tokens
  | .sum left o right => left.tokens ++ (.op o.operator :: right.tokens)

/-- The tokens of a term, as written. -/
def Term.tokens : Term → List Token
  | .factor f => f.tokens
  | .product left o right => left.tokens ++ (.op o.operator :: right.tokens)

/-- The tokens of a factor, as written. -/
def Factor.tokens : Factor → List Token
  | .number value => [.number value]
  | .group e => .opening :: (e.tokens ++ [.closing])
  | .signed o f => .op o.operator :: f.tokens

end

/-- A token list that some derivation of an expression writes. -/
def IsSentence (tokens : List Token) : Prop := ∃ e : Expr, e.tokens = tokens

/-! ## Values -/

mutual

/-- The value of an expression, or the first fault on the way from left to right. -/
def Expr.evaluate : Expr → Except Fault Binary64
  | .term t => t.evaluate
  | .sum left o right => do
    let x ← left.evaluate
    let y ← right.evaluate
    o.operator.apply2 x y

/-- The value of a term, or the first fault on the way from left to right. -/
def Term.evaluate : Term → Except Fault Binary64
  | .factor f => f.evaluate
  | .product left o right => do
    let x ← left.evaluate
    let y ← right.evaluate
    o.operator.apply2 x y

/-- The value of a factor, or the first fault on the way from left to right. -/
def Factor.evaluate : Factor → Except Fault Binary64
  | .number value => .ok value
  | .group e => e.evaluate
  | .signed o f => do o.sign.apply1 (← f.evaluate)

end

end DeskCalculator.Grammar
