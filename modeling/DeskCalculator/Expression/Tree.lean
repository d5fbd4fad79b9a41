import DeskCalculator.Expression.OperandStack

/-!
# Expression trees

* `Tree` : a number, a sign over a tree, or a binary operator over two;
* `Tree.postorder` : the tokens of a tree, every operator after its operands;
* `Tree.evaluate` : the value of a tree, its left part before its right one.
-/

namespace DeskCalculator

/-- The tree of an expression. Signs stand over one tree, binary operators over two. -/
inductive Tree
  | number (value : Binary64)
  | sign (o : Operator) (isSign : o.arity = 1) (operand : Tree)
  | binary (o : Operator) (isBinary : o.arity = 2) (left right : Tree)

namespace Tree

/-- The tokens of the tree, every operator after its operands. -/
def postorder : Tree → List Token
  | .number value => [.number value]
  | .sign o _ operand => operand.postorder ++ [.op o]
  | .binary o _ left right => left.postorder ++ (right.postorder ++ [.op o])

/-- The value of the tree, or the first fault on the way from left to right. -/
def evaluate : Tree → Except Fault Binary64
  | .number value => .ok value
  | .sign o _ operand => do o.apply1 (← operand.evaluate)
  | .binary o _ left right => do
    let x ← left.evaluate
    let y ← right.evaluate
    o.apply2 x y

end Tree

end DeskCalculator
