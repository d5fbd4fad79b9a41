import DeskCalculator.Expression.Grammar
import DeskCalculator.Expression.Tree
import DeskCalculator.Proofs.Expression.OperandStack

/-!
# Running a tree's tokens

* `Tree.foldlM_postorder` : on any stack, the tokens of a tree put the tree's value on top or stop
  with the tree's first fault;
* `evaluateReversePolish_postorder` : so they evaluate to the tree;
* `Grammar.Expr.tree` : the tree of a derivation, which evaluates like it (`Expr.evaluate_tree`).
-/

namespace DeskCalculator

/-- The tokens of a tree, run on any stack, put its value on top or stop with its first fault. -/
theorem Tree.foldlM_postorder (t : Tree) (stack : List Binary64) :
    t.postorder.foldlM stepOperands stack = (· :: stack) <$> t.evaluate := by
  induction t generalizing stack with
  | number value => rfl
  | sign o ho operand ih =>
    rw [postorder, List.foldlM_append, ih, evaluate]
    cases operand.evaluate with
    | error fault => rfl
    | ok x => exact stepOperands_sign ho x stack
  | binary o ho left right ihl ihr =>
    rw [postorder, List.foldlM_append, ihl, evaluate]
    cases left.evaluate with
    | error fault => rfl
    | ok x =>
      change (right.postorder ++ [Token.op o]).foldlM stepOperands (x :: stack) = _
      rw [List.foldlM_append, ihr]
      cases right.evaluate with
      | error fault => rfl
      | ok y => exact stepOperands_binary ho x y stack

theorem evaluateReversePolish_postorder (t : Tree) :
    evaluateReversePolish t.postorder = t.evaluate := by
  rw [evaluateReversePolish, Tree.foldlM_postorder]
  cases t.evaluate <;> rfl

/-! ## Trees of derivations -/

namespace Grammar

theorem Additive.operator_arity (o : Additive) : o.operator.arity = 2 := by cases o <;> rfl

theorem Additive.sign_arity (o : Additive) : o.sign.arity = 1 := by cases o <;> rfl

theorem Multiplicative.operator_arity (o : Multiplicative) : o.operator.arity = 2 := by
  cases o <;> rfl

mutual

/-- The tree of an expression. -/
def Expr.tree : Expr → Tree
  | .term t => t.tree
  | .sum left o right => .binary o.operator o.operator_arity left.tree right.tree

/-- The tree of a term. -/
def Term.tree : Term → Tree
  | .factor f => f.tree
  | .product left o right => .binary o.operator o.operator_arity left.tree right.tree

/-- The tree of a factor; parentheses leave no trace in it. -/
def Factor.tree : Factor → Tree
  | .number value => .number value
  | .group e => e.tree
  | .signed o f => .sign o.sign o.sign_arity f.tree

end

mutual

theorem Expr.evaluate_tree : ∀ e : Expr, e.tree.evaluate = e.evaluate
  | .term t => by rw [Expr.tree, Expr.evaluate, t.evaluate_tree]
  | .sum left o right => by
    rw [Expr.tree, Expr.evaluate, Tree.evaluate, left.evaluate_tree, right.evaluate_tree]

theorem Term.evaluate_tree : ∀ t : Term, t.tree.evaluate = t.evaluate
  | .factor f => by rw [Term.tree, Term.evaluate, f.evaluate_tree]
  | .product left o right => by
    rw [Term.tree, Term.evaluate, Tree.evaluate, left.evaluate_tree, right.evaluate_tree]

theorem Factor.evaluate_tree : ∀ f : Factor, f.tree.evaluate = f.evaluate
  | .number value => by rw [Factor.tree, Factor.evaluate, Tree.evaluate]
  | .group e => by rw [Factor.tree, Factor.evaluate, e.evaluate_tree]
  | .signed o f => by rw [Factor.tree, Factor.evaluate, Tree.evaluate, f.evaluate_tree]

end

end Grammar

end DeskCalculator
