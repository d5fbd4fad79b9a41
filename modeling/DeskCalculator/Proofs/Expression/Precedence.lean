import DeskCalculator.Proofs.Expression.Conversion
import DeskCalculator.Proofs.Expression.Postorder

/-!
# Reverse Polish order of derivations

* `Settled level stack` : no operator of the level or above moves what is stacked;
* `Converts level tokens output` : read where an operand is due and on a settled stack, the tokens
  leave their output, of which some last operators, all of the level or above, are still stacked;
* `Converts.number`, `Converts.group`, `Converts.signed`, `Converts.binary` : one lemma for each
  rule of the grammar; `Converts.weaken` : a factor is a term, and a term is an expression;
* `toReversePolish_tokens` : the tokens of a derivation become those of its tree.
-/

namespace DeskCalculator

/-- No operator of the level or above moves what is stacked. -/
def Settled (level : Nat) (stack : List Token) : Prop :=
  ∀ top ∈ stack.head?, ∀ o : Operator, level ≤ o.precedence → top.makesWay o = false

theorem Settled.nil (level : Nat) : Settled level [] := by simp [Settled]

theorem Settled.opening (level : Nat) (stack : List Token) : Settled level (.opening :: stack) := by
  simp [Settled, Token.makesWay]

theorem Settled.op (o : Operator) (stack : List Token) :
    Settled (o.precedence + 1) (.op o :: stack) := by
  simp only [Settled, List.head?_cons, Option.mem_some_iff, forall_eq']
  exact fun incoming h => Operator.not_yieldsTo_of_lt h

/-- Signs move nothing, so every stack is settled for them. -/
theorem Settled.sign (stack : List Token) : Settled 3 stack := by
  intro top _ o ho
  cases top with
  | op top => exact Operator.not_yieldsTo_sign ho
  | _ => rfl

theorem Settled.mono {m n : Nat} {stack : List Token} (h : Settled m stack) (hmn : m ≤ n) :
    Settled n stack :=
  fun top htop o ho => h top htop o (Nat.le_trans hmn ho)

theorem Settled.takeWhile_eq {level : Nat} {stack : List Token} (h : Settled level stack)
    {o : Operator} (ho : level ≤ o.precedence) : stack.takeWhile (·.makesWay o) = [] := by
  cases stack with
  | nil => rfl
  | cons top stack => simp [h top rfl o ho]

theorem Settled.dropWhile_eq {level : Nat} {stack : List Token} (h : Settled level stack)
    {o : Operator} (ho : level ≤ o.precedence) : stack.dropWhile (·.makesWay o) = stack := by
  cases stack with
  | nil => rfl
  | cons top stack => simp [h top rfl o ho]

/-- Read where an operand is due and on a settled stack, the tokens leave `output`, of which some
last operators, all of the level or above, are still stacked. -/
def Converts (level : Nat) (tokens output : List Token) : Prop :=
  ∀ c : Conversion, readsAsSign c.previous = true → Settled level c.stack →
    ∃ (pending : List Operator) (written : List Token) (last : Token),
      tokens.foldlM Conversion.step c
        = .ok ⟨written, pending.map .op ++ c.stack, some last⟩ ∧
      readsAsSign (some last) = false ∧
      (∀ o ∈ pending, level ≤ o.precedence) ∧
      (pending.map .op).reverse ++ written = output.reverse ++ c.output

theorem opening_not_mem_map_op (os : List Operator) : Token.opening ∉ os.map Token.op := by
  simp

namespace Converts

theorem weaken {m n : Nat} {tokens output : List Token} (h : Converts n tokens output)
    (hmn : m ≤ n) : Converts m tokens output := by
  intro c hc hs
  obtain ⟨pending, written, last, hrun, hlast, hp, hout⟩ := h c hc (hs.mono hmn)
  exact ⟨pending, written, last, hrun, hlast, fun o ho => Nat.le_trans hmn (hp o ho), hout⟩

theorem number (value : Binary64) : Converts 3 [.number value] [.number value] := by
  intro c _ _
  exact ⟨[], .number value :: c.output, .number value, rfl, rfl, by simp, rfl⟩

theorem group {tokens output : List Token} (h : Converts 1 tokens output) :
    Converts 3 (.opening :: (tokens ++ [.closing])) output := by
  intro c _ _
  obtain ⟨pending, written, last, hrun, -, -, hout⟩ :=
    h ⟨c.output, .opening :: c.stack, some .opening⟩ rfl (Settled.opening 1 c.stack)
  refine ⟨[], output.reverse ++ c.output, .closing, ?_, rfl, by simp, rfl⟩
  rw [Conversion.foldlM_step_cons c.step_opening, Conversion.foldlM_step_append hrun,
    Conversion.foldlM_step_cons
      (Conversion.step_closing _ (opening_not_mem_map_op pending) rfl), ← hout]
  rfl

theorem signed {o s : Operator} (hs : o.sign? = some s) {tokens output : List Token}
    (h : Converts 3 tokens output) : Converts 3 (.op o :: tokens) (output ++ [.op s]) := by
  intro c hc _
  have hpos : o.inPosition c.previous = s := by simp [Operator.inPosition, hc, hs]
  have hprec : 3 ≤ s.precedence := by
    cases o <;> simp only [Operator.sign?, reduceCtorEq, Option.some.injEq] at hs <;>
      subst hs <;> decide
  obtain ⟨pending, written, last, hrun, hlast, hp, hout⟩ :=
    h ⟨c.output, .op s :: c.stack, some (.op o)⟩ rfl (Settled.sign _)
  refine ⟨pending ++ [s], written, last, ?_, hlast, ?_, ?_⟩
  · have hstep := c.step_op o
    rw [hpos, (Settled.sign c.stack).takeWhile_eq hprec,
      (Settled.sign c.stack).dropWhile_eq hprec] at hstep
    rw [Conversion.foldlM_step_cons hstep]
    simpa using hrun
  · intro o ho
    rcases List.mem_append.1 ho with ho | ho
    · exact hp o ho
    · rw [List.mem_singleton.1 ho]
      exact hprec
  · simpa using hout

/-- An operator of the level takes what is pending to the output, and waits for its right operand in
turn. -/
theorem binary {level : Nat} {o : Operator} (hl : o.associativity = .left)
    (ho : o.precedence = level) {left right leftOutput rightOutput : List Token}
    (hleft : Converts level left leftOutput) (hright : Converts (level + 1) right rightOutput) :
    Converts level (left ++ .op o :: right) (leftOutput ++ (rightOutput ++ [.op o])) := by
  intro c hc hs
  obtain ⟨pending, written, last, hrun, hlast, hp, hout⟩ := hleft c hc hs
  have hyield : ∀ t ∈ pending.map Token.op, t.makesWay o = true := by
    intro t ht
    obtain ⟨p, hp', rfl⟩ := List.mem_map.1 ht
    exact Operator.yieldsTo_of_le hl (ho ▸ hp p hp')
  have hpos : o.inPosition (some last) = o := by simp [Operator.inPosition, hlast]
  obtain ⟨pending', written', last', hrun', hlast', hp', hout'⟩ :=
    hright ⟨leftOutput.reverse ++ c.output, .op o :: c.stack, some (.op o)⟩ rfl
      (ho ▸ Settled.op o c.stack)
  refine ⟨pending' ++ [o], written', last', ?_, hlast', ?_, ?_⟩
  · have hstep := Conversion.step_op ⟨written, pending.map .op ++ c.stack, some last⟩ o
    simp only [hpos] at hstep
    rw [List.takeWhile_append_of_pos hyield, List.dropWhile_append_of_pos hyield,
      hs.takeWhile_eq (Nat.le_of_eq ho.symm), hs.dropWhile_eq (Nat.le_of_eq ho.symm),
      List.append_nil, hout] at hstep
    rw [Conversion.foldlM_step_append hrun, Conversion.foldlM_step_cons hstep]
    simpa using hrun'
  · intro q hq
    rcases List.mem_append.1 hq with hq | hq
    · exact Nat.le_of_succ_le (hp' q hq)
    · rw [List.mem_singleton.1 hq]
      exact Nat.le_of_eq ho.symm
  · simpa using hout'

/-- What is still stacked at the end goes to the output, and nothing else does. -/
theorem toReversePolish_eq {tokens output : List Token} (h : Converts 1 tokens output) :
    toReversePolish tokens = .ok output := by
  obtain ⟨pending, written, last, hrun, -, -, hout⟩ := h .start rfl (Settled.nil 1)
  rw [toReversePolish, hrun]
  change Conversion.finish _ = _
  have hout' : (pending.map Token.op).reverse ++ written = output.reverse := by
    simpa [Conversion.start] using hout
  have hstack : Token.opening ∉ pending.map Token.op ++ Conversion.start.stack := by
    simp [Conversion.start]
  rw [Conversion.finish, flush_of_not_mem hstack]
  simp only [Conversion.start, List.append_nil, hout']
  change Except.ok output.reverse.reverse = _
  rw [List.reverse_reverse]

end Converts

/-! ## Derivations -/

namespace Grammar

theorem Additive.sign?_operator (o : Additive) : o.operator.sign? = some o.sign := by
  cases o <;> rfl

theorem Additive.converts_binary (o : Additive) {left right leftOutput rightOutput : List Token}
    (hleft : Converts 1 left leftOutput) (hright : Converts 2 right rightOutput) :
    Converts 1 (left ++ .op o.operator :: right)
      (leftOutput ++ (rightOutput ++ [.op o.operator])) :=
  Converts.binary (by cases o <;> rfl) (by cases o <;> rfl) hleft hright

theorem Multiplicative.converts_binary (o : Multiplicative)
    {left right leftOutput rightOutput : List Token} (hleft : Converts 2 left leftOutput)
    (hright : Converts 3 right rightOutput) :
    Converts 2 (left ++ .op o.operator :: right)
      (leftOutput ++ (rightOutput ++ [.op o.operator])) :=
  Converts.binary (by cases o <;> rfl) (by cases o <;> rfl) hleft hright

mutual

theorem Expr.converts : ∀ e : Expr, Converts 1 e.tokens e.tree.postorder
  | .term t => by
    rw [Expr.tokens, Expr.tree]
    exact t.converts.weaken (by decide)
  | .sum left o right => by
    rw [Expr.tokens, Expr.tree, Tree.postorder]
    exact o.converts_binary left.converts right.converts

theorem Term.converts : ∀ t : Term, Converts 2 t.tokens t.tree.postorder
  | .factor f => by
    rw [Term.tokens, Term.tree]
    exact f.converts.weaken (by decide)
  | .product left o right => by
    rw [Term.tokens, Term.tree, Tree.postorder]
    exact o.converts_binary left.converts right.converts

theorem Factor.converts : ∀ f : Factor, Converts 3 f.tokens f.tree.postorder
  | .number value => by
    rw [Factor.tokens, Factor.tree, Tree.postorder]
    exact .number value
  | .group e => by
    rw [Factor.tokens, Factor.tree]
    exact e.converts.group
  | .signed o f => by
    rw [Factor.tokens, Factor.tree, Tree.postorder]
    exact f.converts.signed o.sign?_operator

end

/-- **The tokens of a derivation become those of its tree**, every operator after its operands. -/
theorem Expr.toReversePolish_tokens (e : Expr) :
    toReversePolish e.tokens = .ok e.tree.postorder :=
  e.converts.toReversePolish_eq

theorem Expr.evaluateReversePolish_tokens (e : Expr) :
    (toReversePolish e.tokens >>= evaluateReversePolish) = e.evaluate := by
  rw [e.toReversePolish_tokens]
  change evaluateReversePolish e.tree.postorder = _
  rw [evaluateReversePolish_postorder, e.evaluate_tree]

end Grammar

end DeskCalculator
