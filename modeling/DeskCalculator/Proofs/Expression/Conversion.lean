import DeskCalculator.Expression.ReversePolish

/-!
# What the operator stack does

* `Token.makesWay` : whether a stacked token goes to the output before an incoming operator;
  `unwind_op` : an operator takes all tokens at the top that make way for it, and never fails;
* `closeGroup_append`, `closeGroup_of_not_mem` : a closing parenthesis takes what is stacked above
  the last opening one, and fails only if there is none;
* `flush_of_not_mem`, `flush_of_mem` : the end takes everything, and fails only on an opening
  parenthesis;
* `step_number`, `step_opening`, `step_closing`, `step_op` : one step for each kind of token.
-/

namespace DeskCalculator

/-! ## Operators at the top -/

/-- Whether a stacked token goes to the output before an incoming operator. -/
def Token.makesWay (incoming : Operator) : Token → Bool
  | .op top => top.yieldsTo incoming
  | _ => false

theorem Token.yieldsTo_op (top : Token) (o : Operator) :
    top.yieldsTo (.op o) = .ok (top.makesWay o) := by
  cases top <;> rfl

theorem unwind_op (o : Operator) (output stack : List Token) :
    unwind (.op o) output stack =
      .ok ((stack.takeWhile (·.makesWay o)).reverse ++ output, stack.dropWhile (·.makesWay o)) := by
  induction stack generalizing output with
  | nil => rfl
  | cons top stack ih =>
    rw [unwind, Token.yieldsTo_op]
    cases h : top.makesWay o
    · simp [h]
    · simp [h, ih]

theorem Operator.yieldsTo_of_le {top incoming : Operator} (hl : incoming.associativity = .left)
    (h : incoming.precedence ≤ top.precedence) : top.yieldsTo incoming = true := by
  rcases Nat.lt_or_eq_of_le h with h | h <;> simp [yieldsTo, hl, h]

theorem Operator.not_yieldsTo_of_lt {top incoming : Operator}
    (h : top.precedence < incoming.precedence) : top.yieldsTo incoming = false := by
  simp [yieldsTo]
  omega

theorem Operator.not_yieldsTo_sign {top incoming : Operator} (h : 3 ≤ incoming.precedence) :
    top.yieldsTo incoming = false := by
  cases incoming <;> cases top <;> first | rfl | exact absurd h (by decide)

/-! ## Parentheses -/

theorem closeGroup_append {above : List Token} (h : Token.opening ∉ above)
    (output below : List Token) :
    closeGroup output (above ++ .opening :: below) = .ok (above.reverse ++ output, below) := by
  induction above generalizing output with
  | nil => rfl
  | cons top above ih =>
    rw [List.mem_cons, not_or] at h
    rw [List.cons_append, closeGroup, ih h.2]
    · simp
    · exact Ne.symm h.1

theorem closeGroup_of_not_mem {stack : List Token} (h : Token.opening ∉ stack)
    (output : List Token) : closeGroup output stack = .error .mismatchedParentheses := by
  induction stack generalizing output with
  | nil => rfl
  | cons top stack ih =>
    rw [List.mem_cons, not_or] at h
    rw [closeGroup, ih h.2]
    exact Ne.symm h.1

theorem flush_of_not_mem {stack : List Token} (h : Token.opening ∉ stack) (output : List Token) :
    flush output stack = .ok (stack.reverse ++ output) := by
  induction stack generalizing output with
  | nil => rfl
  | cons top stack ih =>
    rw [List.mem_cons, not_or] at h
    rw [flush, ih h.2]
    · simp
    · exact Ne.symm h.1

theorem flush_of_mem {stack : List Token} (h : Token.opening ∈ stack) (output : List Token) :
    flush output stack = .error .mismatchedParentheses := by
  induction stack generalizing output with
  | nil => cases h
  | cons top stack ih =>
    by_cases htop : top = .opening
    · rw [htop, flush]
    · rw [flush, ih]
      · exact (List.mem_cons.1 h).resolve_left (Ne.symm htop)
      · exact htop

/-! ## One step -/

namespace Conversion

variable (c : Conversion)

theorem step_number (value : Binary64) :
    c.step (.number value) = .ok ⟨.number value :: c.output, c.stack, some (.number value)⟩ := rfl

theorem step_opening : c.step .opening = .ok ⟨c.output, .opening :: c.stack, some .opening⟩ := rfl

theorem step_closing {above below : List Token} (h : Token.opening ∉ above)
    (hc : c.stack = above ++ .opening :: below) :
    c.step .closing = .ok ⟨above.reverse ++ c.output, below, some .closing⟩ := by
  rw [step, hc, closeGroup_append h]
  rfl

theorem step_closing_of_not_mem (h : Token.opening ∉ c.stack) :
    c.step .closing = .error .mismatchedParentheses := by
  rw [step, closeGroup_of_not_mem h]
  rfl

theorem step_op (o : Operator) :
    c.step (.op o) = .ok
      ⟨(c.stack.takeWhile (·.makesWay (o.inPosition c.previous))).reverse ++ c.output,
        .op (o.inPosition c.previous) ::
          c.stack.dropWhile (·.makesWay (o.inPosition c.previous)),
        some (.op o)⟩ := by
  rw [step, unwind_op]
  rfl

/-! ## Runs -/

theorem foldlM_step_cons {c c' : Conversion} {t : Token} (h : c.step t = .ok c')
    (rest : List Token) : (t :: rest).foldlM step c = rest.foldlM step c' := by
  rw [List.foldlM_cons, h]
  rfl

theorem foldlM_step_append {c c' : Conversion} {tokens : List Token}
    (h : tokens.foldlM step c = .ok c') (rest : List Token) :
    (tokens ++ rest).foldlM step c = rest.foldlM step c' := by
  rw [List.foldlM_append, h]
  rfl

end Conversion

end DeskCalculator
