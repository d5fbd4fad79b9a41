import DeskCalculator.Expression.OperandStack
import DeskCalculator.Proofs.Runs

/-!
# What the operand stack does

* `stepOperands_sign`, `stepOperands_binary` : an operator with its operands on top;
  `of_stepOperands_op`, `of_stepOperands_op_error` : an operator that is applied has its operands on
  top;
* `surplus` : how many operands tokens leave; `length_stepOperands`, `length_foldlM_stepOperands` :
  the height of the stack keeps count of it;
* `surplus_of_evaluateReversePolish` : tokens with a value leave one operand;
* `report?_isSome_of_evaluateReversePolish` : users are told of every fault on the way.
-/

namespace DeskCalculator

/-! ## One step -/

theorem stepOperands_sign {o : Operator} (ho : o.arity = 1) (x : Binary64)
    (stack : List Binary64) :
    [Token.op o].foldlM stepOperands (x :: stack) = (· :: stack) <$> o.apply1 x := by
  simp only [List.foldlM_cons, List.foldlM_nil, stepOperands, ho, if_true]
  cases o.apply1 x <;> rfl

theorem stepOperands_binary {o : Operator} (ho : o.arity = 2) (x y : Binary64)
    (stack : List Binary64) :
    [Token.op o].foldlM stepOperands (y :: x :: stack) = (· :: stack) <$> o.apply2 x y := by
  simp only [List.foldlM_cons, List.foldlM_nil, stepOperands, ho,
    show ¬ (2 : Nat) = 1 by decide, if_false]
  cases o.apply2 x y <;> rfl

theorem Operator.arity_eq (o : Operator) : o.arity = 1 ∨ o.arity = 2 := by
  cases o <;> decide

/-- Inversion of an operator: its operands are on top, and its value takes their place. -/
theorem of_stepOperands_op {o : Operator} {stack stack' : List Binary64}
    (h : stepOperands stack (.op o) = .ok stack') :
    (o.arity = 1 ∧ ∃ x rest value,
      stack = x :: rest ∧ o.apply1 x = .ok value ∧ stack' = value :: rest) ∨
    (o.arity = 2 ∧ ∃ x y rest value,
      stack = y :: x :: rest ∧ o.apply2 x y = .ok value ∧ stack' = value :: rest) := by
  rcases o.arity_eq with ho | ho
  · simp only [stepOperands, ho, if_true] at h
    split at h
    · obtain ⟨value, hvalue, h⟩ := bind_eq_ok.1 h
      exact .inl ⟨ho, _, _, value, rfl, hvalue, (Except.ok.inj h).symm⟩
    · cases h
  · simp only [stepOperands, ho, show ¬ (2 : Nat) = 1 by decide, if_false] at h
    split at h
    · obtain ⟨value, hvalue, h⟩ := bind_eq_ok.1 h
      exact .inr ⟨ho, _, _, _, value, rfl, hvalue, (Except.ok.inj h).symm⟩
    · cases h

/-! ## Counting operands -/

/-- How many operands the token leaves, less those that it takes. -/
def Token.surplus : Token → Int
  | .number _ => 1
  | .op o => 1 - o.arity
  | _ => 0

/-- How many operands the tokens leave, less those that they take. -/
def surplus : List Token → Int
  | [] => 0
  | t :: tokens => t.surplus + surplus tokens

@[simp] theorem surplus_nil : surplus [] = 0 := rfl

@[simp] theorem surplus_cons (t : Token) (tokens : List Token) :
    surplus (t :: tokens) = t.surplus + surplus tokens := rfl

theorem surplus_perm {a b : List Token} (h : a.Perm b) : surplus a = surplus b := by
  induction h with
  | nil => rfl
  | cons t _ ih => rw [surplus_cons, surplus_cons, ih]
  | swap t u tokens =>
    simp only [surplus_cons]
    omega
  | trans _ _ ih₁ ih₂ => exact ih₁.trans ih₂

theorem length_stepOperands {stack stack' : List Binary64} {t : Token}
    (h : stepOperands stack t = .ok stack') :
    (stack'.length : Int) = stack.length + t.surplus := by
  cases t with
  | number value =>
    obtain rfl := Except.ok.inj h
    simp [Token.surplus]
  | op o =>
    rcases of_stepOperands_op h with ⟨ho, x, rest, value, rfl, -, rfl⟩ |
      ⟨ho, x, y, rest, value, rfl, -, rfl⟩
    · simp [Token.surplus, ho]
    · simp only [Token.surplus, ho, List.length_cons]
      omega
  | opening => cases h
  | closing => cases h

theorem length_foldlM_stepOperands {stack stack' : List Binary64} {tokens : List Token}
    (h : tokens.foldlM stepOperands stack = .ok stack') :
    (stack'.length : Int) = stack.length + surplus tokens := by
  induction tokens generalizing stack with
  | nil =>
    obtain rfl := Except.ok.inj h
    simp
  | cons t tokens ih =>
    obtain ⟨mid, hstep, h⟩ := foldlM_cons_eq_ok.1 h
    have hhead := length_stepOperands hstep
    have hrest := ih h
    rw [surplus_cons]
    omega

theorem foldlM_of_evaluateReversePolish {tokens : List Token} {value : Binary64}
    (h : evaluateReversePolish tokens = .ok value) :
    tokens.foldlM stepOperands [] = .ok [value] := by
  obtain ⟨stack, hrun, h⟩ := bind_eq_ok.1 h
  split at h
  · rw [hrun, Except.ok.inj h]
  · cases h

/-- Tokens with a value leave one operand, as many as an expression does. -/
theorem surplus_of_evaluateReversePolish {tokens : List Token} {value : Binary64}
    (h : evaluateReversePolish tokens = .ok value) : surplus tokens = 1 := by
  have hlength := length_foldlM_stepOperands (foldlM_of_evaluateReversePolish h)
  simp only [List.length_cons, List.length_nil] at hlength
  omega

/-! ## Faults -/

theorem Operator.fault_of_checked {value : Binary64} {fault : Fault}
    (h : Operator.checked value = .error fault) : fault = .resultNotFinite := by
  unfold Operator.checked at h
  split at h
  · cases h
  · exact (Except.error.inj h).symm

theorem Operator.fault_of_apply2 {o : Operator} {x y : Binary64} {fault : Fault}
    (h : o.apply2 x y = .error fault) : fault = .divisionByZero ∨ fault = .resultNotFinite := by
  unfold Operator.apply2 at h
  split at h
  · exact .inl (Except.error.inj h).symm
  · exact .inr (Operator.fault_of_checked h)

/-- Inversion of an operator that faults: operands are missing, or it cannot be applied to them. -/
theorem of_stepOperands_op_error {o : Operator} {stack : List Binary64} {fault : Fault}
    (h : stepOperands stack (.op o) = .error fault) :
    fault = .invalidExpression ∨
    (o.arity = 1 ∧ ∃ x rest, stack = x :: rest ∧ o.apply1 x = .error fault) ∨
    (o.arity = 2 ∧ ∃ x y rest, stack = y :: x :: rest ∧ o.apply2 x y = .error fault) := by
  rcases o.arity_eq with ho | ho
  · simp only [stepOperands, ho, if_true] at h
    split at h
    · rcases bind_eq_error.1 h with h | ⟨value, -, h⟩
      · exact .inr (.inl ⟨ho, _, _, rfl, h⟩)
      · cases h
    · exact .inl (Except.error.inj h).symm
  · simp only [stepOperands, ho, show ¬ (2 : Nat) = 1 by decide, if_false] at h
    split at h
    · rcases bind_eq_error.1 h with h | ⟨value, -, h⟩
      · exact .inr (.inr ⟨ho, _, _, _, rfl, h⟩)
      · cases h
    · exact .inl (Except.error.inj h).symm

/-- The faults that running tokens can end with. -/
theorem fault_of_stepOperands {stack : List Binary64} {t : Token} {fault : Fault}
    (h : stepOperands stack t = .error fault) :
    fault = .invalidExpression ∨ fault = .unexpectedToken t ∨ fault = .divisionByZero ∨
      fault = .resultNotFinite := by
  cases t with
  | number value => cases h
  | op o =>
    rcases of_stepOperands_op_error h with h | ⟨-, x, rest, -, h⟩ | ⟨-, x, y, rest, -, h⟩
    · exact .inl h
    · exact .inr (.inr (.inr (Operator.fault_of_checked h)))
    · exact .inr (.inr (Operator.fault_of_apply2 h))
  | opening => exact .inr (.inl (Except.error.inj h).symm)
  | closing => exact .inr (.inl (Except.error.inj h).symm)

/-- Users are told of every fault that running tokens can end with. -/
theorem report?_isSome_of_evaluateReversePolish {tokens : List Token} {fault : Fault}
    (h : evaluateReversePolish tokens = .error fault) : fault.report?.isSome = true := by
  rcases bind_eq_error.1 h with h | ⟨stack, -, h⟩
  · obtain ⟨t, -, mid, hstep⟩ := exists_of_foldlM_eq_error h
    rcases fault_of_stepOperands hstep with rfl | rfl | rfl | rfl <;> rfl
  · split at h
    · cases h
    · obtain rfl := Except.error.inj h
      rfl

end DeskCalculator
