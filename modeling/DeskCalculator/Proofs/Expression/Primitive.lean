import DeskCalculator.Expression.Primitive
import DeskCalculator.Proofs.Expression.Conversion
import DeskCalculator.Proofs.Expression.OperandStack
import Mathlib.Data.List.TakeWhile

/-!
# Primitives never break down

* `lift_bind`, `foldlM_eq_lift`, `mapM_eq_lift` : steps that can only fault make a run that can only
  fault;
* `token_eq_lift`, `step_eq_lift`, `finish_eq_lift`, `stepOperands_eq_lift` : the three passes over
  an expression, step by step;
* `evaluate_eq_lift` : so the calculation by primitives is that of `evaluate`, with its faults and
  no breakdown.
-/

namespace DeskCalculator.Primitive

variable {α β : Type}

/-! ## Runs that can only fault -/

theorem lift_bind (x : Except Fault α) (f : α → Except Fault β) :
    lift (x >>= f) = lift x >>= fun a => lift (f a) := by
  cases x <;> rfl

theorem foldlM_eq_lift {f : β → α → Except Stop β} {g : β → α → Except Fault β}
    (h : ∀ b a, f b a = lift (g b a)) (b : β) (as : List α) :
    as.foldlM f b = lift (as.foldlM g b) := by
  induction as generalizing b with
  | nil => rfl
  | cons a as ih =>
    rw [List.foldlM_cons, List.foldlM_cons, lift_bind, h]
    exact congrArg _ (funext ih)

theorem mapM_eq_lift {f : α → Except Stop β} {g : α → Except Fault β}
    (h : ∀ a, f a = lift (g a)) (as : List α) : as.mapM f = lift (as.mapM g) := by
  induction as with
  | nil => rfl
  | cons a as ih =>
    rw [List.mapM_cons, List.mapM_cons, lift_bind, h, ih]
    cases lift (g a) with
    | error stop => rfl
    | ok b => cases as.mapM g <;> rfl

/-! ## Scanning -/

theorem mem_of_singleton_mem_writtenSymbols {c : Char}
    (h : writtenSymbols.contains (String.singleton c) = true) :
    c = '+' ∨ c = '-' ∨ c = '*' ∨ c = '/' := by
  have hmem : String.singleton c ∈ writtenSymbols := List.contains_iff_mem.1 h
  have hchars : [c] ∈ writtenSymbols.map String.toList := by
    rw [← String.toList_singleton]
    exact List.mem_map_of_mem hmem
  simpa [writtenSymbols] using hchars

theorem ofChar?_eq_none {c : Char} (h : ¬(c = '+' ∨ c = '-' ∨ c = '*' ∨ c = '/')) :
    Operator.ofChar? c = none := by
  simp only [not_or] at h
  unfold Operator.ofChar?
  split <;> simp_all

theorem token_mark {c : Char} (hopening : c ≠ '(') (hclosing : c ≠ ')') :
    (Lexeme.mark c).token = match Operator.ofChar? c with
      | some o => .ok (.op o)
      | none => .error (.unexpectedCharacter c) := by
  unfold Lexeme.token
  split
  · contradiction
  · rename_i heq
    exact absurd (Lexeme.mark.inj heq) hopening
  · rename_i heq
    exact absurd (Lexeme.mark.inj heq) hclosing
  · rename_i heq
    obtain rfl := Lexeme.mark.inj heq
    rfl

/-- Only symbols of operators are looked up. -/
theorem mark_eq_lift (c : Char) : mark c = lift (Lexeme.mark c).token := by
  by_cases hopening : c = '('
  · subst hopening
    rfl
  · by_cases hclosing : c = ')'
    · subst hclosing
      rfl
    · by_cases hwritten : c = '+' ∨ c = '-' ∨ c = '*' ∨ c = '/'
      · rcases hwritten with rfl | rfl | rfl | rfl <;> rfl
      · have hsymbol : ¬writtenSymbols.contains (String.singleton c) = true :=
          fun h => hwritten (mem_of_singleton_mem_writtenSymbols h)
        rw [mark, if_neg hopening, if_neg hclosing, if_neg hsymbol,
          token_mark hopening hclosing, ofChar?_eq_none hwritten]
        rfl

theorem token_eq_lift (l : Lexeme) : token l = lift l.token := by
  cases l with
  | run cs => rfl
  | mark c => exact mark_eq_lift c

/-! ## Converting -/

theorem signOf_eq (o : Operator) : signOf o = .ok (o.sign?.getD o) := by
  cases o <;> rfl

theorem inPosition_eq (previous : Option Token) (o : Operator) :
    inPosition previous o = .ok (o.inPosition previous) := by
  unfold inPosition Operator.inPosition
  split
  · exact signOf_eq o
  · rfl

/-- What comes in is an operator, so its precedence is known. -/
theorem yieldsTo_op (o : Operator) (top : Token) :
    yieldsTo (.op o) top = .ok (top.makesWay o) := by
  cases top <;> rfl

theorem popWhile_nil (test : Token → Except Stop Bool) (output : List Token) :
    popWhile test output [] = .ok (output, []) := by
  unfold popWhile
  rfl

theorem popWhile_cons (test : Token → Except Stop Bool) (output stack : List Token)
    (top : Token) :
    popWhile test output (top :: stack) = (do
      if ← test top then popWhile test (top :: output) stack
      else return (output, top :: stack)) := by
  conv => lhs; unfold popWhile
  rw [if_neg (show ¬(top :: stack).isEmpty = true from Bool.false_ne_true)]
  dsimp only [pop]
  cases test top with
  | error stop => rfl
  | ok passes => cases passes <;> rfl

theorem popWhile_eq_ok {test : Token → Except Stop Bool} {p : Token → Bool}
    (h : ∀ t, test t = .ok (p t)) (output stack : List Token) :
    popWhile test output stack =
      .ok ((stack.takeWhile p).reverse ++ output, stack.dropWhile p) := by
  induction stack generalizing output with
  | nil => exact popWhile_nil test output
  | cons top stack ih =>
    rw [popWhile_cons, h, ok_bind]
    cases hp : p top
    · simp [hp]
      rfl
    · simp [hp, ih]

theorem takeWhile_ne_opening {above : List Token} (h : Token.opening ∉ above)
    (below : List Token) :
    (above ++ .opening :: below).takeWhile (· != .opening) = above ∧
      (above ++ .opening :: below).dropWhile (· != .opening) = .opening :: below := by
  have habove : ∀ t ∈ above, (t != Token.opening) = true := by
    intro t ht
    have hne : t ≠ .opening := fun heq => h (heq ▸ ht)
    simpa using hne
  rw [List.takeWhile_append_of_pos habove, List.dropWhile_append_of_pos habove]
  simp

/-- Below the operators of a group that is closed there is its opening parenthesis, or a fault. -/
theorem step_eq_lift (c : Conversion) (t : Token) : step c t = lift (c.step t) := by
  cases t with
  | number value => rfl
  | opening => rfl
  | closing =>
    have hpop : popWhile (fun top => .ok (top != .opening)) c.output c.stack = _ :=
      popWhile_eq_ok (fun _ => rfl) c.output c.stack
    by_cases hmem : Token.opening ∈ c.stack
    · obtain ⟨above, below, hstack, habove⟩ := List.eq_append_cons_of_mem hmem
      obtain ⟨htake, hdrop⟩ := takeWhile_ne_opening habove below
      rw [c.step_closing habove hstack, step, hpop, hstack, htake, hdrop]
      rfl
    · have hdrop : c.stack.dropWhile (· != .opening) = [] := by
        rw [List.dropWhile_eq_nil_iff]
        intro t ht
        have hne : t ≠ .opening := fun heq => hmem (heq ▸ ht)
        simpa using hne
      rw [c.step_closing_of_not_mem hmem, step, hpop, hdrop]
      rfl
  | op o =>
    rw [c.step_op, step, inPosition_eq, ok_bind, popWhile_eq_ok (yieldsTo_op _)]
    rfl

theorem finish_eq_lift (c : Conversion) : finish c = lift c.finish := by
  unfold finish Conversion.finish
  dsimp only
  generalize c.output = output
  generalize c.stack = stack
  induction stack generalizing output with
  | nil =>
    rw [popWhile_nil]
    rfl
  | cons top stack ih =>
    rw [popWhile_cons]
    by_cases htop : top = .opening
    · rw [if_pos htop, htop]
      rfl
    · rw [if_neg htop, ok_bind, if_pos rfl, ih, flush]
      exact htop

/-! ## Evaluating -/

theorem apply1_eq_lift {o : Operator} (ho : o.arity = 1) (x : Binary64) :
    apply1 o x = lift (o.apply1 x) := by
  cases o <;> first | rfl | cases ho

theorem apply2_eq_lift {o : Operator} (ho : o.arity = 2) (x y : Binary64) :
    apply2 o x y = lift (o.apply2 x y) := by
  unfold apply2 Operator.apply2
  by_cases hzero : o = .div ∧ y.isZero = true
  · rw [if_pos hzero, if_pos hzero]
    rfl
  · rw [if_neg hzero, if_neg hzero]
    cases o with
    | div =>
      have hy : ¬y.isZero = true := fun h => hzero ⟨rfl, h⟩
      have hdiv : exact2 .div x y = .ok (x.div y) := if_neg hy
      rw [hdiv]
      rfl
    | pos => cases ho
    | neg => cases ho
    | _ => rfl

/-- An operator is applied only to operands that are there, and to no divisor of zero. -/
theorem stepOperands_eq_lift (stack : List Binary64) (t : Token) :
    stepOperands stack t = lift (DeskCalculator.stepOperands stack t) := by
  cases t with
  | number value => rfl
  | opening => rfl
  | closing => rfl
  | op o =>
    rcases o.arity_eq with ho | ho
    · simp only [stepOperands, DeskCalculator.stepOperands, if_pos ho]
      cases stack with
      | nil => rfl
      | cons x rest =>
        show (apply1 o x >>= _) = lift (o.apply1 x >>= _)
        rw [apply1_eq_lift ho, lift_bind]
        rfl
    · have hne : ¬o.arity = 1 := by omega
      simp only [stepOperands, DeskCalculator.stepOperands, if_neg hne]
      cases stack with
      | nil => rfl
      | cons y below =>
        cases below with
        | nil => rfl
        | cons x rest =>
          show (apply2 o x y >>= _) = lift (o.apply2 x y >>= _)
          rw [apply2_eq_lift ho, lift_bind]
          rfl

theorem evaluateReversePolish_eq_lift (tokens : List Token) :
    evaluateReversePolish tokens = lift (DeskCalculator.evaluateReversePolish tokens) := by
  unfold evaluateReversePolish DeskCalculator.evaluateReversePolish
  rw [foldlM_eq_lift stepOperands_eq_lift, lift_bind]
  congr 1
  funext stack
  match stack with
  | [] => rfl
  | [value] => rfl
  | _ :: _ :: _ => rfl

/-- The calculation by primitives has the value of the expression or its fault, and never breaks
down. -/
theorem evaluate_eq_lift (expression : List Char) :
    evaluate expression = lift (DeskCalculator.evaluate expression) := by
  unfold evaluate DeskCalculator.evaluate tokenize toReversePolish
  rw [mapM_eq_lift token_eq_lift, lift_bind]
  congr 1
  funext tokens
  split
  · rfl
  · rw [foldlM_eq_lift step_eq_lift, lift_bind, lift_bind]
    cases tokens.foldlM Conversion.step .start with
    | error fault => rfl
    | ok c =>
      show (finish c >>= evaluateReversePolish) = (lift c.finish >>= _)
      rw [finish_eq_lift, funext evaluateReversePolish_eq_lift]

end DeskCalculator.Primitive
