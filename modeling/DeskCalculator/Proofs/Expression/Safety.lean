import DeskCalculator.Proofs.Binary64.Finite
import DeskCalculator.Proofs.Expression.Acceptance
import DeskCalculator.Proofs.Expression.Primitive

/-!
# Safety of evaluation

* `Token.isSound` : a finite number or an operator; `Conversion.Sound` : such tokens in the output,
  and operators or opening parentheses on the stack; `Conversion.Sound.step`,
  `Conversion.Sound.foldlM` : conversions stay sound;
* `Reaches s stack rest` : when `s` is evaluated, `stack` is reached with `rest` still to be read;
  `Reaches.sound` : every operand that is reached is finite, and what is still to be read is sound;
* `Operator.exact1_ne_nan`, `Operator.exact2_ne_nan` : so no operator makes a not-a-number;
* `isFinite_of_evaluate`, `exists_reaches_of_evaluate` : the two kinds of outcome, and where the
  second one happens; `exists_overflow_of_evaluate` : a result that is not finite;
* `evaluate_outcome` : evaluation ends with a finite value or with a rejection, and a result that is
  not finite is an overflow.
-/

namespace DeskCalculator

/-! ## Sound tokens -/

/-- A finite number or an operator. -/
def Token.isSound : Token → Bool
  | .number value => value.isFinite
  | .op _ => true
  | _ => false

/-- The output holds sound tokens, the stack operators and opening parentheses. -/
structure Conversion.Sound (c : Conversion) : Prop where
  output : ∀ t ∈ c.output, t.isSound = true
  stack : ∀ t ∈ c.stack, t = .opening ∨ ∃ o, t = .op o

/-- A token that was scanned: every number is finite. -/
def Token.isScanned : Token → Bool
  | .number value => value.isFinite
  | _ => true

theorem Lexeme.isScanned_of_token {l : Lexeme} {t : Token} (h : l.token = .ok t) :
    t.isScanned = true := by
  unfold token at h
  split at h
  · split at h
    · cases h
    · dsimp only at h
      split at h
      · rename_i hfinite
        obtain rfl := Except.ok.inj h
        exact hfinite
      · cases h
  · obtain rfl := Except.ok.inj h
    rfl
  · obtain rfl := Except.ok.inj h
    rfl
  · split at h
    · obtain rfl := Except.ok.inj h
      rfl
    · cases h

theorem isScanned_of_tokenize {s : List Char} {tokens : List Token} (h : tokenize s = .ok tokens) :
    ∀ t ∈ tokens, t.isScanned = true := by
  intro t ht
  obtain ⟨l, -, hl⟩ := exists_of_mem_of_mapM_eq_ok h ht
  exact Lexeme.isScanned_of_token hl

namespace Conversion.Sound

variable {c c' : Conversion}

theorem start : Conversion.start.Sound := ⟨by simp [Conversion.start], by simp [Conversion.start]⟩

/-- Stacked tokens other than opening parentheses may go to the output. -/
theorem isSound_of_mem_stack (h : c.Sound) {t : Token} (ht : t ∈ c.stack) (hne : t ≠ .opening) :
    t.isSound = true := by
  rcases h.stack t ht with rfl | ⟨o, rfl⟩
  · exact absurd rfl hne
  · rfl

theorem step {t : Token} (h : c.Sound) (ht : t.isScanned = true) (hstep : c.step t = .ok c') :
    c'.Sound := by
  cases t with
  | number value =>
    rw [step_number] at hstep
    obtain rfl := Except.ok.inj hstep
    refine ⟨?_, h.stack⟩
    intro u hu
    rcases List.mem_cons.1 hu with rfl | hu
    · exact ht
    · exact h.output u hu
  | opening =>
    rw [step_opening] at hstep
    obtain rfl := Except.ok.inj hstep
    refine ⟨h.output, ?_⟩
    intro u hu
    rcases List.mem_cons.1 hu with rfl | hu
    · exact .inl rfl
    · exact h.stack u hu
  | closing =>
    obtain ⟨above, below, habove, hstack, rfl⟩ := of_step_closing hstep
    constructor
    · intro u hu
      rcases List.mem_append.1 hu with hu | hu
      · have hmem : u ∈ above := List.mem_reverse.1 hu
        have hne : u ≠ .opening := fun heq => habove (heq ▸ hmem)
        exact h.isSound_of_mem_stack (by rw [hstack]; exact List.mem_append_left _ hmem) hne
      · exact h.output u hu
    · intro u hu
      apply h.stack
      rw [hstack]
      exact List.mem_append_right _ (List.mem_cons_of_mem _ hu)
  | op o =>
    rw [step_op] at hstep
    obtain rfl := Except.ok.inj hstep
    constructor
    · intro u hu
      rcases List.mem_append.1 hu with hu | hu
      · have hmem := List.mem_reverse.1 hu
        have hway : u.makesWay (o.inPosition c.previous) = true := List.mem_takeWhile_imp hmem
        have hne : u ≠ .opening := by
          rintro rfl
          cases hway
        exact h.isSound_of_mem_stack (List.takeWhile_subset _ hmem) hne
      · exact h.output u hu
    · intro u hu
      rcases List.mem_cons.1 hu with rfl | hu
      · exact .inr ⟨_, rfl⟩
      · exact h.stack u (List.dropWhile_subset _ hu)

theorem foldlM {tokens : List Token} (h : c.Sound) (htokens : ∀ t ∈ tokens, t.isScanned = true)
    (hrun : tokens.foldlM Conversion.step c = .ok c') : c'.Sound := by
  induction tokens generalizing c with
  | nil =>
    obtain rfl := Except.ok.inj hrun
    exact h
  | cons t tokens ih =>
    obtain ⟨next, hstep, hrun⟩ := foldlM_cons_eq_ok.1 hrun
    exact ih (h.step (htokens t List.mem_cons_self) hstep)
      (fun u hu => htokens u (List.mem_cons_of_mem t hu)) hrun

end Conversion.Sound

theorem isSound_of_toReversePolish {tokens output : List Token}
    (htokens : ∀ t ∈ tokens, t.isScanned = true) (h : toReversePolish tokens = .ok output) :
    ∀ t ∈ output, t.isSound = true := by
  obtain ⟨c, hrun, hfinish⟩ := bind_eq_ok.1 h
  have hsound := Conversion.Sound.start.foldlM htokens hrun
  have hmem := Conversion.opening_not_mem_of_finish hfinish
  intro t ht
  rw [Conversion.output_of_finish hfinish, List.mem_reverse, List.mem_append, List.mem_reverse] at ht
  rcases ht with ht | ht
  · exact hsound.isSound_of_mem_stack ht fun heq => hmem (heq ▸ ht)
  · exact hsound.output t ht

/-! ## Operators on finite operands -/

namespace Operator

theorem isFinite_of_checked {x value : Binary64} (h : checked x = .ok value) :
    value.isFinite = true := by
  unfold checked at h
  split at h
  · rename_i hfinite
    obtain rfl := Except.ok.inj h
    exact hfinite
  · cases h

theorem isFinite_of_apply2 {o : Operator} {x y value : Binary64} (h : o.apply2 x y = .ok value) :
    value.isFinite = true := by
  unfold apply2 at h
  split at h
  · cases h
  · exact isFinite_of_checked h

theorem isFinite_exact1 (o : Operator) {x : Binary64} (hx : x.isFinite = true) :
    (o.exact1 x).isFinite = true := by
  cases o with
  | neg => exact (Binary64.isFinite_neg x).trans hx
  | _ => exact hx

theorem exact2_ne_nan {o : Operator} {x y : Binary64} (hx : x.isFinite = true)
    (hy : y.isFinite = true) (hzero : ¬(o = .div ∧ y.isZero = true)) : o.exact2 x y ≠ .nan := by
  have hne : x ≠ .nan := by
    rintro rfl
    cases hx
  cases o with
  | add => exact Binary64.add_ne_nan hx hy
  | sub => exact Binary64.sub_ne_nan hx hy
  | mul => exact Binary64.mul_ne_nan hx hy
  | div =>
    have hy0 : y.isZero = false := by simpa using hzero
    exact Binary64.div_ne_nan hx hy hy0
  | pos => exact hne
  | neg => exact hne

end Operator

/-! ## Stacks that are reached -/

/-- When the expression is evaluated, the stack is reached with the tokens still to be read. -/
inductive Reaches (s : List Char) : List Binary64 → List Token → Prop
  | start {tokens output : List Token} (htokens : tokenize s = .ok tokens)
      (houtput : toReversePolish tokens = .ok output) : Reaches s [] output
  | step {stack stack' : List Binary64} {t : Token} {rest : List Token}
      (h : Reaches s stack (t :: rest)) (hstep : stepOperands stack t = .ok stack') :
      Reaches s stack' rest

namespace Reaches

variable {s : List Char} {stack stack' : List Binary64}

theorem foldlM {tokens rest : List Token} (h : Reaches s stack (tokens ++ rest))
    (hrun : tokens.foldlM stepOperands stack = .ok stack') : Reaches s stack' rest := by
  induction tokens generalizing stack with
  | nil =>
    obtain rfl := Except.ok.inj hrun
    exact h
  | cons t tokens ih =>
    obtain ⟨mid, hstep, hrun⟩ := foldlM_cons_eq_ok.1 hrun
    exact ih (h.step hstep) hrun

theorem sound {rest : List Token} (h : Reaches s stack rest) :
    (∀ x ∈ stack, x.isFinite = true) ∧ ∀ t ∈ rest, t.isSound = true := by
  induction h with
  | start htokens houtput =>
    exact ⟨List.forall_mem_nil _,
      isSound_of_toReversePolish (isScanned_of_tokenize htokens) houtput⟩
  | @step stack stack' t rest h hstep ih =>
    obtain ⟨hstack, hrest⟩ := ih
    refine ⟨?_, fun u hu => hrest u (List.mem_cons_of_mem t hu)⟩
    have ht := hrest t List.mem_cons_self
    cases t with
    | number value =>
      obtain rfl := Except.ok.inj hstep
      exact List.forall_mem_cons.2 ⟨ht, hstack⟩
    | op o =>
      rcases of_stepOperands_op hstep with ⟨-, x, below, value, rfl, hvalue, rfl⟩ |
        ⟨-, x, y, below, value, rfl, hvalue, rfl⟩
      · rw [List.forall_mem_cons] at hstack ⊢
        exact ⟨Operator.isFinite_of_checked hvalue, hstack.2⟩
      · rw [List.forall_mem_cons, List.forall_mem_cons] at hstack
        rw [List.forall_mem_cons]
        exact ⟨Operator.isFinite_of_apply2 hvalue, hstack.2.2⟩
    | opening => cases hstep
    | closing => cases hstep

/-- An operator that is due to be applied makes no not-a-number of its operands. -/
theorem exact1_ne_nan {o : Operator} {x : Binary64} {rest : List Token}
    (h : Reaches s (x :: stack) (.op o :: rest)) : o.exact1 x ≠ .nan := by
  have hfinite := o.isFinite_exact1 (h.sound.1 x List.mem_cons_self)
  intro hnan
  rw [hnan] at hfinite
  cases hfinite

theorem exact2_ne_nan {o : Operator} {x y : Binary64} {rest : List Token}
    (h : Reaches s (y :: x :: stack) (.op o :: rest)) (hzero : ¬(o = .div ∧ y.isZero = true)) :
    o.exact2 x y ≠ .nan := by
  have hx := h.sound.1 x (by simp)
  have hy := h.sound.1 y (by simp)
  exact Operator.exact2_ne_nan hx hy hzero

end Reaches

/-! ## Outcomes -/

theorem isFinite_of_evaluate {s : List Char} {value : Binary64} (h : evaluate s = .ok value) :
    value.isFinite = true := by
  obtain ⟨tokens, htokens, h⟩ := bind_eq_ok.1 h
  split at h
  · obtain rfl := Except.ok.inj h
    rfl
  · obtain ⟨output, houtput, hvalue⟩ := bind_eq_ok.1 h
    have hstart : Reaches s [] (output ++ []) := by
      rw [List.append_nil]
      exact .start htokens houtput
    have hend := hstart.foldlM (foldlM_of_evaluateReversePolish hvalue)
    exact hend.sound.1 value List.mem_cons_self

theorem Fault.kind_ne_general {fault : Fault} {report : Report} (h : fault.report? = some report) :
    report.kind ≠ .general := by
  cases fault <;> simp only [report?, Option.some.injEq, reduceCtorEq] at h <;> subst h <;>
    simp [Kind.report]

/-- Where a rejected expression stops: at a lexeme, at a parenthesis, at a token that is reached, or
at the end. -/
theorem exists_reaches_of_evaluate {s : List Char} {fault : Fault} (h : evaluate s = .error fault) :
    tokenize s = .error fault ∨ fault = .mismatchedParentheses ∨ fault = .invalidExpression ∨
      ∃ stack t rest, Reaches s stack (t :: rest) ∧ stepOperands stack t = .error fault := by
  rcases bind_eq_error.1 h with h | ⟨tokens, htokens, h⟩
  · exact .inl h
  split at h
  · cases h
  rcases bind_eq_error.1 h with h | ⟨output, houtput, h⟩
  · exact .inr (.inl (fault_of_toReversePolish h))
  rcases bind_eq_error.1 h with h | ⟨stack, -, h⟩
  · obtain ⟨before, t, rest, stack, rfl, hrun, hstep⟩ := exists_append_of_foldlM_eq_error h
    exact .inr (.inr (.inr ⟨stack, t, rest, (Reaches.start htokens houtput).foldlM hrun, hstep⟩))
  · split at h
    · cases h
    · exact .inr (.inr (.inl (Except.error.inj h).symm))

/-- No parenthesis is left where operands are put on a stack. -/
theorem evaluate_ne_unexpectedToken (s : List Char) (t : Token) :
    evaluate s ≠ .error (.unexpectedToken t) := by
  intro h
  rcases exists_reaches_of_evaluate h with h | h | h | ⟨stack, u, rest, hreach, hstep⟩
  · rcases fault_of_tokenize h with ⟨run, h⟩ | h | ⟨c, h⟩ <;> cases h
  · cases h
  · cases h
  · have hsound := hreach.sound.2 u List.mem_cons_self
    cases u with
    | number value => cases hstep
    | op o =>
      rcases of_stepOperands_op_error hstep with h | ⟨-, x, below, -, h⟩ | ⟨-, x, y, below, -, h⟩
      · cases h
      · cases Operator.fault_of_checked h
      · rcases Operator.fault_of_apply2 h with h | h <;> cases h
    | opening => cases hsound
    | closing => cases hsound

theorem Operator.of_apply2_resultNotFinite {o : Operator} {x y : Binary64}
    (h : o.apply2 x y = .error .resultNotFinite) :
    ¬(o = .div ∧ y.isZero = true) ∧ (o.exact2 x y).isFinite = false := by
  unfold apply2 at h
  split at h
  · cases h
  · rename_i hzero
    refine ⟨hzero, ?_⟩
    unfold checked at h
    split at h
    · cases h
    · rename_i hfinite
      simpa using hfinite

/-- A result that is not finite is an infinity, made by a binary operator of finite operands. -/
theorem exists_overflow_of_evaluate {s : List Char} (h : evaluate s = .error .resultNotFinite) :
    ∃ o x y stack rest negative, Reaches s (y :: x :: stack) (.op o :: rest) ∧ o.arity = 2 ∧
      ¬(o = .div ∧ y.isZero = true) ∧ o.exact2 x y = .infinite negative := by
  rcases exists_reaches_of_evaluate h with h | h | h | ⟨stack, t, rest, hreach, hstep⟩
  · rcases fault_of_tokenize h with ⟨run, h⟩ | h | ⟨c, h⟩ <;> cases h
  · cases h
  · cases h
  · cases t with
    | number value => cases hstep
    | opening => cases hstep
    | closing => cases hstep
    | op o =>
      rcases of_stepOperands_op_error hstep with h | ⟨-, x, below, rfl, h⟩ |
        ⟨ho, x, y, below, rfl, h⟩
      · cases h
      · have hfinite := o.isFinite_exact1 (hreach.sound.1 x List.mem_cons_self)
        have hvalue : o.apply1 x = .ok (o.exact1 x) := if_pos hfinite
        rw [hvalue] at h
        cases h
      · obtain ⟨hzero, hfinite⟩ := Operator.of_apply2_resultNotFinite h
        obtain ⟨negative, hinfinite⟩ :=
          Binary64.exists_infinite hfinite (hreach.exact2_ne_nan hzero)
        exact ⟨o, x, y, below, rest, negative, hreach, ho, hzero, hinfinite⟩

/-- **Evaluation ends with a finite value or with a rejection of one of the seven kinds.** No
primitive ever breaks down, no parenthesis is left among the tokens in reverse Polish order, every
operand that is reached is finite and no operator makes a not-a-number of them: a result that is not
finite is an overflow to an infinity. -/
theorem evaluate_outcome (s : List Char) :
    Primitive.evaluate s = Primitive.lift (evaluate s) ∧
    ((∃ value, evaluate s = .ok value ∧ value.isFinite = true) ∨
      ∃ fault report, evaluate s = .error fault ∧ fault.report? = some report ∧
        report.kind ≠ .general ∧ ∀ t, fault ≠ .unexpectedToken t) ∧
    (∀ stack rest, Reaches s stack rest → ∀ x ∈ stack, x.isFinite = true) ∧
    (∀ o x stack rest, Reaches s (x :: stack) (.op o :: rest) → o.exact1 x ≠ .nan) ∧
    (∀ o x y stack rest, Reaches s (y :: x :: stack) (.op o :: rest) →
      ¬(o = .div ∧ y.isZero = true) → o.exact2 x y ≠ .nan) ∧
    (evaluate s = .error .resultNotFinite →
      ∃ o x y stack rest negative, Reaches s (y :: x :: stack) (.op o :: rest) ∧ o.arity = 2 ∧
        ¬(o = .div ∧ y.isZero = true) ∧ o.exact2 x y = .infinite negative) := by
  refine ⟨Primitive.evaluate_eq_lift s, ?_, fun _ _ h => h.sound.1, fun _ _ _ _ h => h.exact1_ne_nan,
    fun _ _ _ _ _ h hzero => h.exact2_ne_nan hzero, exists_overflow_of_evaluate⟩
  cases h : evaluate s with
  | ok value => exact .inl ⟨value, rfl, isFinite_of_evaluate h⟩
  | error fault =>
    obtain ⟨report, hreport⟩ := Option.isSome_iff_exists.1 (report?_isSome_of_evaluate h)
    refine .inr ⟨fault, report, rfl, hreport, Fault.kind_ne_general hreport, ?_⟩
    rintro t rfl
    exact evaluate_ne_unexpectedToken s t h

/-- The product of two numbers of 200 digits overflows, on the way to a division by zero that is
never tried. -/
theorem evaluate_outcome_overflow :
    let s := ('1' :: (List.replicate 200 '0' ++ '*' :: '1' :: List.replicate 200 '0')) ++ "/0".toList
    evaluate s = .error .resultNotFinite ∧
      ∃ o x y stack rest negative, Reaches s (y :: x :: stack) (.op o :: rest) ∧ o.arity = 2 ∧
        ¬(o = .div ∧ y.isZero = true) ∧ o.exact2 x y = .infinite negative := by
  intro s
  have h : evaluate s = .error .resultNotFinite := by decide +kernel
  exact ⟨h, (evaluate_outcome s).2.2.2.2.2 h⟩

end DeskCalculator
