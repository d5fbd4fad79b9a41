import DeskCalculator.Proofs.Expression.Acceptance

/-!
# Subexpressions in parentheses

* `stepOperands_append`, `foldlM_stepOperands_append` : what tokens do to a stack they also do above
  other operands; `evaluateReversePolish_operand` : so tokens with a value may be replaced by it;
* `Conversion.inside` : a conversion above an opening parenthesis of another one; `step_inside`,
  `foldlM_step_inside` : there it goes on as it does alone; `foldlM_step_group` : at the closing
  parenthesis its output has been put behind that of the other one;
* `Conversion.behind` : a conversion with more output before its own; `step_behind`,
  `foldlM_step_behind`, `finish_behind` : earlier output is never looked at;
* `evaluate_group` : parentheses around an expression with a value stand for the value;
  `evaluate_group_congr` : so it can be replaced by any other expression of that value.
-/

namespace DeskCalculator

/-! ## Operands below -/

theorem stepOperands_append {stack stack' : List Binary64} {t : Token}
    (h : stepOperands stack t = .ok stack') (below : List Binary64) :
    stepOperands (stack ++ below) t = .ok (stack' ++ below) := by
  cases t with
  | number value =>
    obtain rfl := Except.ok.inj h
    rfl
  | op o =>
    rcases of_stepOperands_op h with ⟨ho, x, rest, value, rfl, hvalue, rfl⟩ |
      ⟨ho, x, y, rest, value, rfl, hvalue, rfl⟩
    · simp only [List.cons_append, stepOperands, ho, if_true, hvalue]
      rfl
    · simp only [List.cons_append, stepOperands, ho, show ¬ (2 : Nat) = 1 by decide, if_false,
        hvalue]
      rfl
  | opening => cases h
  | closing => cases h

theorem foldlM_stepOperands_append {stack stack' : List Binary64} {tokens : List Token}
    (h : tokens.foldlM stepOperands stack = .ok stack') (below : List Binary64) :
    tokens.foldlM stepOperands (stack ++ below) = .ok (stack' ++ below) := by
  induction tokens generalizing stack with
  | nil =>
    obtain rfl := Except.ok.inj h
    rfl
  | cons t tokens ih =>
    obtain ⟨mid, hstep, h⟩ := foldlM_cons_eq_ok.1 h
    exact foldlM_cons_eq_ok.2 ⟨mid ++ below, stepOperands_append hstep below, ih h⟩

/-- Among other tokens, those with a value do what the value does. -/
theorem evaluateReversePolish_operand {tokens : List Token} {value : Binary64}
    (h : evaluateReversePolish tokens = .ok value) (before after : List Token) :
    evaluateReversePolish (before ++ (tokens ++ after)) =
      evaluateReversePolish (before ++ .number value :: after) := by
  have hrun := foldlM_of_evaluateReversePolish h
  have hstep : ∀ stack : List Binary64,
      (tokens ++ after).foldlM stepOperands stack =
        (Token.number value :: after).foldlM stepOperands stack := by
    intro stack
    have habove := foldlM_stepOperands_append hrun stack
    rw [List.nil_append] at habove
    rw [List.foldlM_append, habove]
    rfl
  unfold evaluateReversePolish
  rw [List.foldlM_append, List.foldlM_append, funext hstep]

/-! ## Earlier output -/

namespace Conversion

/-- The conversion with more output before its own. -/
def behind (c : Conversion) (earlier : List Token) : Conversion :=
  ⟨c.output ++ earlier, c.stack, c.previous⟩

theorem step_behind (c : Conversion) (t : Token) (earlier : List Token) :
    (c.behind earlier).step t = (·.behind earlier) <$> c.step t := by
  cases t with
  | number value => rfl
  | opening => rfl
  | closing =>
    by_cases hmem : Token.opening ∈ c.stack
    · obtain ⟨above, below, hstack, habove⟩ := List.eq_append_cons_of_mem hmem
      have hbehind : (c.behind earlier).stack = above ++ .opening :: below := hstack
      rw [step_closing _ habove hbehind, step_closing _ habove hstack]
      show Except.ok _ = Except.ok _
      simp only [behind, List.append_assoc]
    · rw [step_closing_of_not_mem _ hmem]
      have hbehind : Token.opening ∉ (c.behind earlier).stack := hmem
      rw [step_closing_of_not_mem _ hbehind]
      rfl
  | op o =>
    rw [step_op, step_op]
    show Except.ok _ = Except.ok _
    simp only [behind, List.append_assoc]

theorem foldlM_step_behind (c : Conversion) (tokens earlier : List Token) :
    tokens.foldlM step (c.behind earlier) = (·.behind earlier) <$> tokens.foldlM step c := by
  induction tokens generalizing c with
  | nil => rfl
  | cons t tokens ih =>
    rw [List.foldlM_cons, List.foldlM_cons, step_behind]
    cases c.step t with
    | error fault => rfl
    | ok next => exact ih next

theorem finish_behind (c : Conversion) (earlier : List Token) :
    (c.behind earlier).finish = (earlier.reverse ++ ·) <$> c.finish := by
  by_cases hmem : Token.opening ∈ c.stack
  · have hbehind : Token.opening ∈ (c.behind earlier).stack := hmem
    rw [finish, finish, flush_of_mem hmem, flush_of_mem hbehind]
    rfl
  · have hbehind : Token.opening ∉ (c.behind earlier).stack := hmem
    rw [finish, finish, flush_of_not_mem hmem, flush_of_not_mem hbehind]
    show Except.ok _ = Except.ok _
    simp only [behind, List.reverse_append, List.append_assoc]

/-! ## Conversions inside others -/

/-- The conversion above an opening parenthesis of an outer one, with its output behind that one's.
-/
def inside (outer c : Conversion) : Conversion :=
  ⟨c.output ++ outer.output, c.stack ++ .opening :: outer.stack,
    some (c.previous.getD .opening)⟩

theorem inPosition_inside (o : Operator) (outer c : Conversion) :
    o.inPosition (outer.inside c).previous = o.inPosition c.previous := by
  unfold Operator.inPosition inside
  cases c.previous <;> rfl

/-- No operator moves an opening parenthesis, nor anything below it. -/
theorem takeWhile_makesWay_append (o : Operator) (above below : List Token) :
    (above ++ .opening :: below).takeWhile (·.makesWay o) = above.takeWhile (·.makesWay o) ∧
      (above ++ .opening :: below).dropWhile (·.makesWay o) =
        above.dropWhile (·.makesWay o) ++ .opening :: below := by
  have hopening : Token.opening.makesWay o = false := rfl
  induction above with
  | nil => simp [hopening]
  | cons top above ih =>
    cases htop : top.makesWay o
    · simp [htop]
    · simpa [htop] using ih

theorem step_inside {c c' : Conversion} {t : Token} (h : c.step t = .ok c') (outer : Conversion) :
    (outer.inside c).step t = .ok (outer.inside c') := by
  cases t with
  | number value =>
    obtain rfl := Except.ok.inj h
    rfl
  | opening =>
    obtain rfl := Except.ok.inj h
    rfl
  | closing =>
    obtain ⟨above, below, habove, hstack, rfl⟩ := of_step_closing h
    have hinside : (outer.inside c).stack =
        above ++ .opening :: (below ++ .opening :: outer.stack) := by
      simp only [inside, hstack, List.append_assoc, List.cons_append]
    rw [step_closing _ habove hinside]
    simp only [inside, List.append_assoc, Option.getD_some]
  | op o =>
    rw [step_op] at h
    obtain rfl := Except.ok.inj h
    obtain ⟨htake, hdrop⟩ :=
      takeWhile_makesWay_append (o.inPosition c.previous) c.stack outer.stack
    rw [step_op, inPosition_inside]
    show Except.ok (Conversion.mk _ _ _) = Except.ok (Conversion.mk _ _ _)
    simp only [inside, htake, hdrop, List.append_assoc, List.cons_append, Option.getD_some]

theorem foldlM_step_inside {c c' : Conversion} {tokens : List Token}
    (h : tokens.foldlM step c = .ok c') (outer : Conversion) :
    tokens.foldlM step (outer.inside c) = .ok (outer.inside c') := by
  induction tokens generalizing c with
  | nil =>
    obtain rfl := Except.ok.inj h
    rfl
  | cons t tokens ih =>
    obtain ⟨next, hstep, h⟩ := foldlM_cons_eq_ok.1 h
    exact foldlM_cons_eq_ok.2 ⟨outer.inside next, step_inside hstep outer, ih h⟩

/-- The conversion after a group, without its output. -/
def afterGroup (outer : Conversion) : Conversion := ⟨[], outer.stack, some .closing⟩

/-- Tokens that have an output by themselves put it behind that of any conversion, when they are
read in parentheses, and leave nothing else. -/
theorem foldlM_step_group {inner output : List Token} (h : toReversePolish inner = .ok output)
    (outer : Conversion) :
    (.opening :: (inner ++ [.closing])).foldlM step outer =
      .ok (outer.afterGroup.behind (output.reverse ++ outer.output)) := by
  obtain ⟨c, hrun, hfinish⟩ := bind_eq_ok.1 h
  have hinside := foldlM_step_inside hrun outer
  have hstart : outer.step .opening = .ok (outer.inside .start) := rfl
  have hclosing := (outer.inside c).step_closing (opening_not_mem_of_finish hfinish) rfl
  rw [foldlM_step_cons hstart, foldlM_step_append hinside, foldlM_step_cons hclosing,
    output_of_finish hfinish, List.reverse_reverse, List.append_assoc]
  rfl

end Conversion

/-! ## Values for groups -/

/-- The output of tokens around a group: that of the group is in the middle, and the rest does not
depend on it. -/
theorem toReversePolish_group {inner output : List Token} (h : toReversePolish inner = .ok output)
    (before after : List Token) :
    toReversePolish (before ++ .opening :: (inner ++ .closing :: after)) = (do
      let outer ← before.foldlM Conversion.step .start
      let c ← after.foldlM Conversion.step outer.afterGroup
      let rest ← c.finish
      return outer.output.reverse ++ (output ++ rest)) := by
  have hsplit : Token.opening :: (inner ++ .closing :: after) =
      (.opening :: (inner ++ [.closing])) ++ after := by
    simp
  rw [hsplit, toReversePolish, List.foldlM_append]
  cases before.foldlM Conversion.step .start with
  | error fault => rfl
  | ok outer =>
    rw [ok_bind, ok_bind, Conversion.foldlM_step_append (Conversion.foldlM_step_group h outer),
      Conversion.foldlM_step_behind]
    cases after.foldlM Conversion.step outer.afterGroup with
    | error fault => rfl
    | ok c =>
      rw [ok_bind]
      show (c.behind _).finish = _
      rw [Conversion.finish_behind]
      cases c.finish with
      | error fault => rfl
      | ok rest =>
        show Except.ok (_ ++ rest) = Except.ok _
        rw [List.reverse_append, List.reverse_reverse, List.append_assoc]

/-- A group whose tokens have a value does what the value does. -/
theorem evaluateReversePolish_group {inner output : List Token} {value : Binary64}
    (houtput : toReversePolish inner = .ok output)
    (hvalue : evaluateReversePolish output = .ok value) (before after : List Token) :
    (toReversePolish (before ++ .opening :: (inner ++ .closing :: after)) >>=
        evaluateReversePolish) =
      (toReversePolish (before ++ .opening :: .number value :: .closing :: after) >>=
        evaluateReversePolish) := by
  have hnumber : toReversePolish [.number value] = .ok [.number value] := rfl
  have hright := toReversePolish_group hnumber before after
  rw [List.singleton_append] at hright
  rw [toReversePolish_group houtput, hright]
  cases before.foldlM Conversion.step .start with
  | error fault => rfl
  | ok outer =>
    rw [ok_bind, ok_bind]
    cases after.foldlM Conversion.step outer.afterGroup with
    | error fault => rfl
    | ok c =>
      rw [ok_bind, ok_bind]
      cases c.finish with
      | error fault => rfl
      | ok rest => exact evaluateReversePolish_operand hvalue _ _

/-! ## Expressions -/

theorem withoutBlanks_append (a b : List Char) :
    withoutBlanks (a ++ b) = withoutBlanks a ++ withoutBlanks b :=
  List.filter_append ..

/-- Around a parenthesised expression that scans, the rest is scanned by itself, from left to right.
-/
theorem tokenize_group {a : List Char} {inner : List Token} (h : tokenize a = .ok inner)
    (l r : List Char) :
    tokenize (l ++ '(' :: (a ++ ')' :: r)) = (do
      let before ← tokenize l
      let after ← tokenize r
      return before ++ .opening :: (inner ++ .closing :: after)) := by
  have hblanks : withoutBlanks (l ++ '(' :: (a ++ ')' :: r)) =
      withoutBlanks l ++ '(' :: (withoutBlanks a ++ ')' :: withoutBlanks r) := by
    have hopening : ∀ s, withoutBlanks ('(' :: s) = '(' :: withoutBlanks s := fun _ => rfl
    have hclosing : ∀ s, withoutBlanks (')' :: s) = ')' :: withoutBlanks s := fun _ => rfl
    rw [withoutBlanks_append, hopening, withoutBlanks_append, hclosing]
  unfold tokenize at h ⊢
  rw [hblanks, lexemes_append_mark (by decide), lexemes_append_mark (by decide), List.mapM_append,
    List.mapM_cons, List.mapM_append, List.mapM_cons, h]
  cases (lexemes (withoutBlanks l)).mapM Lexeme.token with
  | error fault => rfl
  | ok before =>
    cases (lexemes (withoutBlanks r)).mapM Lexeme.token <;> rfl

/-- Parentheses around an expression with a value stand for the value, whatever is around them. -/
theorem evaluate_group {a : List Char} {value : Binary64} (ha : isBlankText a = false)
    (h : evaluate a = .ok value) (l r : List Char) :
    evaluate (l ++ '(' :: (a ++ ')' :: r)) = (do
      let before ← tokenize l
      let after ← tokenize r
      toReversePolish (before ++ .opening :: .number value :: .closing :: after) >>=
        evaluateReversePolish) := by
  obtain ⟨inner, hinner⟩ := exists_tokens_of_evaluate h
  rw [evaluate_of_tokenize ha hinner] at h
  obtain ⟨output, houtput, hvalue⟩ := bind_eq_ok.1 h
  rw [evaluate, tokenize_group hinner]
  cases tokenize l with
  | error fault => rfl
  | ok before =>
    rw [ok_bind, ok_bind]
    cases tokenize r with
    | error fault => rfl
    | ok after =>
      have hne : ¬(before ++ .opening :: (inner ++ .closing :: after)).isEmpty = true := by simp
      show (if _ then _ else toReversePolish _ >>= evaluateReversePolish) = _
      rw [if_neg hne]
      exact evaluateReversePolish_group houtput hvalue before after

/-- **Expressions of one value can be exchanged inside parentheses**, whatever is around them, well
formed or not: the outcome stays the same value or the same fault. By themselves, parentheses change
nothing. -/
theorem evaluate_group_congr {a b : List Char} {value : Binary64} (ha : isBlankText a = false)
    (hb : isBlankText b = false) (hav : evaluate a = .ok value) (hbv : evaluate b = .ok value) :
    (∀ l r : List Char,
      evaluate (l ++ '(' :: (a ++ ')' :: r)) = evaluate (l ++ '(' :: (b ++ ')' :: r))) ∧
      evaluate ('(' :: (a ++ [')'])) = .ok value := by
  constructor
  · intro l r
    rw [evaluate_group ha hav, evaluate_group hb hbv]
  · have halone := evaluate_group ha hav [] []
    rw [List.nil_append] at halone
    rw [halone]
    rfl

/-- Also two operands side by side with their operator behind them can be exchanged for their sum,
and what is around finds a zero divisor. -/
theorem evaluate_group_congr_zero_divisor :
    evaluate "1/((2(3)+)-5)".toList = evaluate "1/(( 5.0 )-5)".toList ∧
      evaluate "1/((2(3)+)-5)".toList = .error .divisionByZero := by
  let five : Binary64 := .finite false ⟨0x4014000000000000, by decide⟩
  have hapart : evaluate "2(3)+".toList = .ok five := by decide +kernel
  have hfive : evaluate " 5.0 ".toList = .ok five := by decide +kernel
  have h := evaluate_group_congr (by decide) (by decide) hapart hfive
  exact ⟨h.1 "1/(".toList "-5)".toList, by decide +kernel⟩

end DeskCalculator
