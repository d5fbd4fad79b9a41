import DeskCalculator.Proofs.Expression.Acceptance
import DeskCalculator.Proofs.Expression.Tokens

/-!
# Stages of an evaluation

An expression is scanned, converted and calculated. The kind of a rejection names the stage that the
evaluation stops at, and the text alone tells whether it gets there.

* `HasLexicalFault`, `parenthesesOf` : what is wrong with a text before any stage looks at it;
  `exists_tokenize_eq_error_iff`, `filter_isParenthesis_of_tokenize`, `unbalanced_parenthesesOf_iff` :
  how scanning and converting come upon it;
* `length_of_toReversePolish` : a conversion drops the parentheses and nothing else;
* `Stage`, `FailsAt` : where an evaluation stops; `exists_failsAt` : each one with a fault does so;
  `exists_isRejected_iff` : the kind names the stage;
* `exists_failsAt_scanning_iff`, `exists_failsAt_converting_iff`, `isConvertible_iff` : the stages by
  the text alone.
-/

namespace DeskCalculator

/-! ## Faults of a text -/

/-- Some lexeme of the text is at fault. -/
def HasLexicalFault (s : List Char) : Prop :=
  ∃ ls, SplitsInto (withoutBlanks s) ls ∧ ∃ l ∈ ls, ∃ fault report, l.Fails fault report

/-- The parenthesis that a character is. -/
def parenthesis? : Char → Option Token
  | '(' => some .opening
  | ')' => some .closing
  | _ => none

/-- The parentheses of a text. -/
def parenthesesOf (s : List Char) : List Token := s.filterMap parenthesis?

variable {s : List Char} {tokens output : List Token}

theorem exists_tokenize_eq_error_iff :
    (∃ fault, tokenize s = .error fault) ↔ HasLexicalFault s := by
  constructor
  · rintro ⟨fault, h⟩
    have hsplit := splitsInto_lexemes (withoutBlanks s)
    obtain ⟨before, l, after, report, hls, -, hfails, -⟩ := hsplit.tokenize_eq_error_iff.1 h
    exact ⟨_, hsplit, l, hls ▸ by simp, fault, report, hfails⟩
  · rintro ⟨ls, hsplit, l, hl, fault, report, hfails⟩
    cases h : tokenize s with
    | error fault => exact ⟨fault, rfl⟩
    | ok tokens =>
      obtain ⟨t, -, ht⟩ := exists_mem_of_mapM_eq_ok (hsplit.tokenize_eq ▸ h) hl
      rw [Lexeme.token_of_fails hfails (hsplit.ofClass l hl).2] at ht
      cases ht

theorem not_hasLexicalFault (h : tokenize s = .ok tokens) : ¬HasLexicalFault s := by
  intro hfault
  obtain ⟨fault, herror⟩ := exists_tokenize_eq_error_iff.2 hfault
  rw [h] at herror
  cases herror

theorem exists_tokenize_of_not_hasLexicalFault (h : ¬HasLexicalFault s) :
    ∃ tokens, tokenize s = .ok tokens := by
  cases htokens : tokenize s with
  | ok tokens => exact ⟨tokens, rfl⟩
  | error fault => exact absurd (exists_tokenize_eq_error_iff.1 ⟨fault, htokens⟩) h

/-- A blank text is one without tokens. -/
theorem tokens_eq_nil_iff (h : tokenize s = .ok tokens) : tokens = [] ↔ isBlankText s = true := by
  constructor
  · intro hnil
    by_contra hblank
    exact tokens_ne_nil_of_tokenize (Bool.not_eq_true _ ▸ hblank) h hnil
  · intro hblank
    have hnone : withoutBlanks s = [] := by
      simpa [withoutBlanks, List.filter_eq_nil_iff, isBlankText] using hblank
    rw [tokenize, hnone] at h
    exact (Except.ok.inj h).symm

/-! ## Parentheses of a text -/

theorem parenthesis?_of_isBlank {c : Char} (h : isBlank c = true) : parenthesis? c = none := by
  unfold parenthesis?
  split
  · cases h
  · cases h
  · rfl

theorem parenthesesOf_withoutBlanks (s : List Char) :
    parenthesesOf (withoutBlanks s) = parenthesesOf s := by
  unfold parenthesesOf withoutBlanks
  rw [List.filterMap_filter]
  refine List.filterMap_congr fun c _ => ?_
  cases h : isBlank c with
  | false => rfl
  | true => exact (parenthesis?_of_isBlank h).symm

theorem parenthesis?_of_isNumberChar {c : Char} (h : isNumberChar c = true) :
    parenthesis? c = none := by
  unfold parenthesis?
  split
  · cases h
  · cases h
  · rfl

theorem parenthesis?_of_ofChar? {c : Char} {o : Operator} (h : Operator.ofChar? c = some o) :
    parenthesis? c = none := by
  unfold parenthesis?
  split
  · cases h
  · cases h
  · rfl

/-- The token of a lexeme is a parenthesis where the lexeme is one. -/
theorem parenthesesOf_chars {l : Lexeme} {t : Token} (hl : ∀ c ∈ l.chars, isNumberChar c = l.isRun)
    (h : l.token = .ok t) : parenthesesOf l.chars = [t].filter Token.isParenthesis := by
  rcases Lexeme.of_token h with ⟨cs, n, rfl, -, rfl⟩ | ⟨rfl, rfl⟩ | ⟨rfl, rfl⟩ | ⟨c, o, rfl, ho, rfl⟩
  · exact List.filterMap_eq_nil_iff.2 fun c hc => parenthesis?_of_isNumberChar (hl c hc)
  · rfl
  · rfl
  · exact List.filterMap_eq_nil_iff.2
      (List.forall_mem_singleton.2 (parenthesis?_of_ofChar? ho))

/-- Scanning keeps the parentheses of a text, in their order. -/
theorem filter_isParenthesis_of_tokenize (h : tokenize s = .ok tokens) :
    tokens.filter Token.isParenthesis = parenthesesOf s := by
  have hsplit := splitsInto_lexemes (withoutBlanks s)
  have hclass := hsplit.ofClass
  have hall := forall₂_of_mapM_eq_ok (hsplit.tokenize_eq ▸ h)
  rw [← parenthesesOf_withoutBlanks, ← hsplit.flatten]
  generalize lexemes (withoutBlanks s) = ls at hclass hall ⊢
  clear hsplit h
  induction hall with
  | nil => rfl
  | @cons l t ls tokens hl _ ih =>
    obtain ⟨hfirst, hrest⟩ := List.forall_mem_cons.1 hclass
    have hhead := parenthesesOf_chars hfirst.2 hl
    unfold parenthesesOf at ih hhead ⊢
    rw [List.map_cons, List.flatten_cons, List.filterMap_append, hhead, ← ih hrest,
      ← List.filter_append, List.singleton_append]

theorem closes_filter_isParenthesis {depth : Nat} {tokens : List Token} :
    Closes depth (tokens.filter Token.isParenthesis) ↔ Closes depth tokens := by
  induction tokens generalizing depth with
  | nil => rfl
  | cons t tokens ih =>
    cases t with
    | number value => exact ih
    | op o => exact ih
    | opening => exact ih
    | closing =>
      cases depth with
      | zero => rfl
      | succ depth => exact ih

/-- The parentheses of a text are unbalanced where those of its tokens are. -/
theorem unbalanced_parenthesesOf_iff (h : tokenize s = .ok tokens) :
    Unbalanced (parenthesesOf s) ↔ Unbalanced tokens := by
  rw [← filter_isParenthesis_of_tokenize h, ← not_iff_not, ← closes_zero_iff, ← closes_zero_iff]
  exact closes_filter_isParenthesis

theorem Token.isParenthesis_inPosition (previous : Option Token) (t : Token) :
    (t.inPosition previous).isParenthesis = t.isParenthesis := by
  cases t <;> rfl

theorem length_withoutParentheses_positioned (previous : Option Token) (tokens : List Token) :
    (withoutParentheses (positioned previous tokens)).length =
      (withoutParentheses tokens).length := by
  induction tokens generalizing previous with
  | nil => rfl
  | cons t tokens ih =>
    unfold withoutParentheses at ih ⊢
    rw [positioned, List.filter_cons, List.filter_cons, Token.isParenthesis_inPosition]
    split
    · rw [List.length_cons, List.length_cons, ih]
    · exact ih _

/-- A conversion drops the parentheses and nothing else. -/
theorem length_of_toReversePolish (h : toReversePolish tokens = .ok output) :
    tokens.length = output.length + (tokens.filter Token.isParenthesis).length := by
  rw [(output_perm_positioned h).length_eq, length_withoutParentheses_positioned, Nat.add_comm]
  exact List.length_eq_length_filter_add Token.isParenthesis

/-! ## Where an evaluation stops -/

/-- What an expression goes through. -/
inductive Stage
  | scanning
  | converting
  | calculating
  deriving DecidableEq

/-- The kinds of rejection that come from a stage. -/
def Stage.kinds : Stage → List Kind
  | .scanning => [.invalidNumber, .numberTooLarge, .unexpectedCharacter]
  | .converting => [.mismatchedParentheses]
  | .calculating => [.invalidExpression, .divisionByZero, .resultNotFinite]

/-- The stages share no kind. -/
theorem Stage.eq_of_mem_kinds {a b : Stage} {kind : Kind} (ha : kind ∈ a.kinds)
    (hb : kind ∈ b.kinds) : a = b := by
  cases a <;> cases b <;> first | rfl | (cases kind <;> simp [kinds] at ha hb)

/-- The evaluation stops with a fault, at a stage that it gets to. -/
inductive FailsAt (s : List Char) (fault : Fault) : Stage → Prop
  | scanning (h : tokenize s = .error fault) : FailsAt s fault .scanning
  | converting {tokens : List Token} (htokens : tokenize s = .ok tokens) (hne : tokens ≠ [])
      (h : toReversePolish tokens = .error fault) : FailsAt s fault .converting
  | calculating {tokens output : List Token} (htokens : tokenize s = .ok tokens) (hne : tokens ≠ [])
      (houtput : toReversePolish tokens = .ok output)
      (h : evaluateReversePolish output = .error fault) : FailsAt s fault .calculating

variable {fault : Fault} {stage : Stage} {report : Report}

theorem evaluate_of_ne_nil (h : tokenize s = .ok tokens) (hne : tokens ≠ []) :
    evaluate s = (toReversePolish tokens >>= evaluateReversePolish) :=
  evaluate_of_tokenize (Bool.eq_false_iff.2 fun hblank => hne ((tokens_eq_nil_iff h).2 hblank)) h

theorem FailsAt.evaluate (h : FailsAt s fault stage) : evaluate s = .error fault := by
  cases h with
  | scanning h =>
    rw [DeskCalculator.evaluate, h]
    rfl
  | converting htokens hne h =>
    rw [evaluate_of_ne_nil htokens hne, h]
    rfl
  | calculating htokens hne houtput h =>
    rw [evaluate_of_ne_nil htokens hne, houtput]
    exact h

theorem exists_failsAt (h : evaluate s = .error fault) : ∃ stage, FailsAt s fault stage := by
  rcases bind_eq_error.1 h with h | ⟨tokens, htokens, h⟩
  · exact ⟨_, .scanning h⟩
  · split at h
    · cases h
    · rename_i hne
      rw [List.isEmpty_iff] at hne
      rcases bind_eq_error.1 h with h | ⟨output, houtput, h⟩
      · exact ⟨_, .converting htokens hne h⟩
      · exact ⟨_, .calculating htokens hne houtput h⟩

theorem fault_of_evaluateReversePolish (h : evaluateReversePolish tokens = .error fault) :
    fault = .invalidExpression ∨ (∃ t, fault = .unexpectedToken t) ∨ fault = .divisionByZero ∨
      fault = .resultNotFinite := by
  rcases bind_eq_error.1 h with h | ⟨stack, -, h⟩
  · obtain ⟨t, -, mid, hstep⟩ := exists_of_foldlM_eq_error h
    rcases fault_of_stepOperands hstep with rfl | rfl | hfault
    · exact .inl rfl
    · exact .inr (.inl ⟨t, rfl⟩)
    · exact .inr (.inr hfault)
  · split at h
    · cases h
    · exact .inl (Except.error.inj h).symm

theorem Kind.kind_report (kind : Kind) (detail : Option String) :
    (kind.report detail).kind = kind := by
  unfold report
  dsimp only
  split <;> rfl

theorem FailsAt.kind_mem (h : FailsAt s fault stage) (hreport : fault.report? = some report) :
    report.kind ∈ stage.kinds := by
  cases h with
  | scanning h =>
    rcases fault_of_tokenize h with ⟨run, rfl⟩ | rfl | ⟨c, rfl⟩ <;>
      obtain rfl := Option.some.inj hreport <;> simp [Kind.kind_report, Stage.kinds]
  | converting _ _ h =>
    obtain rfl := fault_of_toReversePolish h
    obtain rfl := Option.some.inj hreport
    simp [Kind.kind_report, Stage.kinds]
  | calculating _ _ _ h =>
    rcases fault_of_evaluateReversePolish h with rfl | ⟨t, rfl⟩ | rfl | rfl <;>
      obtain rfl := Option.some.inj hreport <;> simp [Kind.kind_report, Stage.kinds]

/-- The expression is rejected, and this is what users are told. -/
def IsRejected (s : List Char) (report : Report) : Prop :=
  ∃ fault, evaluate s = .error fault ∧ fault.report? = some report

/-- The kind of a rejection names the stage. -/
theorem exists_isRejected_iff (s : List Char) (stage : Stage) :
    (∃ report, IsRejected s report ∧ report.kind ∈ stage.kinds) ↔
      ∃ fault, FailsAt s fault stage := by
  constructor
  · rintro ⟨report, ⟨fault, h, hreport⟩, hkind⟩
    obtain ⟨stage', hfails⟩ := exists_failsAt h
    obtain rfl := Stage.eq_of_mem_kinds hkind (hfails.kind_mem hreport)
    exact ⟨fault, hfails⟩
  · rintro ⟨fault, hfails⟩
    obtain ⟨report, hreport⟩ :=
      Option.isSome_iff_exists.1 (report?_isSome_of_evaluate hfails.evaluate)
    exact ⟨report, ⟨fault, hfails.evaluate, hreport⟩, hfails.kind_mem hreport⟩

theorem exists_failsAt_scanning_iff :
    (∃ fault, FailsAt s fault .scanning) ↔ HasLexicalFault s := by
  rw [← exists_tokenize_eq_error_iff]
  refine exists_congr fun fault => ⟨fun h => ?_, .scanning⟩
  cases h with
  | scanning h => exact h

theorem exists_failsAt_converting_iff : (∃ fault, FailsAt s fault .converting) ↔
    ¬HasLexicalFault s ∧ Unbalanced (parenthesesOf s) := by
  constructor
  · rintro ⟨fault, h⟩
    cases h with
    | converting htokens hne h =>
      refine ⟨not_hasLexicalFault htokens, (unbalanced_parenthesesOf_iff htokens).2 ?_⟩
      by_contra hbalanced
      obtain ⟨output, houtput⟩ := toReversePolish_of_closes (closes_zero_iff.2 hbalanced)
      rw [houtput] at h
      cases h
  · rintro ⟨hlexical, hunbalanced⟩
    obtain ⟨tokens, htokens⟩ := exists_tokenize_of_not_hasLexicalFault hlexical
    rw [unbalanced_parenthesesOf_iff htokens] at hunbalanced
    have hcloses : ¬Closes 0 tokens := fun h => closes_zero_iff.1 h hunbalanced
    have hne : tokens ≠ [] := by
      rintro rfl
      exact hcloses rfl
    exact ⟨_, .converting htokens hne (toReversePolish_of_not_closes hcloses)⟩

/-- No lexeme of the text is at fault, there is one, and the parentheses are balanced. -/
def IsConvertible (s : List Char) : Prop :=
  ¬HasLexicalFault s ∧ isBlankText s = false ∧ ¬Unbalanced (parenthesesOf s)

theorem isConvertible_iff (h : tokenize s = .ok tokens) :
    IsConvertible s ↔ tokens ≠ [] ∧ ∃ output, toReversePolish tokens = .ok output := by
  unfold IsConvertible
  rw [unbalanced_parenthesesOf_iff h, ne_eq, tokens_eq_nil_iff h, Bool.not_eq_true]
  constructor
  · rintro ⟨-, hblank, hbalanced⟩
    exact ⟨hblank, toReversePolish_of_closes (closes_zero_iff.2 hbalanced)⟩
  · rintro ⟨hblank, output, houtput⟩
    refine ⟨not_hasLexicalFault h, hblank, fun hunbalanced => ?_⟩
    rw [toReversePolish_of_not_closes fun hcloses => closes_zero_iff.1 hcloses hunbalanced]
      at houtput
    cases houtput

end DeskCalculator
