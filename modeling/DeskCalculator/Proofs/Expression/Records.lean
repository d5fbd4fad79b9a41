import DeskCalculator.Proofs.Expression.Stages

/-!
# Records of an evaluation

* `evaluatingRecord`, `tokenizedRecord`, `convertedRecord`, `rejectedRecord` : what is logged;
  `CountsTokens`, `ShowsOutput`, `TellsRejection` : what the last three are about;
* `Logs` : one record if a condition holds, and else nothing; `logs_endRecords`,
  `exists_conversionRecords`, `exists_evaluationRecords` : what each stage logs;
* `evaluationRecords_stages` : the records and the kind of a rejection name the stage, for every text.
-/

namespace DeskCalculator

variable {s : List Char} {tokens output : List Token} {fault : Fault} {stage : Stage}

/-- The record that an evaluation starts with. -/
def evaluatingRecord (s : List Char) : Record :=
  ⟨.calculator, .debug, "Evaluating expression: " ++ quoted s⟩

/-- The record of so many tokens. -/
def tokenizedRecord (s : List Char) (count : Nat) : Record :=
  ⟨.tokenizer, .debug,
    "Tokenized " ++ quoted s ++ " into " ++ toString count ++ " tokens"⟩

/-- The record of tokens in reverse Polish order. -/
def convertedRecord (output : List Token) : Record :=
  ⟨.converter, .debug, "Postfix: " ++ Token.line output⟩

/-- The record of what users are told. -/
def rejectedRecord (s : List Char) (report : Report) : Record :=
  ⟨.calculator, .info,
    "Rejected expression " ++ quoted s ++ ": " ++ report.kind.name ++ ": " ++ report.message⟩

/-- The record tells the number of tokens, of which a blank text has none. -/
def CountsTokens (s : List Char) (r : Record) : Prop :=
  ∃ tokens, tokenize s = .ok tokens ∧ (tokens = [] ↔ isBlankText s = true) ∧
    r = tokenizedRecord s tokens.length

/-- The record shows the tokens in reverse Polish order. With the parentheses of the text they are as
many as were counted. -/
def ShowsOutput (s : List Char) (r : Record) : Prop :=
  ∃ tokens output, tokenize s = .ok tokens ∧ toReversePolish tokens = .ok output ∧
    tokens.length = output.length + (parenthesesOf s).length ∧ r = convertedRecord output

/-- The record tells what users are told. -/
def TellsRejection (s : List Char) (r : Record) : Prop :=
  ∃ report, IsRejected s report ∧ r = rejectedRecord s report

/-- One record of a form if a condition holds, and else nothing. -/
def Logs (condition : Prop) (form : Record → Prop) (records : List Record) : Prop :=
  (condition → ∃ r, form r ∧ records = [r]) ∧ (¬condition → records = [])

theorem Logs.one {condition : Prop} {form : Record → Prop} {r : Record} (h : condition)
    (hform : form r) : Logs condition form [r] :=
  ⟨fun _ => ⟨r, hform, rfl⟩, fun hnot => absurd h hnot⟩

theorem Logs.none {condition : Prop} {form : Record → Prop} (h : ¬condition) :
    Logs condition form [] :=
  ⟨fun hcondition => absurd hcondition h, fun _ => rfl⟩

/-! ## The end -/

/-- The records of how an evaluation ends. -/
def endRecords (s : List Char) : List Record :=
  match evaluate s with
  | .ok _ => []
  | .error fault => rejectionRecord s fault

theorem logs_endRecords (s : List Char) :
    Logs (∃ fault, evaluate s = .error fault) (TellsRejection s) (endRecords s) := by
  unfold endRecords
  cases h : evaluate s with
  | ok value => exact .none (by simp)
  | error fault =>
    obtain ⟨report, hreport⟩ := Option.isSome_iff_exists.1 (report?_isSome_of_evaluate h)
    have hrecords : rejectionRecord s fault = [rejectedRecord s report] := by
      unfold rejectionRecord
      rw [hreport]
      rfl
    dsimp only
    rw [hrecords]
    exact .one ⟨fault, rfl⟩ ⟨report, ⟨fault, h, hreport⟩, rfl⟩

theorem FailsAt.endRecords (h : FailsAt s fault stage) :
    endRecords s = rejectionRecord s fault := by
  unfold DeskCalculator.endRecords
  rw [h.evaluate]

/-! ## Scanning and converting -/

theorem evaluationRecords_of_error (h : tokenize s = .error fault) :
    evaluationRecords s = evaluatingRecord s :: endRecords s := by
  rw [(FailsAt.scanning h).endRecords]
  unfold evaluationRecords
  rw [h]
  rfl

theorem evaluationRecords_of_tokenize (h : tokenize s = .ok tokens) : evaluationRecords s =
    evaluatingRecord s :: tokenizedRecord s tokens.length :: conversionRecords s tokens := by
  unfold evaluationRecords
  rw [h]
  rfl

theorem conversionRecords_of_nil (h : tokenize s = .ok []) :
    conversionRecords s [] = endRecords s := by
  have hvalue : evaluate s = .ok (.zero false) := by
    rw [evaluate, h]
    rfl
  unfold endRecords
  rw [hvalue]
  rfl

theorem conversionRecords_of_error (h : tokenize s = .ok tokens) (hne : tokens ≠ [])
    (hfault : toReversePolish tokens = .error fault) :
    conversionRecords s tokens = endRecords s := by
  rw [(FailsAt.converting h hne hfault).endRecords]
  unfold conversionRecords
  rw [if_neg (by simpa using hne), hfault]

theorem conversionRecords_of_output (h : tokenize s = .ok tokens) (hne : tokens ≠ [])
    (houtput : toReversePolish tokens = .ok output) :
    conversionRecords s tokens = convertedRecord output :: endRecords s := by
  have hvalue : evaluate s = evaluateReversePolish output := by
    rw [evaluate_of_ne_nil h hne, houtput]
    rfl
  unfold conversionRecords endRecords operandRecords
  rw [if_neg (by simpa using hne), houtput, hvalue]
  rfl

theorem exists_conversionRecords (h : tokenize s = .ok tokens) : ∃ converted,
    conversionRecords s tokens = converted ++ endRecords s ∧
      Logs (IsConvertible s) (ShowsOutput s) converted := by
  rw [isConvertible_iff h]
  by_cases hnil : tokens = []
  · subst hnil
    exact ⟨[], conversionRecords_of_nil h, .none fun hconvertible => hconvertible.1 rfl⟩
  · cases houtput : toReversePolish tokens with
    | error fault =>
      refine ⟨[], conversionRecords_of_error h hnil houtput, .none ?_⟩
      rintro ⟨-, output, hok⟩
      cases hok
    | ok output =>
      refine ⟨[convertedRecord output], conversionRecords_of_output h hnil houtput,
        .one ⟨hnil, output, rfl⟩ ⟨tokens, output, h, houtput, ?_, rfl⟩⟩
      rw [← filter_isParenthesis_of_tokenize h]
      exact length_of_toReversePolish houtput

theorem exists_evaluationRecords (s : List Char) : ∃ scanned converted,
    evaluationRecords s = evaluatingRecord s :: (scanned ++ (converted ++ endRecords s)) ∧
    Logs (¬HasLexicalFault s) (CountsTokens s) scanned ∧
    Logs (IsConvertible s) (ShowsOutput s) converted := by
  by_cases hlexical : HasLexicalFault s
  · obtain ⟨fault, hfault⟩ := exists_tokenize_eq_error_iff.2 hlexical
    exact ⟨[], [], evaluationRecords_of_error hfault, .none (not_not_intro hlexical),
      .none fun h => h.1 hlexical⟩
  · obtain ⟨tokens, htokens⟩ := exists_tokenize_of_not_hasLexicalFault hlexical
    obtain ⟨converted, hrecords, hconverted⟩ := exists_conversionRecords htokens
    refine ⟨[tokenizedRecord s tokens.length], converted, ?_,
      .one hlexical ⟨tokens, htokens, tokens_eq_nil_iff htokens, rfl⟩, hconverted⟩
    rw [evaluationRecords_of_tokenize htokens, hrecords]
    rfl

/-- **Records and kinds of rejection name the stage.** Evaluating a text first logs the text. Scanning
logs how many tokens there are exactly if no lexeme is at fault; then converting logs the tokens in
reverse Polish order exactly if moreover there is a lexeme and the parentheses are balanced; at last
a rejection is logged exactly if the text is rejected. So the kind is one of scanning exactly if a
lexeme is at fault, whatever else is wrong; it is that of mismatched parentheses exactly if no lexeme
is and they are unbalanced; and it is one of calculating only where the conversion was logged. -/
theorem evaluationRecords_stages (s : List Char) : ∃ scanned converted rejected,
    evaluationRecords s = evaluatingRecord s :: (scanned ++ (converted ++ rejected)) ∧
    Logs (¬HasLexicalFault s) (CountsTokens s) scanned ∧
    Logs (¬HasLexicalFault s ∧ isBlankText s = false ∧ ¬Unbalanced (parenthesesOf s))
      (ShowsOutput s) converted ∧
    Logs (∃ fault, evaluate s = .error fault) (TellsRejection s) rejected ∧
    ((∃ report, IsRejected s report ∧
      report.kind ∈ [.invalidNumber, .numberTooLarge, .unexpectedCharacter]) ↔
        HasLexicalFault s) ∧
    ((∃ report, IsRejected s report ∧ report.kind ∈ [.mismatchedParentheses]) ↔
      ¬HasLexicalFault s ∧ Unbalanced (parenthesesOf s)) ∧
    ∀ report, IsRejected s report →
      report.kind ∈ [.invalidExpression, .divisionByZero, .resultNotFinite] → converted ≠ [] := by
  obtain ⟨scanned, converted, hrecords, hscanned, hconverted⟩ := exists_evaluationRecords s
  refine ⟨scanned, converted, endRecords s, hrecords, hscanned, hconverted, logs_endRecords s,
    (exists_isRejected_iff s .scanning).trans exists_failsAt_scanning_iff,
    (exists_isRejected_iff s .converting).trans exists_failsAt_converting_iff,
    fun report hreport hkind => ?_⟩
  obtain ⟨fault, hfails⟩ := (exists_isRejected_iff s .calculating).1 ⟨report, hreport, hkind⟩
  cases hfails with
  | calculating htokens hne houtput _ =>
    obtain ⟨r, -, hone⟩ := hconverted.1 ((isConvertible_iff htokens).2 ⟨hne, _, houtput⟩)
    rw [hone]
    exact List.cons_ne_nil _ _

-- the last character hides that a parenthesis is missing and that nothing is divided
example : (evaluationRecords "(/#".toList).map Record.message =
    ["Evaluating expression: '(/#'",
      "Rejected expression '(/#': UnexpectedCharacter: Unexpected character: #"] := by
  decide +kernel

end DeskCalculator
