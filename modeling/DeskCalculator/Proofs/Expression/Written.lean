import DeskCalculator.Proofs.Expression.Lexemes
import DeskCalculator.Proofs.Expression.Precedence

/-!
# Evaluating what a derivation writes

* `Grammar.Expr.WrittenAs`, `Grammar.Term.WrittenAs`, `Grammar.Factor.WrittenAs` : the texts of a
  derivation, without blanks, every number a literal;
* `Expr.mapM_token_of_writtenAs` : such a text scans to the derivation's tokens;
* `Tree.fault_of_evaluate` : trees fault on zero divisors and on results that are not finite only;
* `evaluate_of_writtenAs` : a text of a derivation, with any blanks, evaluates like the derivation.
-/

namespace DeskCalculator

namespace Grammar

/-! ## Texts of derivations -/

/-- The character of a sum or difference, and of a sign. -/
def Additive.character : Additive → Char
  | .plus => '+'
  | .minus => '-'

/-- The character of a product or quotient. -/
def Multiplicative.character : Multiplicative → Char
  | .times => '*'
  | .divide => '/'

mutual

/-- The text is the expression, written without blanks. -/
def Expr.WrittenAs : Expr → List Char → Prop
  | .term t, cs => t.WrittenAs cs
  | .sum left o right, cs =>
    ∃ a b, left.WrittenAs a ∧ right.WrittenAs b ∧ cs = a ++ o.character :: b

/-- The text is the term, written without blanks. -/
def Term.WrittenAs : Term → List Char → Prop
  | .factor f, cs => f.WrittenAs cs
  | .product left o right, cs =>
    ∃ a b, left.WrittenAs a ∧ right.WrittenAs b ∧ cs = a ++ o.character :: b

/-- The text is the factor, written without blanks; a number is written as a literal whose nearest
number it is. -/
def Factor.WrittenAs : Factor → List Char → Prop
  | .number value, cs => ∃ l : Literal, l.value = value ∧ value.isFinite = true ∧ cs = l.text
  | .group e, cs => ∃ a, e.WrittenAs a ∧ cs = '(' :: (a ++ [')'])
  | .signed o f, cs => ∃ a, f.WrittenAs a ∧ cs = o.character :: a

end

/-! ## Scanning them -/

theorem Additive.not_isNumberChar (o : Additive) : isNumberChar o.character = false := by
  cases o <;> decide

theorem Additive.token_mark (o : Additive) :
    (Lexeme.mark o.character).token = .ok (.op o.operator) := by
  cases o <;> rfl

theorem Multiplicative.not_isNumberChar (o : Multiplicative) :
    isNumberChar o.character = false := by
  cases o <;> decide

theorem Multiplicative.token_mark (o : Multiplicative) :
    (Lexeme.mark o.character).token = .ok (.op o.operator) := by
  cases o <;> rfl

mutual

theorem Expr.mapM_token_of_writtenAs : ∀ (e : Expr) {cs : List Char}, e.WrittenAs cs →
    (lexemes cs).mapM Lexeme.token = .ok e.tokens
  | .term t, cs, h => by
    rw [Expr.WrittenAs] at h
    rw [Expr.tokens]
    exact t.mapM_token_of_writtenAs h
  | .sum left o right, cs, h => by
    rw [Expr.WrittenAs] at h
    obtain ⟨a, b, ha, hb, rfl⟩ := h
    rw [Expr.tokens]
    exact mapM_token_mark o.not_isNumberChar o.token_mark (left.mapM_token_of_writtenAs ha)
      (right.mapM_token_of_writtenAs hb)

theorem Term.mapM_token_of_writtenAs : ∀ (t : Term) {cs : List Char}, t.WrittenAs cs →
    (lexemes cs).mapM Lexeme.token = .ok t.tokens
  | .factor f, cs, h => by
    rw [Term.WrittenAs] at h
    rw [Term.tokens]
    exact f.mapM_token_of_writtenAs h
  | .product left o right, cs, h => by
    rw [Term.WrittenAs] at h
    obtain ⟨a, b, ha, hb, rfl⟩ := h
    rw [Term.tokens]
    exact mapM_token_mark o.not_isNumberChar o.token_mark (left.mapM_token_of_writtenAs ha)
      (right.mapM_token_of_writtenAs hb)

theorem Factor.mapM_token_of_writtenAs : ∀ (f : Factor) {cs : List Char}, f.WrittenAs cs →
    (lexemes cs).mapM Lexeme.token = .ok f.tokens
  | .number value, cs, h => by
    rw [Factor.WrittenAs] at h
    obtain ⟨l, rfl, hl, rfl⟩ := h
    rw [Factor.tokens]
    exact l.mapM_token_text hl
  | .group e, cs, h => by
    rw [Factor.WrittenAs] at h
    obtain ⟨a, ha, rfl⟩ := h
    rw [Factor.tokens]
    have hinner : (lexemes (a ++ [')'])).mapM Lexeme.token = .ok (e.tokens ++ [.closing]) :=
      mapM_token_mark (by decide) rfl (e.mapM_token_of_writtenAs ha) rfl
    exact mapM_token_cons_mark (by decide) rfl hinner
  | .signed o f, cs, h => by
    rw [Factor.WrittenAs] at h
    obtain ⟨a, ha, rfl⟩ := h
    rw [Factor.tokens]
    exact mapM_token_cons_mark o.not_isNumberChar o.token_mark (f.mapM_token_of_writtenAs ha)

end

theorem Expr.tokens_ne_nil (e : Expr) : e.tokens ≠ [] := by
  intro h
  have hpost := e.toReversePolish_tokens
  rw [h] at hpost
  have hnil : [] = e.tree.postorder := Except.ok.inj hpost
  cases ht : e.tree <;> simp [ht, Tree.postorder] at hnil

end Grammar

/-! ## Evaluating them -/

/-- A tree faults on a zero divisor or on a result that is not finite, and on nothing else. -/
theorem Tree.fault_of_evaluate (t : Tree) {fault : Fault} (h : t.evaluate = .error fault) :
    fault = .divisionByZero ∨ fault = .resultNotFinite := by
  induction t with
  | number value => cases h
  | sign o ho operand ih =>
    rw [evaluate] at h
    rcases bind_eq_error.1 h with h | ⟨x, -, h⟩
    · exact ih h
    · exact .inr (Operator.fault_of_checked h)
  | binary o ho left right ihl ihr =>
    rw [evaluate] at h
    rcases bind_eq_error.1 h with h | ⟨x, -, h⟩
    · exact ihl h
    · rcases bind_eq_error.1 h with h | ⟨y, -, h⟩
      · exact ihr h
      · exact Operator.fault_of_apply2 h

namespace Grammar

theorem Expr.fault_of_evaluate (e : Expr) {fault : Fault} (h : e.evaluate = .error fault) :
    fault = .divisionByZero ∨ fault = .resultNotFinite :=
  e.tree.fault_of_evaluate (e.evaluate_tree.trans h)

/-- A text of a derivation evaluates like the derivation. -/
theorem Expr.evaluate_text (e : Expr) {s : List Char} (h : e.WrittenAs (withoutBlanks s)) :
    DeskCalculator.evaluate s = e.evaluate := by
  have hscan : tokenize s = .ok e.tokens := e.mapM_token_of_writtenAs h
  rw [DeskCalculator.evaluate, hscan]
  change (if e.tokens.isEmpty then _ else toReversePolish e.tokens >>= evaluateReversePolish) = _
  rw [if_neg (by simpa using e.tokens_ne_nil), e.evaluateReversePolish_tokens]

end Grammar

end DeskCalculator
