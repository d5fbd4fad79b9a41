import DeskCalculator.Proofs.Binary64.Finite
import DeskCalculator.Proofs.Expression.Conservation
import DeskCalculator.Proofs.Operand.RoundTrip

/-!
# Printed tokens are scanned back

* `Token.WrittenAs` : the text of a token, a number's being that of an operand;
* `exists_literal_operandText` : the operand text of a magnitude is a literal with its value;
* `Spaced` : a text with blanks put in anywhere; `Spaced.withoutBlanks_eq` : they leave no trace;
* `mapM_token_flatten` : the lexemes of texts in a row are the texts, if no two numbers are side by
  side;
* `tokenize_flatten` : so scanning is the inverse of writing tokens.
-/

namespace DeskCalculator

/-! ## Texts of tokens -/

namespace Token

/-- The text of a token in an expression. -/
def WrittenAs : Token → List Char → Prop
  | .number v, text => operand none v = .ok (some text)
  | t, text => text = t.text.toList

/-- A finite number with a clear sign, an operator as it is scanned or a parenthesis. -/
def IsPlain : Token → Prop
  | .number v => v.isFinite = true ∧ v.isNegative = false
  | .op o => o.arity = 2
  | _ => True

end Token

/-- Zero is written as such, any other magnitude by its shortest decimal. -/
theorem exists_literal_operandText (rank : Fin finiteRanks) :
    ∃ l : Literal, l.text = operandText false rank ∧ l.value = .finite false rank := by
  unfold operandText
  by_cases hzero : rank.val = 0
  · have hdigit : ['0'].all isDigit = true := by decide
    let l : Literal :=
      ⟨[], false, ['0'], List.forall_mem_nil _, List.all_eq_true.1 hdigit, List.cons_ne_nil _ _⟩
    have hrank : l.decimal.rank = 0 := Decimal.rank_of_coefficient_eq_zero rfl
    have hvalue : l.value = Binary64.ofRank false rank.val := by
      rw [Literal.value, Decimal.toBinary64, hrank, hzero]
    rw [if_pos hzero]
    refine ⟨l, rfl, ?_⟩
    rw [hvalue, Binary64.ofRank, dif_pos rank.isLt]
  · obtain ⟨l, htext, -, hvalue⟩ := Decimal.exists_literal
      (Decimal.readsBack_shortest rank).1 (Decimal.shortest_coefficient_ne_zero hzero)
    rw [Decimal.toBinary64_shortest, Binary64.ofRank, dif_pos rank.isLt] at hvalue
    rw [if_neg hzero]
    dsimp only
    rw [signed, if_neg Bool.false_ne_true, ← htext]
    exact ⟨l, rfl, hvalue⟩

namespace Token.WrittenAs

variable {t : Token} {text : List Char}

theorem exists_text (hplain : t.IsPlain) : ∃ text, t.WrittenAs text := by
  cases t with
  | number v =>
    obtain ⟨negative, rank, rfl⟩ := Binary64.exists_finite hplain.1
    exact ⟨_, rfl⟩
  | _ => exact ⟨_, rfl⟩

/-- A number is written as a literal of its value. -/
theorem exists_literal {v : Binary64} (hplain : (Token.number v).IsPlain)
    (h : (Token.number v).WrittenAs text) : ∃ l : Literal, l.text = text ∧ l.value = v := by
  obtain ⟨negative, rank, rfl⟩ := Binary64.exists_finite hplain.1
  obtain rfl : negative = false := hplain.2
  obtain rfl := Option.some.inj (Except.ok.inj h)
  exact exists_literal_operandText rank

/-- Any other token is written as one character that no number has. -/
theorem exists_mark (hplain : t.IsPlain) (hnumber : t.isNumber = false) (h : t.WrittenAs text) :
    ∃ c, text = [c] ∧ isNumberChar c = false ∧ isBlank c = false ∧
      (Lexeme.mark c).token = .ok t := by
  cases t with
  | number v => cases hnumber
  | opening => exact ⟨'(', h, by decide, by decide, rfl⟩
  | closing => exact ⟨')', h, by decide, by decide, rfl⟩
  | op o =>
    cases o with
    | add => exact ⟨'+', h, by decide, by decide, rfl⟩
    | sub => exact ⟨'-', h, by decide, by decide, rfl⟩
    | mul => exact ⟨'*', h, by decide, by decide, rfl⟩
    | div => exact ⟨'/', h, by decide, by decide, rfl⟩
    | _ => cases hplain

theorem not_isBlank (hplain : t.IsPlain) (h : t.WrittenAs text) :
    ∀ c ∈ text, isBlank c = false := by
  intro c hc
  cases hnumber : t.isNumber with
  | false =>
    obtain ⟨d, rfl, -, hblank, -⟩ := exists_mark hplain hnumber h
    rwa [List.mem_singleton.1 hc]
  | true =>
    cases t with
    | number v =>
      obtain ⟨l, rfl, -⟩ := exists_literal hplain h
      exact not_isBlank_of_isNumberChar (l.isNumberChar_of_mem_text c hc)
    | _ => cases hnumber

end Token.WrittenAs

/-! ## Blanks -/

/-- The second text is the first one with blanks put in anywhere. -/
inductive Spaced : List Char → List Char → Prop
  | nil : Spaced [] []
  | keep (c : Char) {text s : List Char} : Spaced text s → Spaced (c :: text) (c :: s)
  | blank {c : Char} {text s : List Char} : isBlank c = true → Spaced text s → Spaced text (c :: s)

theorem Spaced.withoutBlanks_eq {text s : List Char} (h : Spaced text s)
    (htext : ∀ c ∈ text, isBlank c = false) : withoutBlanks s = text := by
  unfold withoutBlanks
  induction h with
  | nil => rfl
  | keep c _ ih =>
    obtain ⟨hc, htext⟩ := List.forall_mem_cons.1 htext
    rw [List.filter_cons_of_pos (by simpa using hc), ih htext]
  | blank hc _ ih => rw [List.filter_cons_of_neg (by simpa using hc), ih htext]

/-! ## Tokens in a row -/

section

variable {tokens : List Token} {texts : List (List Char)}

/-- What starts with no number starts with no run. -/
theorem head?_lexemes_flatten (hwritten : List.Forall₂ Token.WrittenAs tokens texts)
    (hplain : ∀ t ∈ tokens, t.IsPlain) (hhead : ∀ t ∈ tokens.head?, t.isNumber = false) :
    ∀ r, .run r ∉ (lexemes texts.flatten).head? := by
  intro r hr
  cases hwritten with
  | nil => cases hr
  | @cons t text tokens texts ht _ =>
    obtain ⟨c, rfl, hc, -⟩ := ht.exists_mark (hplain t List.mem_cons_self) (hhead t rfl)
    rw [List.flatten_cons, List.singleton_append, lexemes_cons, Lexeme.extend_mark hc] at hr
    cases Option.some.inj hr

/-- A number's text ends where the next token's begins, so each text has its token. -/
theorem mapM_token_flatten (hwritten : List.Forall₂ Token.WrittenAs tokens texts)
    (hplain : ∀ t ∈ tokens, t.IsPlain)
    (hapart : tokens.IsChain fun t u => t.isNumber = false ∨ u.isNumber = false) :
    (lexemes texts.flatten).mapM Lexeme.token = .ok tokens := by
  induction hwritten with
  | nil => rfl
  | @cons t text tokens texts ht hwritten ih =>
    obtain ⟨hfirst, hlater⟩ := List.forall_mem_cons.1 hplain
    obtain ⟨hnext, hapart⟩ := List.isChain_cons.1 hapart
    have hrest := ih hlater hapart
    rw [List.flatten_cons]
    cases hnumber : t.isNumber with
    | false =>
      obtain ⟨c, rfl, hc, -, htoken⟩ := ht.exists_mark hfirst hnumber
      exact mapM_token_cons_mark hc htoken hrest
    | true =>
      cases t with
      | number v =>
        obtain ⟨l, rfl, rfl⟩ := ht.exists_literal hfirst
        have hends := head?_lexemes_flatten hwritten hlater
          fun u hu => (hnext u hu).resolve_left (by rw [hnumber]; exact Bool.noConfusion)
        rw [lexemes_run_append l.isNumberChar_of_mem_text l.text_ne_nil hends]
        exact mapM_cons_eq_ok (l.token_run hfirst.1) hrest
      | _ => cases hnumber

theorem not_isBlank_flatten (hwritten : List.Forall₂ Token.WrittenAs tokens texts)
    (hplain : ∀ t ∈ tokens, t.IsPlain) : ∀ c ∈ texts.flatten, isBlank c = false := by
  induction hwritten with
  | nil => exact List.forall_mem_nil _
  | cons ht _ ih =>
    obtain ⟨hfirst, hplain⟩ := List.forall_mem_cons.1 hplain
    rw [List.flatten_cons]
    exact List.forall_mem_append.2 ⟨ht.not_isBlank hfirst, ih hplain⟩

/-- **Scanning is the inverse of writing.** Plain tokens have texts, and if no two numbers are side
by side, then the texts in a row are scanned as the tokens, whatever blanks are put in. -/
theorem tokenize_flatten (hplain : ∀ t ∈ tokens, t.IsPlain)
    (hapart : tokens.IsChain fun t u => t.isNumber = false ∨ u.isNumber = false) :
    (∃ texts, List.Forall₂ Token.WrittenAs tokens texts) ∧
      ∀ texts s, List.Forall₂ Token.WrittenAs tokens texts → Spaced texts.flatten s →
        tokenize s = .ok tokens := by
  constructor
  · clear hapart
    induction tokens with
    | nil => exact ⟨[], .nil⟩
    | cons t tokens ih =>
      obtain ⟨hfirst, hplain⟩ := List.forall_mem_cons.1 hplain
      obtain ⟨text, htext⟩ := Token.WrittenAs.exists_text hfirst
      obtain ⟨texts, htexts⟩ := ih hplain
      exact ⟨text :: texts, .cons htext htexts⟩
  · intro texts s hwritten hspaced
    rw [tokenize, hspaced.withoutBlanks_eq (not_isBlank_flatten hwritten hplain)]
    exact mapM_token_flatten hwritten hplain hapart

end

/-- The texts `(`, `2.5`, `+`, `-`, `0` and `)`, with blanks between them and in the number. -/
theorem tokenize_flatten_signed_zero :
    let v := Binary64.finite false ⟨0x4004000000000000, by decide⟩
    let tokens := [Token.opening, .number v, .op .add, .op .sub, .number (.zero false), .closing]
    (∀ t ∈ tokens, t.IsPlain) ∧
      (tokens.IsChain fun t u => t.isNumber = false ∨ u.isNumber = false) ∧
      tokenize "(2 .5+\t- 0)".toList = .ok tokens := by
  intro v tokens
  have hplain : ∀ t ∈ tokens, t.IsPlain := by
    simp [tokens, v, Token.IsPlain, Binary64.isFinite, Binary64.isNegative, Binary64.zero,
      Operator.arity]
  have hapart : tokens.IsChain fun t u => t.isNumber = false ∨ u.isNumber = false := by
    simp [tokens, Token.isNumber]
  have hv : operand none v = .ok (some ['2', '.', '5']) := by decide +kernel
  have hwritten : List.Forall₂ Token.WrittenAs tokens
      [['('], ['2', '.', '5'], ['+'], ['-'], ['0'], [')']] :=
    .cons rfl (.cons hv (.cons rfl (.cons rfl (.cons rfl (.cons rfl .nil)))))
  have hspaced : Spaced ['(', '2', '.', '5', '+', '-', '0', ')'] "(2 .5+\t- 0)".toList :=
    .keep _ (.keep _ (.blank rfl (.keep _ (.keep _ (.keep _ (.blank rfl (.keep _
      (.blank rfl (.keep _ (.keep _ .nil))))))))))
  exact ⟨hplain, hapart, (tokenize_flatten hplain hapart).2 _ _ hwritten hspaced⟩

end DeskCalculator
