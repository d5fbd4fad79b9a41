import DeskCalculator.Expression.Evaluation
import DeskCalculator.Proofs.Decimal.Digits
import DeskCalculator.Proofs.Runs
import Mathlib.Data.List.Chain
import Mathlib.Data.List.TakeDrop

/-!
# Scanning

* `lexemes_append_mark` : any other character than those of numbers parts the lexemes around it;
  `lexemes_run_append`, `lexemes_append_run`, `lexemes_run` : a run of number characters is one
  lexeme;
* `flatten_lexemes`, `of_mem_lexemes`, `isChain_lexemes` : the lexemes make up the text, their
  characters are of one class, and no two runs are side by side; `exists_getLast?_lexemes` : the last
  one ends in the last character;
* `tokenize_of_no_blank` : where there is no blank, the lexemes of the text itself are scanned;
* `Literal` : digits, then optionally a point, then at least one digit more; `Literal.value` : the
  number nearest to it; `Literal.token_run`, `Literal.token_run_of_not_isFinite` :
  the token of a literal's run;
* `mapM_token_mark` : the tokens of a text around such a character; `Lexeme.of_token` : what a
  lexeme with a token is; `fault_of_tokenize` : the faults of scanning; `not_isSign_of_tokenize`,
  `tokens_ne_nil_of_tokenize` : what all scanned tokens have in common.
-/

namespace DeskCalculator

/-! ## Lexemes of parts -/

theorem Lexeme.extend_mark {c : Char} (hc : isNumberChar c = false) (after : List Lexeme) :
    extend c after = .mark c :: after := by
  simp [extend, hc]

theorem Lexeme.extend_run {c : Char} (hc : isNumberChar c = true) (cs : List Char)
    (after : List Lexeme) : extend c (.run cs :: after) = .run (c :: cs) :: after := by
  simp [extend, hc]

/-- A number character extends the first lexeme, whatever follows that. -/
theorem Lexeme.extend_append {c : Char} {before : List Lexeme} (after : List Lexeme)
    (h : before ≠ []) : extend c (before ++ after) = extend c before ++ after := by
  cases before with
  | nil => exact absurd rfl h
  | cons first before =>
    unfold extend
    split
    · cases first <;> rfl
    · rfl

@[simp] theorem lexemes_nil : lexemes [] = [] := rfl

@[simp] theorem lexemes_cons (c : Char) (cs : List Char) :
    lexemes (c :: cs) = Lexeme.extend c (lexemes cs) := rfl

theorem Lexeme.extend_ne_nil (c : Char) (after : List Lexeme) : extend c after ≠ [] := by
  unfold extend
  split
  · split <;> simp
  · simp

theorem lexemes_ne_nil {cs : List Char} (h : cs ≠ []) : lexemes cs ≠ [] := by
  cases cs with
  | nil => exact absurd rfl h
  | cons c cs => exact Lexeme.extend_ne_nil c (lexemes cs)

theorem lexemes_append_mark {c : Char} (hc : isNumberChar c = false) (before after : List Char) :
    lexemes (before ++ c :: after) = lexemes before ++ .mark c :: lexemes after := by
  induction before with
  | nil => exact Lexeme.extend_mark hc (lexemes after)
  | cons b before ih =>
    rw [List.cons_append, lexemes_cons, ih, lexemes_cons]
    by_cases h : lexemes before = []
    · rw [h]
      unfold Lexeme.extend
      split <;> rfl
    · exact Lexeme.extend_append _ h

/-- A run of number characters ends where no run follows. -/
theorem lexemes_run_append {cs after : List Char} (h : ∀ c ∈ cs, isNumberChar c = true)
    (hne : cs ≠ []) (hafter : ∀ r, .run r ∉ (lexemes after).head?) :
    lexemes (cs ++ after) = .run cs :: lexemes after := by
  induction cs with
  | nil => exact absurd rfl hne
  | cons c cs ih =>
    have hc := h c List.mem_cons_self
    rw [List.cons_append, lexemes_cons]
    by_cases hcs : cs = []
    · subst hcs
      unfold Lexeme.extend
      rw [if_pos hc, List.nil_append]
      split
      · rename_i r rest hrest
        exact absurd (by rw [hrest]; rfl) (hafter r)
      · rfl
    · rw [ih (fun d hd => h d (List.mem_cons_of_mem c hd)) hcs, Lexeme.extend_run hc]

theorem lexemes_run {cs : List Char} (h : ∀ c ∈ cs, isNumberChar c = true) (hne : cs ≠ []) :
    lexemes cs = [.run cs] := by
  have hends : ∀ r, .run r ∉ (lexemes []).head? := by simp
  have hrun := lexemes_run_append h hne hends
  rwa [List.append_nil] at hrun

theorem head?_lexemes_ne_run {cs : List Char} (h : ∀ c ∈ cs.head?, isNumberChar c = false)
    (r : List Char) : .run r ∉ (lexemes cs).head? := by
  cases cs with
  | nil => simp
  | cons c cs =>
    rw [lexemes_cons, Lexeme.extend_mark (h c rfl)]
    simp

/-- A run of number characters with none around it is one lexeme between those of its sides. -/
theorem lexemes_append_run {before run after : List Char}
    (hrun : ∀ c ∈ run, isNumberChar c = true) (hne : run ≠ [])
    (hbefore : ∀ c ∈ before.getLast?, isNumberChar c = false)
    (hafter : ∀ c ∈ after.head?, isNumberChar c = false) :
    lexemes (before ++ (run ++ after)) = lexemes before ++ .run run :: lexemes after := by
  have htail := lexemes_run_append hrun hne (head?_lexemes_ne_run hafter)
  rcases List.eq_nil_or_concat before with rfl | ⟨front, c, rfl⟩
  · exact htail
  · rw [List.concat_eq_append] at *
    have hc : isNumberChar c = false := hbefore c (by simp)
    rw [List.append_assoc, List.singleton_append, lexemes_append_mark hc, htail,
      lexemes_append_mark hc, lexemes_nil, List.append_assoc, List.singleton_append]

/-! ## Texts of lexemes -/

/-- The characters of a lexeme. -/
def Lexeme.chars : Lexeme → List Char
  | .run cs => cs
  | .mark c => [c]

/-- Whether the lexeme is made of number characters. -/
def Lexeme.isRun : Lexeme → Bool
  | .run _ => true
  | .mark _ => false

theorem flatten_extend (c : Char) (after : List Lexeme) :
    ((Lexeme.extend c after).map Lexeme.chars).flatten = c :: (after.map Lexeme.chars).flatten := by
  unfold Lexeme.extend
  split
  · split <;> rfl
  · rfl

theorem flatten_lexemes (cs : List Char) : ((lexemes cs).map Lexeme.chars).flatten = cs := by
  induction cs with
  | nil => rfl
  | cons c cs ih => rw [lexemes_cons, flatten_extend, ih]

/-- A lexeme is one character that no number has, or some characters of numbers. -/
theorem of_mem_lexemes {cs : List Char} {l : Lexeme} (h : l ∈ lexemes cs) :
    l.chars ≠ [] ∧ ∀ c ∈ l.chars, isNumberChar c = l.isRun := by
  induction cs generalizing l with
  | nil => cases h
  | cons c cs ih =>
    rw [lexemes_cons] at h
    unfold Lexeme.extend at h
    split at h
    · rename_i hc
      split at h
      · rename_i r rest hrest
        rcases List.mem_cons.1 h with rfl | h
        · obtain ⟨-, hr⟩ := ih (show .run r ∈ lexemes cs by rw [hrest]; exact List.mem_cons_self)
          refine ⟨List.cons_ne_nil c r, ?_⟩
          intro d hd
          rcases List.mem_cons.1 hd with rfl | hd
          · exact hc
          · exact hr d hd
        · exact ih (by rw [hrest]; exact List.mem_cons_of_mem _ h)
      · rcases List.mem_cons.1 h with rfl | h
        · exact ⟨List.cons_ne_nil c [], by simpa [Lexeme.chars, Lexeme.isRun] using hc⟩
        · exact ih h
    · rename_i hc
      rcases List.mem_cons.1 h with rfl | h
      · exact ⟨List.cons_ne_nil c [], by simpa [Lexeme.chars, Lexeme.isRun] using hc⟩
      · exact ih h

/-- The last lexeme ends in the last character. -/
theorem exists_getLast?_lexemes (front : List Char) (c : Char) :
    ∃ ls l, lexemes (front ++ [c]) = ls ++ [l] ∧ c ∈ l.chars.getLast? := by
  rcases List.eq_nil_or_concat (lexemes (front ++ [c])) with hnil | ⟨ls, l, hls⟩
  · exact absurd hnil (lexemes_ne_nil (by simp))
  · rw [List.concat_eq_append] at hls
    refine ⟨ls, l, hls, ?_⟩
    have hne : l.chars ≠ [] := (of_mem_lexemes (by rw [hls]; simp)).1
    have hflatten := congrArg List.getLast? (flatten_lexemes (front ++ [c]))
    rw [hls, List.getLast?_concat] at hflatten
    simp only [List.map_append, List.map_singleton, List.flatten_append, List.flatten_singleton,
      List.getLast?_append_of_ne_nil _ hne] at hflatten
    exact hflatten

/-- Runs are as long as they can be: no two are side by side. -/
theorem isChain_lexemes (cs : List Char) :
    (lexemes cs).IsChain fun l m => l.isRun = false ∨ m.isRun = false := by
  induction cs with
  | nil => exact List.isChain_nil
  | cons c cs ih =>
    rw [lexemes_cons]
    unfold Lexeme.extend
    split
    · split
      · rename_i r rest hrest
        rw [hrest, List.isChain_cons] at ih
        exact List.isChain_cons.2 ih
      · rename_i hrest
        refine List.isChain_cons.2 ⟨?_, ih⟩
        intro m hm
        cases m with
        | run r =>
          obtain ⟨rest, hcons⟩ := List.head?_eq_some_iff.1 hm
          exact absurd hcons (hrest r rest)
        | mark d => exact .inr rfl
    · exact List.isChain_cons.2 ⟨fun _ _ => .inl rfl, ih⟩

/-! ## Tokens of parts -/

theorem mapM_token_mark {c : Char} {t : Token} {before after : List Char} {ts us : List Token}
    (hc : isNumberChar c = false) (ht : (Lexeme.mark c).token = .ok t)
    (hbefore : (lexemes before).mapM Lexeme.token = .ok ts)
    (hafter : (lexemes after).mapM Lexeme.token = .ok us) :
    (lexemes (before ++ c :: after)).mapM Lexeme.token = .ok (ts ++ t :: us) := by
  rw [lexemes_append_mark hc, List.mapM_append, List.mapM_cons, hbefore, ht, hafter]
  rfl

theorem mapM_token_cons_mark {c : Char} {t : Token} {after : List Char} {us : List Token}
    (hc : isNumberChar c = false) (ht : (Lexeme.mark c).token = .ok t)
    (hafter : (lexemes after).mapM Lexeme.token = .ok us) :
    (lexemes (c :: after)).mapM Lexeme.token = .ok (t :: us) := by
  have hnil : (lexemes []).mapM Lexeme.token = .ok [] := rfl
  exact mapM_token_mark hc ht hnil hafter

/-- What a lexeme with a token is, for each kind of token. -/
theorem Lexeme.of_token {l : Lexeme} {t : Token} (h : l.token = .ok t) :
    (∃ cs n, l = .run cs ∧ runNumeral? cs = some n ∧ t = .number n.toBinary64) ∨
      (l = .mark '(' ∧ t = .opening) ∨ (l = .mark ')' ∧ t = .closing) ∨
        ∃ c o, l = .mark c ∧ Operator.ofChar? c = some o ∧ t = .op o := by
  unfold token at h
  split at h
  · split at h
    · cases h
    · rename_i n hn
      dsimp only at h
      split at h
      · exact .inl ⟨_, n, rfl, hn, (Except.ok.inj h).symm⟩
      · cases h
  · exact .inr (.inl ⟨rfl, (Except.ok.inj h).symm⟩)
  · exact .inr (.inr (.inl ⟨rfl, (Except.ok.inj h).symm⟩))
  · split at h
    · rename_i o ho
      exact .inr (.inr (.inr ⟨_, o, rfl, ho, (Except.ok.inj h).symm⟩))
    · cases h

/-- The faults that a lexeme can have. -/
theorem Lexeme.fault_of_token {l : Lexeme} {fault : Fault} (h : l.token = .error fault) :
    (∃ run, fault = .invalidNumber run) ∨ fault = .numberTooLarge ∨
      ∃ c, fault = .unexpectedCharacter c := by
  unfold token at h
  split at h
  · split at h
    · exact .inl ⟨_, (Except.error.inj h).symm⟩
    · dsimp only at h
      split at h
      · cases h
      · exact .inr (.inl (Except.error.inj h).symm)
  · cases h
  · cases h
  · split at h
    · cases h
    · exact .inr (.inr ⟨_, (Except.error.inj h).symm⟩)

theorem fault_of_tokenize {s : List Char} {fault : Fault} (h : tokenize s = .error fault) :
    (∃ run, fault = .invalidNumber run) ∨ fault = .numberTooLarge ∨
      ∃ c, fault = .unexpectedCharacter c := by
  obtain ⟨l, -, hl⟩ := exists_of_mapM_eq_error h
  exact Lexeme.fault_of_token hl

theorem Operator.arity_of_ofChar? {c : Char} {o : Operator} (h : ofChar? c = some o) :
    o.arity = 2 := by
  unfold ofChar? at h
  split at h <;> first | (obtain rfl := Option.some.inj h; rfl) | cases h

/-- Scanning never yields one of the two signs: they are told by position alone. -/
theorem Lexeme.not_isSign_of_token {l : Lexeme} {t : Token} (h : l.token = .ok t) :
    t.isSign = false := by
  rcases of_token h with ⟨cs, n, -, -, rfl⟩ | ⟨-, rfl⟩ | ⟨-, rfl⟩ | ⟨c, o, -, ho, rfl⟩
  · rfl
  · rfl
  · rfl
  · rw [Token.isSign, Operator.arity_of_ofChar? ho]
    rfl

theorem not_isSign_of_tokenize {s : List Char} {tokens : List Token}
    (h : tokenize s = .ok tokens) : ∀ t ∈ tokens, t.isSign = false := by
  intro t ht
  obtain ⟨l, -, hl⟩ := exists_of_mem_of_mapM_eq_ok h ht
  exact Lexeme.not_isSign_of_token hl

theorem withoutBlanks_eq_self_iff {cs : List Char} :
    withoutBlanks cs = cs ↔ ∀ c ∈ cs, isBlank c = false := by
  simp [withoutBlanks, List.filter_eq_self]

theorem tokenize_of_no_blank {cs : List Char} (h : ∀ c ∈ cs, isBlank c = false) :
    tokenize cs = (lexemes cs).mapM Lexeme.token := by
  rw [tokenize, withoutBlanks_eq_self_iff.2 h]

theorem withoutBlanks_ne_nil {s : List Char} (h : isBlankText s = false) :
    withoutBlanks s ≠ [] := by
  intro hnil
  have hall : isBlankText s = true := by
    simpa [withoutBlanks, List.filter_eq_nil_iff, isBlankText] using hnil
  simp [hall] at h

theorem tokens_ne_nil_of_tokenize {s : List Char} (hs : isBlankText s = false)
    {tokens : List Token} (h : tokenize s = .ok tokens) : tokens ≠ [] := by
  have hlength := (forall₂_of_mapM_eq_ok h).length_eq
  intro hnil
  rw [hnil, List.length_nil, List.length_eq_zero_iff] at hlength
  exact lexemes_ne_nil (withoutBlanks_ne_nil hs) hlength

theorem not_isDigit_of_not_isNumberChar {c : Char} (h : isNumberChar c = false) :
    isDigit c = false := by
  rw [isNumberChar, Bool.or_eq_false_iff] at h
  exact h.1

theorem isDigit_of_isNumberChar {c : Char} (h : isNumberChar c = true) (hpoint : c ≠ '.') :
    isDigit c = true := by
  simpa [isNumberChar, hpoint] using h

theorem not_isBlank_of_isNumberChar {c : Char} (h : isNumberChar c = true) :
    isBlank c = false := by
  rw [isNumberChar, Bool.or_eq_true, beq_iff_eq] at h
  rcases h with h | rfl
  · have hall : "0123456789".toList.all (!isBlank ·) = true := by decide
    simpa using List.all_eq_true.1 hall c (mem_digits_of_isDigit h)
  · decide

/-! ## Literals -/

/-- A run that is a numeral ends in a digit. -/
theorem isDigit_getLast_of_runNumeral? {r : List Char} {n : Numeral} (h : runNumeral? r = some n) :
    ∃ d ∈ r.getLast?, isDigit d = true := by
  have hlast : ∀ (front digits : List Char), digits ≠ [] → (∀ c ∈ digits, isDigit c = true) →
      ∃ d ∈ (front ++ digits).getLast?, isDigit d = true := by
    intro front digits hne hall
    refine ⟨digits.getLast hne, ?_, hall _ (List.getLast_mem hne)⟩
    rw [List.getLast?_append, List.getLast?_eq_getLast_of_ne_nil hne]
    rfl
  have happend := List.takeWhile_append_dropWhile (p := isDigit) (l := r)
  unfold runNumeral? at h
  rw [List.span_eq_takeWhile_dropWhile] at h
  dsimp only at h
  split at h
  · rename_i hrest
    split at h
    · cases h
    · rename_i hwhole
      have hdigits := hlast [] (r.takeWhile isDigit) (by simpa using hwhole)
        fun c hc => List.mem_takeWhile_imp hc
      rwa [List.nil_append, ← List.append_nil (r.takeWhile isDigit), ← hrest, happend] at hdigits
  · rename_i point fraction hrest
    split at h
    · cases h
    · rename_i hfraction
      simp only [Bool.or_eq_true, List.isEmpty_iff, Bool.not_eq_true', not_or] at hfraction
      have hdigits := hlast (r.takeWhile isDigit ++ [point]) fraction hfraction.1
        (by simpa using hfraction.2)
      rwa [List.append_assoc, List.singleton_append, ← hrest, happend] at hdigits

/-- Digits, then optionally a point, then at least one digit more. -/
structure Literal where
  whole : List Char
  hasPoint : Bool
  last : List Char
  whole_digits : ∀ c ∈ whole, isDigit c = true
  last_digits : ∀ c ∈ last, isDigit c = true
  last_ne_nil : last ≠ []

namespace Literal

variable (l : Literal)

/-- The literal as it is written. -/
def text : List Char := l.whole ++ ((if l.hasPoint then ['.'] else []) ++ l.last)

/-- The exact decimal that the literal denotes. -/
def decimal : Decimal :=
  ⟨Nat.ofDigitChars 10 (l.whole ++ l.last) 0, if l.hasPoint then -l.last.length else 0⟩

/-- The number nearest to the literal. -/
def value : Binary64 := l.decimal.toBinary64 false

theorem isNumberChar_of_mem_text : ∀ c ∈ l.text, isNumberChar c = true := by
  intro c hc
  unfold isNumberChar
  simp only [text, List.mem_append] at hc
  rcases hc with hc | hc | hc
  · simp [l.whole_digits c hc]
  · split at hc
    · simp [List.mem_singleton.1 hc]
    · cases hc
  · simp [l.last_digits c hc]

theorem text_ne_nil : l.text ≠ [] := by
  simp [text, l.last_ne_nil]

theorem withoutBlanks_text : withoutBlanks l.text = l.text :=
  withoutBlanks_eq_self_iff.2 fun c hc =>
    not_isBlank_of_isNumberChar (l.isNumberChar_of_mem_text c hc)

theorem lexemes_text : lexemes l.text = [.run l.text] :=
  lexemes_run l.isNumberChar_of_mem_text l.text_ne_nil

theorem runNumeral?_text : ∃ n, runNumeral? l.text = some n ∧ n.toBinary64 = l.value := by
  unfold runNumeral? text
  cases h : l.hasPoint
  · have hall : ∀ c ∈ l.whole ++ l.last, isDigit c = true := by
      intro c hc
      exact (List.mem_append.1 hc).elim (l.whole_digits c) (l.last_digits c)
    have hspan : ((l.whole ++ l.last) ++ []).span isDigit = _ := span_digits hall (by simp)
    rw [List.append_nil] at hspan
    simp only [Bool.false_eq_true, if_false, List.nil_append, hspan]
    refine ⟨_, if_neg (by simp [l.last_ne_nil]), ?_⟩
    simp [Numeral.toBinary64, Numeral.decimal, Decimal.ofParts, value, decimal, h]
  · have hspan : (l.whole ++ '.' :: l.last).span isDigit = _ :=
      span_digits l.whole_digits (by simp; decide)
    simp only [if_true, List.cons_append, List.nil_append, hspan]
    refine ⟨_, if_neg ?_, ?_⟩
    · simpa [l.last_ne_nil] using l.last_digits
    · simp [Numeral.toBinary64, Numeral.decimal, Decimal.ofParts, value, decimal, h]

/-- A literal's run becomes its number, if that is finite. -/
theorem token_run (h : l.value.isFinite = true) :
    (Lexeme.run l.text).token = .ok (.number l.value) := by
  obtain ⟨n, hn, hv⟩ := l.runNumeral?_text
  simp [Lexeme.token, hn, hv, h]

theorem token_run_of_not_isFinite (h : l.value.isFinite = false) :
    (Lexeme.run l.text).token = .error .numberTooLarge := by
  obtain ⟨n, hn, hv⟩ := l.runNumeral?_text
  simp [Lexeme.token, hn, hv, h]

theorem mapM_token_text (h : l.value.isFinite = true) :
    (lexemes l.text).mapM Lexeme.token = .ok [.number l.value] := by
  rw [l.lexemes_text, List.mapM_cons, l.token_run h]
  rfl

end Literal

end DeskCalculator
