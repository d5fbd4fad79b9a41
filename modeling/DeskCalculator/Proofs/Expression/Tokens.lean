import DeskCalculator.Proofs.Decimal.Correctness
import DeskCalculator.Proofs.Expression.Lexemes
import DeskCalculator.Proofs.Expression.Primitive

/-!
# Tokens of a text

* `SplitsInto` : lexemes that make up a text, with every run as long as it can be;
  `splitsInto_lexemes`, `SplitsInto.eq_lexemes` : those of the scan, and no others;
  `SplitsInto.exists_run`, `exists_of_run_mem_lexemes` : where one of its runs stands in the text;
* `Literal.isFinite_value_iff`, `Literal.isRounded_value` : what a literal's number is;
* `Lexeme.IsWellFormed`, `Lexeme.Denotes`, `Lexeme.Fails` : what a lexeme's token or fault is by its
  text and its exact value; `Lexeme.token_eq_ok_iff`, `Lexeme.token_eq_error_iff`;
  `exists_literal_of_token` : a lexeme with a number for its token is a literal;
* `exists_splitsInto_tokenize` : a text has one token for each of its lexemes, or the fault of the
  leftmost lexeme with one.
-/

namespace DeskCalculator

/-! ## Lexemes of a text -/

/-- The lexemes make up the text; each is one character that no number has, or some characters of
numbers, and no two of the latter are side by side. -/
structure SplitsInto (text : List Char) (ls : List Lexeme) : Prop where
  flatten : (ls.map Lexeme.chars).flatten = text
  ofClass : ∀ l ∈ ls, l.chars ≠ [] ∧ ∀ c ∈ l.chars, isNumberChar c = l.isRun
  apart : ls.IsChain fun l m => l.isRun = false ∨ m.isRun = false

theorem splitsInto_lexemes (text : List Char) : SplitsInto text (lexemes text) :=
  ⟨flatten_lexemes text, fun _ => of_mem_lexemes, isChain_lexemes text⟩

/-- A text is split in one way only. -/
theorem SplitsInto.eq_lexemes {text : List Char} {ls : List Lexeme} (h : SplitsInto text ls) :
    ls = lexemes text := by
  induction ls generalizing text with
  | nil =>
    obtain rfl := h.flatten
    rfl
  | cons l ls ih =>
    obtain rfl := h.flatten
    obtain ⟨hl, hls⟩ := List.forall_mem_cons.1 h.ofClass
    obtain ⟨hfirst, hapart⟩ := List.isChain_cons.1 h.apart
    have hrest := ih ⟨rfl, hls, hapart⟩
    rw [List.map_cons, List.flatten_cons]
    cases l with
    | mark c =>
      have hc : isNumberChar c = false := hl.2 c List.mem_cons_self
      exact (congrArg _ hrest).trans (Lexeme.extend_mark hc _).symm
    | run cs =>
      have hends : ∀ r, .run r ∉ (lexemes (ls.map Lexeme.chars).flatten).head? := by
        intro r hr
        rw [← hrest] at hr
        rcases hfirst _ hr with hrun | hrun <;> cases hrun
      exact (congrArg _ hrest).trans (lexemes_run_append hl.2 hl.1 hends).symm

/-- The lexemes on either side of a run are those of the text on either side, where no character of
numbers is next to the run. -/
theorem SplitsInto.exists_run {text run : List Char} {ls ms : List Lexeme}
    (h : SplitsInto text (ls ++ .run run :: ms)) : ∃ before after,
      text = before ++ (run ++ after) ∧ lexemes before = ls ∧ lexemes after = ms ∧
        (∀ c ∈ before.getLast?, isNumberChar c = false) ∧
          ∀ c ∈ after.head?, isNumberChar c = false := by
  obtain ⟨hflatten, hclass, hapart⟩ := h
  rw [List.forall_mem_append, List.forall_mem_cons] at hclass
  obtain ⟨hls, -, hms⟩ := hclass
  rw [List.isChain_append] at hapart
  obtain ⟨hapart_ls, hapart_ms, hseam⟩ := hapart
  rw [List.isChain_cons] at hapart_ms
  refine ⟨_, _, ?_, (SplitsInto.eq_lexemes ⟨rfl, hls, hapart_ls⟩).symm,
    (SplitsInto.eq_lexemes ⟨rfl, hms, hapart_ms.2⟩).symm, ?_, ?_⟩
  · rw [← hflatten]
    simp [Lexeme.chars]
  · intro c hc
    rcases List.eq_nil_or_concat ls with rfl | ⟨front, l, rfl⟩
    · cases hc
    · rw [List.concat_eq_append] at *
      have hl := hls l (by simp)
      have hmark : l.isRun = false := by
        simpa [Lexeme.isRun] using hseam l (by simp) (.run run) rfl
      rw [← hmark]
      refine hl.2 c ?_
      simp only [List.map_append, List.map_singleton, List.flatten_append, List.flatten_singleton,
        List.getLast?_append_of_ne_nil _ hl.1] at hc
      exact List.mem_of_getLast? hc
  · intro c hc
    cases ms with
    | nil => cases hc
    | cons m ms =>
      have hm := hms m List.mem_cons_self
      have hmark : m.isRun = false := by
        simpa [Lexeme.isRun] using hapart_ms.1 m rfl
      rw [← hmark]
      refine hm.2 c ?_
      obtain ⟨d, ds, hchars⟩ := List.exists_cons_of_ne_nil hm.1
      simp only [List.map_cons, List.flatten_cons, hchars, List.cons_append, List.head?_cons,
        Option.mem_some_iff] at hc
      rw [← hc, hchars]
      exact List.mem_cons_self

theorem exists_of_run_mem_lexemes {text run : List Char} (h : .run run ∈ lexemes text) :
    ∃ before after, text = before ++ (run ++ after) ∧ run ≠ [] ∧
      (∀ c ∈ run, isNumberChar c = true) ∧
        ∀ c ∈ before.getLast?, isNumberChar c = false := by
  obtain ⟨ls, ms, hsplit⟩ := List.append_of_mem h
  have htext := splitsInto_lexemes text
  rw [hsplit] at htext
  obtain ⟨before, after, rfl, -, -, hbefore, -⟩ := htext.exists_run
  exact ⟨before, after, rfl, (of_mem_lexemes h).1, (of_mem_lexemes h).2, hbefore⟩

/-! ## Literals -/

/-- A run with a numeral is a literal. -/
theorem exists_literal_of_runNumeral? {cs : List Char} {n : Numeral}
    (hcs : ∀ c ∈ cs, isNumberChar c = true) (h : runNumeral? cs = some n) :
    ∃ l : Literal, l.text = cs := by
  have hsplit := List.takeWhile_append_dropWhile (p := isDigit) (l := cs)
  have hwhole : ∀ c ∈ cs.takeWhile isDigit, isDigit c = true := by
    intro c hc
    exact List.mem_takeWhile_imp hc
  unfold runNumeral? at h
  rw [List.span_eq_takeWhile_dropWhile] at h
  dsimp only at h
  split at h
  · rename_i hrest
    split at h
    · cases h
    · rename_i hne
      rw [List.isEmpty_iff] at hne
      rw [hrest, List.append_nil] at hsplit
      exact ⟨⟨[], false, _, List.forall_mem_nil _, hwhole, hne⟩, hsplit⟩
  · rename_i point fraction hrest
    split at h
    · cases h
    · rename_i hfraction
      simp only [Bool.or_eq_true, List.isEmpty_iff, Bool.not_eq_true', not_or,
        Bool.not_eq_false, List.all_eq_true] at hfraction
      have hpoint : point = '.' := by
        have hnumber := hcs point (by rw [← hsplit, hrest]; simp)
        have hdigit : isDigit point = false := by
          have hne : cs.dropWhile isDigit ≠ [] := by
            rw [hrest]
            exact List.cons_ne_nil _ _
          simpa only [hrest, List.head_cons] using List.head_dropWhile_not isDigit hne
        simpa [isNumberChar, hdigit] using hnumber
      subst hpoint
      refine ⟨⟨cs.takeWhile isDigit, true, fraction, hwhole, hfraction.2, hfraction.1⟩, ?_⟩
      rw [hrest] at hsplit
      exact hsplit

namespace Literal

variable (l : Literal)

theorem isFinite_value_iff : l.value.isFinite = true ↔ l.decimal.toRat < 2 ^ 1024 - 2 ^ 970 :=
  Decimal.isFinite_toBinary64_iff false

theorem isRounded_value (h : l.value.isFinite = true) : l.value.IsRounded l.decimal.toRat :=
  Decimal.isRounded_toBinary64 (l.isFinite_value_iff.1 h)

theorem toRat_lt_pow_length : l.decimal.toRat < 10 ^ l.text.length := by
  have hdigits : ∀ c ∈ l.whole ++ l.last, isDigit c = true :=
    List.forall_mem_append.2 ⟨l.whole_digits, l.last_digits⟩
  have hexponent : l.decimal.exponent ≤ 0 := by
    unfold decimal
    dsimp only
    split <;> omega
  have hcoefficient : (l.decimal.coefficient : ℚ) < 10 ^ (l.whole ++ l.last).length := by
    exact_mod_cast ofDigitChars_lt hdigits
  calc l.decimal.toRat ≤ l.decimal.coefficient :=
        mul_le_of_le_one_right (by positivity) (zpow_le_one_of_nonpos₀ (by norm_num) hexponent)
    _ < 10 ^ (l.whole ++ l.last).length := hcoefficient
    _ ≤ 10 ^ l.text.length := by
        refine pow_le_pow_right₀ (by norm_num) ?_
        simp only [text, List.length_append]
        omega

/-- What is the exact value correctly rounded is the value, so that is finite. -/
theorem value_eq_of_isRounded {v : Binary64} (h : v.IsRounded l.decimal.toRat) :
    l.value = v ∧ l.value.isFinite = true := by
  cases v with
  | finite negative rank =>
    have hfinite : l.value.isFinite = true :=
      l.isFinite_value_iff.2 (h.2.lt_finiteRanks_iff.1 rank.isLt)
    exact ⟨(l.isRounded_value hfinite).eq h, hfinite⟩
  | _ => cases h

end Literal

/-! ## Tokens and faults of lexemes -/

namespace Lexeme

/-- A literal whose exact value is below the bound of the finite numbers, an operator's symbol or a
parenthesis. -/
def IsWellFormed : Lexeme → Prop
  | .run cs => ∃ l : Literal, l.text = cs ∧ l.decimal.toRat < 2 ^ 1024 - 2 ^ 970
  | .mark c => c ∈ ['+', '-', '*', '/', '(', ')']

/-- A run denotes its exact value correctly rounded, any other character itself. -/
def Denotes : Lexeme → Token → Prop
  | .run cs, .number v => ∃ l : Literal, l.text = cs ∧ v.IsRounded l.decimal.toRat
  | .mark c, .op o => o.symbol.toList = [c]
  | .mark c, .opening => c = '('
  | .mark c, .closing => c = ')'
  | _, _ => False

/-- A lexeme without a token, with its fault and what is reported about it. -/
inductive Fails : Lexeme → Fault → Report → Prop
  | unexpectedCharacter {c : Char} (h : c ∉ ['+', '-', '*', '/', '(', ')']) :
      Fails (.mark c) (.unexpectedCharacter c)
        ⟨.unexpectedCharacter, "Unexpected character: " ++ String.singleton c,
          some (String.singleton c)⟩
  | invalidNumber {cs : List Char} (h : ∀ l : Literal, l.text ≠ cs) :
      Fails (.run cs) (.invalidNumber cs)
        ⟨.invalidNumber, "Invalid number: " ++ String.ofList cs, none⟩
  | numberTooLarge {l : Literal} (h : 2 ^ 1024 - 2 ^ 970 ≤ l.decimal.toRat) :
      Fails (.run l.text) .numberTooLarge ⟨.numberTooLarge, "Number too large", none⟩

theorem Fails.report?_eq {l : Lexeme} {fault : Fault} {report : Report}
    (h : l.Fails fault report) : fault.report? = some report := by
  cases h with
  | unexpectedCharacter h => rfl
  | invalidNumber h =>
    simp [Fault.report?, Kind.report]
  | numberTooLarge h => rfl

theorem token_mark_of_mem {c : Char} (h : c ∈ ['+', '-', '*', '/', '(', ')']) :
    ∃ t, (Lexeme.mark c).token = .ok t := by
  simp only [List.mem_cons, List.not_mem_nil, or_false] at h
  rcases h with rfl | rfl | rfl | rfl | rfl | rfl <;> exact ⟨_, rfl⟩

theorem token_mark_of_not_mem {c : Char} (h : c ∉ ['+', '-', '*', '/', '(', ')']) :
    (Lexeme.mark c).token = .error (.unexpectedCharacter c) := by
  simp only [List.mem_cons, List.not_mem_nil, or_false, not_or] at h
  obtain ⟨hadd, hsub, hmul, hdiv, hopening, hclosing⟩ := h
  rw [Primitive.token_mark hopening hclosing, Primitive.ofChar?_eq_none (by simp [*])]

theorem token_mark_eq_ok_iff {c : Char} {t : Token} :
    (Lexeme.mark c).token = .ok t ↔ (Lexeme.mark c).Denotes t := by
  constructor
  · intro h
    rcases of_token h with ⟨cs, n, hl, -⟩ | ⟨hl, rfl⟩ | ⟨hl, rfl⟩ | ⟨d, o, hl, ho, rfl⟩
    · cases hl
    · exact Lexeme.mark.inj hl
    · exact Lexeme.mark.inj hl
    · obtain rfl := Lexeme.mark.inj hl
      unfold Operator.ofChar? at ho
      split at ho <;> first | (obtain rfl := Option.some.inj ho; rfl) | cases ho
  · intro h
    cases t with
    | number v => cases h
    | opening =>
      obtain rfl : c = '(' := h
      rfl
    | closing =>
      obtain rfl : c = ')' := h
      rfl
    | op o =>
      have hsymbol : o.symbol.toList = [c] := h
      cases o <;> simp [Operator.symbol] at hsymbol <;> subst hsymbol <;> rfl

theorem token_run_eq_ok_iff {cs : List Char} (hcs : ∀ c ∈ cs, isNumberChar c = true) {t : Token} :
    (Lexeme.run cs).token = .ok t ↔ (Lexeme.run cs).Denotes t := by
  constructor
  · intro h
    rcases of_token h with ⟨r, n, hl, hn, rfl⟩ | ⟨hl, -⟩ | ⟨hl, -⟩ | ⟨d, o, hl, -⟩
    · obtain rfl := Lexeme.run.inj hl
      obtain ⟨l, rfl⟩ := exists_literal_of_runNumeral? hcs hn
      cases hfinite : l.value.isFinite with
      | false =>
        rw [l.token_run_of_not_isFinite hfinite] at h
        cases h
      | true =>
        rw [l.token_run hfinite] at h
        rw [← Except.ok.inj h]
        exact ⟨l, rfl, l.isRounded_value hfinite⟩
    · cases hl
    · cases hl
    · cases hl
  · intro h
    cases t with
    | number v =>
      obtain ⟨l, rfl, hv⟩ := h
      obtain ⟨rfl, hfinite⟩ := l.value_eq_of_isRounded hv
      exact l.token_run hfinite
    | _ => cases h

theorem token_eq_ok_iff {l : Lexeme} (hl : ∀ c ∈ l.chars, isNumberChar c = l.isRun) {t : Token} :
    l.token = .ok t ↔ l.Denotes t := by
  cases l with
  | run cs => exact token_run_eq_ok_iff hl
  | mark c => exact token_mark_eq_ok_iff

theorem token_of_isWellFormed {l : Lexeme} (h : l.IsWellFormed) : ∃ t, l.token = .ok t := by
  cases l with
  | run cs =>
    obtain ⟨l, rfl, hvalue⟩ := h
    exact ⟨_, l.token_run (l.isFinite_value_iff.2 hvalue)⟩
  | mark c => exact token_mark_of_mem h

theorem token_of_fails {l : Lexeme} {fault : Fault} {report : Report} (h : l.Fails fault report)
    (hl : ∀ c ∈ l.chars, isNumberChar c = l.isRun) : l.token = .error fault := by
  cases h with
  | unexpectedCharacter h => exact token_mark_of_not_mem h
  | invalidNumber h =>
    rename_i cs
    cases hn : runNumeral? cs with
    | none => rw [token, hn]
    | some n =>
      obtain ⟨l, rfl⟩ := exists_literal_of_runNumeral? hl hn
      exact absurd rfl (h l)
  | numberTooLarge h =>
    rename_i l
    refine l.token_run_of_not_isFinite ?_
    rw [Bool.eq_false_iff, ne_eq, l.isFinite_value_iff]
    exact not_lt.2 h

/-- A lexeme is well formed or fails, by its text and its exact value alone. -/
theorem isWellFormed_or_fails (l : Lexeme) :
    l.IsWellFormed ∨ ∃ fault report, l.Fails fault report := by
  cases l with
  | run cs =>
    by_cases hliteral : ∃ l : Literal, l.text = cs
    · obtain ⟨l, rfl⟩ := hliteral
      rcases lt_or_ge l.decimal.toRat (2 ^ 1024 - 2 ^ 970) with hlt | hge
      · exact .inl ⟨l, rfl, hlt⟩
      · exact .inr ⟨_, _, .numberTooLarge hge⟩
    · exact .inr ⟨_, _, .invalidNumber (not_exists.1 hliteral)⟩
  | mark c =>
    by_cases hc : c ∈ ['+', '-', '*', '/', '(', ')']
    · exact .inl hc
    · exact .inr ⟨_, _, .unexpectedCharacter hc⟩

variable {l : Lexeme}

theorem isWellFormed_iff (hl : ∀ c ∈ l.chars, isNumberChar c = l.isRun) :
    l.IsWellFormed ↔ ∃ t, l.token = .ok t := by
  refine ⟨token_of_isWellFormed, ?_⟩
  rintro ⟨t, ht⟩
  refine l.isWellFormed_or_fails.resolve_right ?_
  rintro ⟨fault, report, hfails⟩
  rw [token_of_fails hfails hl] at ht
  cases ht

theorem token_eq_error_iff (hl : ∀ c ∈ l.chars, isNumberChar c = l.isRun) {fault : Fault} :
    l.token = .error fault ↔ ∃ report, l.Fails fault report ∧ fault.report? = some report := by
  constructor
  · intro h
    rcases l.isWellFormed_or_fails with hwell | ⟨fault', report, hfails⟩
    · obtain ⟨t, ht⟩ := token_of_isWellFormed hwell
      rw [ht] at h
      cases h
    · rw [token_of_fails hfails hl] at h
      obtain rfl := Except.error.inj h
      exact ⟨report, hfails, hfails.report?_eq⟩
  · rintro ⟨report, hfails, -⟩
    exact token_of_fails hfails hl

end Lexeme

/-- A lexeme with a number for its token is a literal. -/
theorem exists_literal_of_token {cs : List Char} {m : Lexeme} (hm : m ∈ lexemes cs) {v : Binary64}
    (h : m.token = .ok (.number v)) :
    ∃ l : Literal, m = .run l.text ∧ v = l.value ∧ l.value.isFinite = true := by
  have hdenotes := (Lexeme.token_eq_ok_iff (of_mem_lexemes hm).2).1 h
  cases m with
  | mark c => cases hdenotes
  | run r =>
    obtain ⟨l, rfl, hv⟩ := hdenotes
    obtain ⟨hvalue, hfinite⟩ := l.value_eq_of_isRounded hv
    exact ⟨l, rfl, hvalue.symm, hfinite⟩

theorem exists_number_of_token_run {r : List Char} {t : Token} (h : (Lexeme.run r).token = .ok t) :
    ∃ v, t = .number v := by
  rcases Lexeme.of_token h with ⟨cs, n, -, -, rfl⟩ | ⟨hl, -⟩ | ⟨hl, -⟩ | ⟨c, o, hl, -⟩
  · exact ⟨_, rfl⟩
  · cases hl
  · cases hl
  · cases hl

/-! ## Tokens and faults of texts -/

section

variable {s : List Char} {ls : List Lexeme} (h : SplitsInto (withoutBlanks s) ls)

include h

theorem SplitsInto.tokenize_eq : tokenize s = ls.mapM Lexeme.token := by
  rw [tokenize, h.eq_lexemes]

theorem SplitsInto.tokenize_eq_ok_iff {tokens : List Token} :
    tokenize s = .ok tokens ↔ List.Forall₂ Lexeme.Denotes ls tokens := by
  rw [h.tokenize_eq, mapM_eq_ok_iff]
  exact forall₂_congr_of_mem h.ofClass fun l t hl => Lexeme.token_eq_ok_iff hl.2

theorem SplitsInto.exists_tokenize_eq_ok_iff :
    (∃ tokens, tokenize s = .ok tokens) ↔ ∀ l ∈ ls, l.IsWellFormed := by
  rw [h.tokenize_eq, exists_mapM_eq_ok_iff]
  exact forall₂_congr fun l hl => (Lexeme.isWellFormed_iff (h.ofClass l hl).2).symm

theorem SplitsInto.tokenize_eq_error_iff {fault : Fault} :
    tokenize s = .error fault ↔ ∃ before l after report, ls = before ++ l :: after ∧
      (∀ m ∈ before, m.IsWellFormed) ∧ l.Fails fault report ∧ fault.report? = some report := by
  rw [h.tokenize_eq, mapM_eq_error_iff]
  constructor
  · rintro ⟨before, l, after, rfl, hbefore, hl⟩
    have hclass := (h.ofClass l (by simp)).2
    obtain ⟨report, hfails, hreport⟩ := (Lexeme.token_eq_error_iff hclass).1 hl
    refine ⟨before, l, after, report, rfl, fun m hm => ?_, hfails, hreport⟩
    exact (Lexeme.isWellFormed_iff (h.ofClass m (List.mem_append_left _ hm)).2).2 (hbefore m hm)
  · rintro ⟨before, l, after, report, rfl, hbefore, hfails, -⟩
    have hclass := (h.ofClass l (by simp)).2
    exact ⟨before, l, after, rfl, fun m hm => Lexeme.token_of_isWellFormed (hbefore m hm),
      Lexeme.token_of_fails hfails hclass⟩

end

/-- **Scanning a text.** Without its blanks the text is split into lexemes in one way. It has tokens
exactly when every lexeme is well formed, and then each lexeme has the token that it denotes; else
it has the fault of its leftmost lexeme with one, whatever follows that. -/
theorem exists_splitsInto_tokenize (s : List Char) : ∃ ls, SplitsInto (withoutBlanks s) ls ∧
    (∀ ms, SplitsInto (withoutBlanks s) ms → ms = ls) ∧
    ((∃ tokens, tokenize s = .ok tokens) ↔ ∀ l ∈ ls, l.IsWellFormed) ∧
    (∀ tokens, tokenize s = .ok tokens ↔ List.Forall₂ Lexeme.Denotes ls tokens) ∧
    (∀ fault, tokenize s = .error fault ↔ ∃ before l after report, ls = before ++ l :: after ∧
      (∀ m ∈ before, m.IsWellFormed) ∧ l.Fails fault report ∧ fault.report? = some report) ∧
    ∀ before l after after' s', ls = before ++ l :: after → ¬l.IsWellFormed →
      SplitsInto (withoutBlanks s') (before ++ l :: after') → tokenize s' = tokenize s := by
  have hsplit := splitsInto_lexemes (withoutBlanks s)
  refine ⟨_, hsplit, fun ms hms => hms.eq_lexemes, hsplit.exists_tokenize_eq_ok_iff,
    fun tokens => hsplit.tokenize_eq_ok_iff, fun fault => hsplit.tokenize_eq_error_iff, ?_⟩
  intro before l after after' s' hls hl hsplit'
  rw [hsplit.tokenize_eq, hsplit'.tokenize_eq, hls]
  obtain ⟨fault, report, hfails⟩ := l.isWellFormed_or_fails.resolve_left hl
  have hclass := (hsplit'.ofClass l (by simp)).2
  exact mapM_append_cons_eq (Lexeme.token_of_fails hfails hclass) before after' after

-- the second point is at fault before the character that no expression has
example : tokenize "2 .5*1..2#".toList = .error (.invalidNumber "1..2".toList) := by
  decide +kernel

end DeskCalculator
