import DeskCalculator.Proofs.Expression.Tokens
import DeskCalculator.Proofs.Keypad.Sign

/-!
# Signs of scanned numbers

* `LastLiteral` : the last number that is scanned, between the tokens of both sides;
  `LastLiteral.lastNumber`, `LastLiteral.lastNumber_of_point` : which of its characters are found;
* `PointBeforeLast` : so a number that starts with its point is found without the point;
* `readsAsSign_getLast?_iff`, `endsInSign_iff` : a text and its tokens agree on what is a sign;
* `SignFlipped` : the tokens with a sign of the last number put in or taken out;
* `signFlipped_toggleSign_iff` : flipping a sign in a text flips it in the tokens, unless the last
  number starts with its point, which is then left alone.
-/

namespace DeskCalculator.Keypad

theorem exists_last_of_exists {α : Type} {p : α → Prop} {l : List α} (h : ∃ a ∈ l, p a) :
    ∃ front a back, l = front ++ a :: back ∧ p a ∧ ∀ b ∈ back, ¬p b := by
  induction l with
  | nil => simp at h
  | cons a l ih =>
    by_cases hl : ∃ b ∈ l, p b
    · obtain ⟨front, b, back, rfl, hb, hback⟩ := ih hl
      exact ⟨a :: front, b, back, rfl, hb, hback⟩
    · obtain ⟨b, hb, hp⟩ := h
      have hback : ∀ b ∈ l, ¬p b := fun c hc hpc => hl ⟨c, hc, hpc⟩
      rcases List.mem_cons.1 hb with rfl | hb
      · exact ⟨[], b, l, rfl, hp, hback⟩
      · exact absurd hp (hback b hb)

/-! ## The last number that is scanned -/

/-- The last number of a text, with the tokens of what comes before and after it. -/
structure LastLiteral (outer : List Char) (l : Literal) (after : List Char)
    (before rest : List Token) : Prop where
  isFinite : l.value.isFinite = true
  tokens_outer : (lexemes outer).mapM Lexeme.token = .ok before
  tokens_after : (lexemes after).mapM Lexeme.token = .ok rest
  apart : ∀ c ∈ outer.getLast?, isNumberChar c = false
  no_number_char_after : ∀ c ∈ after, isNumberChar c = false
  no_number_after : ∀ v, .number v ∉ rest

/-- Where no number is scanned there is no character of one. -/
theorem not_isNumberChar_of_mapM_token {cs : List Char} {tokens : List Token}
    (h : (lexemes cs).mapM Lexeme.token = .ok tokens) (hnumber : ∀ v, .number v ∉ tokens) :
    ∀ c ∈ cs, isNumberChar c = false := by
  intro c hc
  rw [← flatten_lexemes cs] at hc
  obtain ⟨chars, hchars, hc⟩ := List.mem_flatten.1 hc
  obtain ⟨l, hl, rfl⟩ := List.mem_map.1 hchars
  rw [(of_mem_lexemes hl).2 c hc]
  cases l with
  | mark d => rfl
  | run r =>
    obtain ⟨t, ht, htoken⟩ := exists_mem_of_mapM_eq_ok h hl
    obtain ⟨v, rfl⟩ := exists_number_of_token_run htoken
    exact absurd ht (hnumber v)

theorem exists_lastLiteral {e : List Char} {tokens : List Token}
    (h : (lexemes e).mapM Lexeme.token = .ok tokens) (hnumber : ∃ v, .number v ∈ tokens) :
    ∃ outer l after before rest, e = outer ++ (l.text ++ after) ∧
      tokens = before ++ .number l.value :: rest ∧ LastLiteral outer l after before rest := by
  obtain ⟨v, hv⟩ := hnumber
  obtain ⟨before, t, rest, rfl, ⟨v, rfl⟩, hrest⟩ :=
    exists_last_of_exists (p := fun t => ∃ v, t = .number v) ⟨_, hv, v, rfl⟩
  obtain ⟨ls, ms, hlexemes, hls, hms⟩ := exists_append_of_mapM_eq_ok h
  cases ms with
  | nil => cases hms
  | cons m ms =>
    obtain ⟨t, us, hcons, hm, hus⟩ := mapM_cons_eq_ok_iff.1 hms
    obtain ⟨rfl, rfl⟩ := List.cons.inj hcons
    have hmem : m ∈ lexemes e := by simp [hlexemes]
    obtain ⟨l, rfl, rfl, hfinite⟩ := exists_literal_of_token hmem hm
    have htext := splitsInto_lexemes e
    rw [hlexemes] at htext
    obtain ⟨outer, after, rfl, rfl, rfl, houter, -⟩ := htext.exists_run
    have hno : ∀ w, Token.number w ∉ rest := fun w hw => hrest _ hw ⟨w, rfl⟩
    exact ⟨outer, l, after, before, rest, rfl, rfl, hfinite, hls, hus, houter,
      not_isNumberChar_of_mapM_token hus hno, hno⟩

/-- A point comes directly before the number that is found last. -/
def PointBeforeLast (e : List Char) : Prop :=
  ∃ front number after, e = (front ++ ['.']) ++ (number ++ after) ∧
    LastNumber (front ++ ['.']) number after

section

variable {outer after : List Char} {l : Literal} {before rest : List Token}
  (h : LastLiteral outer l after before rest)

include h

theorem LastLiteral.no_digit_after : ∀ c ∈ after, isDigit c = false :=
  fun c hc => not_isDigit_of_not_isNumberChar (h.no_number_char_after c hc)

theorem LastLiteral.no_digit_before : ∀ c ∈ outer.getLast?, isDigit c = false :=
  fun c hc => not_isDigit_of_not_isNumberChar (h.apart c hc)

/-- A literal that starts with a digit is the last number of the text. -/
theorem LastLiteral.lastNumber (hstart : l.hasPoint = true → l.whole ≠ []) :
    LastNumber outer l.text after := by
  refine ⟨?_, h.no_digit_after, h.no_digit_before, ?_⟩
  · unfold Literal.text
    cases hpoint : l.hasPoint with
    | true => exact .fraction l.whole_digits (hstart hpoint) l.last_digits l.last_ne_nil
    | false =>
      have hdigits : ∀ c ∈ l.whole ++ l.last, isDigit c = true :=
        List.forall_mem_append.2 ⟨l.whole_digits, l.last_digits⟩
      exact .whole hdigits (by simp [l.last_ne_nil])
  · rintro - front d rfl
    have hpoint := h.apart '.' (by simp)
    cases hpoint

/-- Of a literal that starts with its point the digits are the last number. -/
theorem LastLiteral.lastNumber_of_point : LastNumber (outer ++ ['.']) l.last after := by
  refine ⟨.whole l.last_digits l.last_ne_nil, h.no_digit_after, ?_, ?_⟩
  · intro c hc
    rw [List.getLast?_concat, Option.mem_some_iff] at hc
    rw [← hc]
    decide
  · rintro - front d houter
    rw [List.append_cons front] at houter
    obtain ⟨rfl, -⟩ := List.append_inj' houter rfl
    exact h.no_digit_before d List.getLast?_concat

theorem LastLiteral.pointBeforeLast_iff :
    PointBeforeLast (outer ++ (l.text ++ after)) ↔ l.hasPoint = true ∧ l.whole = [] := by
  constructor
  · rintro ⟨front, number, after', heq, hlast⟩
    by_contra hstart
    rw [not_and] at hstart
    obtain ⟨rfl, -, -⟩ := (h.lastNumber hstart).unique hlast heq
    have hpoint := h.apart '.' (by simp)
    cases hpoint
  · rintro ⟨hpoint, hwhole⟩
    exact ⟨outer, l.last, after, by simp [Literal.text, hpoint, hwhole], h.lastNumber_of_point⟩

/-- The tokens of the literal and what comes after it do not depend on what comes before. -/
theorem LastLiteral.mapM_token {front : List Char} {tokens : List Token}
    (hfront : ∀ c ∈ front.getLast?, isNumberChar c = false)
    (htokens : (lexemes front).mapM Lexeme.token = .ok tokens) :
    (lexemes (front ++ (l.text ++ after))).mapM Lexeme.token =
      .ok (tokens ++ .number l.value :: rest) := by
  have hafter : ∀ c ∈ after.head?, isNumberChar c = false :=
    fun c hc => h.no_number_char_after c (List.mem_of_mem_head? hc)
  rw [lexemes_append_run l.isNumberChar_of_mem_text l.text_ne_nil hfront hafter]
  exact mapM_append_eq_ok_iff.2
    ⟨tokens, _, rfl, htokens, mapM_cons_eq_ok (l.token_run h.isFinite) h.tokens_after⟩

end

/-! ## Signs in texts and in tokens -/

theorem isOperatorChar_iff_ofChar? {c : Char} :
    isOperatorChar c = true ↔ ∃ o, Operator.ofChar? c = some o := by
  simp only [isOperatorChar, Bool.or_eq_true, beq_iff_eq]
  constructor
  · rintro (((rfl | rfl) | rfl) | rfl) <;> exact ⟨_, rfl⟩
  · rintro ⟨o, ho⟩
    unfold Operator.ofChar? at ho
    split at ho
    · simp
    · simp
    · simp
    · simp
    · cases ho

theorem not_isOperatorChar_of_isNumberChar {c : Char} (h : isNumberChar c = true) :
    isOperatorChar c = false := by
  rw [isNumberChar, Bool.or_eq_true, beq_iff_eq] at h
  rcases h with h | rfl
  · exact not_isOperatorChar_of_isDigit h
  · decide

/-- An operator would be read as a sign after the tokens of a text where a minus would be one after
the text. -/
theorem readsAsSign_getLast?_iff {outer : List Char} {tokens : List Token}
    (h : (lexemes outer).mapM Lexeme.token = .ok tokens) :
    readsAsSign tokens.getLast? = true ↔
      ∀ c ∈ outer.getLast?, isOperatorChar c = true ∨ c = '(' := by
  rcases List.eq_nil_or_concat outer with rfl | ⟨front, c, rfl⟩
  · obtain rfl := Except.ok.inj h
    simp [readsAsSign]
  rw [List.concat_eq_append] at *
  obtain ⟨ls, l, hls, hc⟩ := exists_getLast?_lexemes front c
  have hmem : l ∈ lexemes (front ++ [c]) := by rw [hls]; simp
  have hclass := (of_mem_lexemes hmem).2 c (List.mem_of_getLast? hc)
  rw [hls] at h
  obtain ⟨us, ts, rfl, -, hts⟩ := mapM_append_eq_ok_iff.1 h
  obtain ⟨t, vs, rfl, ht, hvs⟩ := mapM_cons_eq_ok_iff.1 hts
  rw [List.mapM_nil] at hvs
  obtain rfl := Except.ok.inj hvs
  simp only [List.getLast?_concat, Option.mem_some_iff, forall_eq']
  rcases Lexeme.of_token ht with ⟨r, n, rfl, -, rfl⟩ | ⟨rfl, rfl⟩ | ⟨rfl, rfl⟩ | ⟨d, o, rfl, ho, rfl⟩
  · have hoperator := not_isOperatorChar_of_isNumberChar hclass
    have hopening : c ≠ '(' := by rintro rfl; cases hclass
    simp [readsAsSign, hoperator, hopening]
  · obtain rfl := Option.some.inj hc
    decide
  · obtain rfl := Option.some.inj hc
    decide
  · obtain rfl := Option.some.inj hc
    simp [readsAsSign, isOperatorChar_iff_ofChar?.2 ⟨o, ho⟩]

theorem mapM_token_minus {outer : List Char} {tokens : List Token}
    (h : (lexemes outer).mapM Lexeme.token = .ok tokens) :
    (lexemes (outer ++ ['-'])).mapM Lexeme.token = .ok (tokens ++ [.op .sub]) :=
  mapM_token_mark (by decide) rfl h rfl

/-- A minus at the end of the tokens is one at the end of the text. -/
theorem exists_of_mapM_token_minus {outer : List Char} {tokens : List Token}
    (h : (lexemes outer).mapM Lexeme.token = .ok (tokens ++ [.op .sub])) :
    ∃ front, outer = front ++ ['-'] ∧ (lexemes front).mapM Lexeme.token = .ok tokens := by
  obtain ⟨ls, ms, hlexemes, hls, hms⟩ := exists_append_of_mapM_eq_ok h
  cases ms with
  | nil => cases hms
  | cons m ms =>
    obtain ⟨t, us, hcons, hm, hus⟩ := mapM_cons_eq_ok_iff.1 hms
    obtain ⟨rfl, rfl⟩ := List.cons.inj hcons
    have hmem : m ∈ lexemes outer := by simp [hlexemes]
    have hdenotes := (Lexeme.token_eq_ok_iff (of_mem_lexemes hmem).2).1 hm
    cases m with
    | run r => cases hdenotes
    | mark c =>
      obtain rfl : '-' = c := (List.cons.inj hdenotes).1
      have hlength := (forall₂_of_mapM_eq_ok hus).length_eq
      obtain rfl := List.eq_nil_of_length_eq_zero hlength
      have houter := flatten_lexemes outer
      rw [hlexemes, List.map_append, List.flatten_append] at houter
      have hfront : lexemes ((ls.map Lexeme.chars).flatten ++ ['-']) = ls ++ [.mark '-'] := by
        rw [← hlexemes, ← houter]
        rfl
      rw [lexemes_append_mark (by decide)] at hfront
      rw [← (List.append_inj' hfront rfl).1] at hls
      exact ⟨_, houter.symm, hls⟩

/-- A sign at the end of the text is one at the end of its tokens. -/
theorem endsInSign_iff {outer : List Char} {tokens : List Token}
    (h : (lexemes outer).mapM Lexeme.token = .ok tokens) :
    endsInSign outer = true ↔
      ∃ front, tokens = front ++ [.op .sub] ∧ readsAsSign front.getLast? = true := by
  constructor
  · intro hsign
    obtain ⟨front, rfl, hfront⟩ := of_endsInSign hsign
    rw [lexemes_append_mark (by decide)] at h
    obtain ⟨us, vs, rfl, hus, hvs⟩ := mapM_append_eq_ok_iff.1 h
    obtain rfl := Except.ok.inj hvs
    exact ⟨us, rfl, (readsAsSign_getLast?_iff hus).2 hfront⟩
  · rintro ⟨front, rfl, hfront⟩
    obtain ⟨text, rfl, htext⟩ := exists_of_mapM_token_minus h
    exact endsInSign_minus ((readsAsSign_getLast?_iff htext).1 hfront)

/-! ## Flipping -/

/-- A minus is put directly before the last number, unless one that is a sign is there already, which
is then taken away. -/
inductive SignFlipped : List Token → List Token → Prop
  | put {before rest : List Token} {v : Binary64} (hrest : ∀ w, .number w ∉ rest)
      (hsign : ∀ front, before = front ++ [.op .sub] → readsAsSign front.getLast? = false) :
      SignFlipped (before ++ .number v :: rest) (before ++ .op .sub :: .number v :: rest)
  | taken {front rest : List Token} {v : Binary64} (hrest : ∀ w, .number w ∉ rest)
      (hsign : readsAsSign front.getLast? = true) :
      SignFlipped (front ++ .op .sub :: .number v :: rest) (front ++ .number v :: rest)

theorem no_blank_of_minus {front back : List Char} (h : ∀ c ∈ front ++ back, isBlank c = false) :
    ∀ c ∈ front ++ '-' :: back, isBlank c = false := by
  rw [List.forall_mem_append] at h ⊢
  exact ⟨h.1, List.forall_mem_cons.2 ⟨by decide, h.2⟩⟩

theorem not_isNumberChar_of_sign {c : Char} (h : isOperatorChar c = true ∨ c = '(') :
    isNumberChar c = false := by
  rw [Bool.eq_false_iff]
  intro hnumber
  rcases h with hop | rfl
  · rw [not_isOperatorChar_of_isNumberChar hnumber] at hop
    cases hop
  · cases hnumber

section

variable {limit : Option Int} {outer after : List Char} {l : Literal} {before rest : List Token}
  (h : LastLiteral outer l after before rest)
  (hblanks : ∀ c ∈ outer ++ (l.text ++ after), isBlank c = false)
  (hroom : (outer ++ (l.text ++ after)).length < effectiveLimit limit)

include h hblanks hroom

theorem LastLiteral.signFlipped (hstart : l.hasPoint = true → l.whole ≠ []) :
    ∃ tokens, tokenize (toggleSign limit (outer ++ (l.text ++ after))) = .ok tokens ∧
      SignFlipped (before ++ .number l.value :: rest) tokens := by
  have hlast := h.lastNumber hstart
  have hline : '\n' ∉ outer ++ (l.text ++ after) := fun hmem => absurd (hblanks _ hmem) (by decide)
  cases hsign : endsInSign outer with
  | true =>
    obtain ⟨tokens, rfl, htokens⟩ := (endsInSign_iff h.tokens_outer).1 hsign
    obtain ⟨front, rfl, hfront⟩ := exists_of_mapM_token_minus h.tokens_outer
    have hapart : ∀ c ∈ front.getLast?, isNumberChar c = false := fun c hc =>
      not_isNumberChar_of_sign ((readsAsSign_getLast?_iff hfront).1 htokens c hc)
    have hblanks' : ∀ c ∈ front ++ (l.text ++ after), isBlank c = false :=
      fun c hc => hblanks c (((List.sublist_append_left front ['-']).append_right _).subset hc)
    refine ⟨tokens ++ .number l.value :: rest, ?_, ?_⟩
    · rw [toggleSign_signed hline hlast hsign, tokenize_of_no_blank hblanks']
      exact h.mapM_token hapart hfront
    · rw [List.append_assoc, List.singleton_append]
      exact .taken h.no_number_after htokens
  | false =>
    have hapart : ∀ c ∈ (outer ++ ['-']).getLast?, isNumberChar c = false := by simp; decide
    have htokens := h.mapM_token hapart (mapM_token_minus h.tokens_outer)
    refine ⟨_, ?_, .put h.no_number_after fun front hfront => ?_⟩
    · rw [toggleSign_unsigned_of_lt hline hlast hsign hroom,
        tokenize_of_no_blank (no_blank_of_minus hblanks), List.append_cons, htokens,
        ← List.append_cons]
    · rw [← Bool.not_eq_true]
      intro hreads
      rw [(endsInSign_iff h.tokens_outer).2 ⟨front, hfront, hreads⟩] at hsign
      cases hsign

/-- What is left of the literal before the sign is its point. -/
theorem LastLiteral.tokenize_of_point (hpoint : l.hasPoint = true ∧ l.whole = []) :
    tokenize (toggleSign limit (outer ++ (l.text ++ after))) = .error (.invalidNumber ['.']) := by
  have htext : outer ++ (l.text ++ after) = (outer ++ ['.']) ++ (l.last ++ after) := by
    simp [Literal.text, hpoint.1, hpoint.2]
  rw [htext] at hblanks hroom ⊢
  have hline : '\n' ∉ (outer ++ ['.']) ++ (l.last ++ after) :=
    fun hmem => absurd (hblanks _ hmem) (by decide)
  have hsign : endsInSign (outer ++ ['.']) = false := by rw [endsInSign_concat]; rfl
  rw [toggleSign_unsigned_of_lt hline h.lastNumber_of_point hsign hroom,
    tokenize_of_no_blank (no_blank_of_minus hblanks), List.append_assoc]
  have hchars : ∀ c ∈ ['.'], isNumberChar c = true := List.forall_mem_singleton.2 rfl
  have hlexemes : lexemes (outer ++ (['.'] ++ '-' :: (l.last ++ after))) =
      lexemes outer ++ .run ['.'] :: lexemes ('-' :: (l.last ++ after)) :=
    lexemes_append_run hchars (List.cons_ne_nil _ _) h.apart (by simp; decide)
  rw [hlexemes, mapM_eq_error_iff]
  exact ⟨lexemes outer, _, _, rfl, exists_mapM_eq_ok_iff.1 ⟨before, h.tokens_outer⟩, rfl⟩

end

/-- **Flipping a sign flips it in the tokens** of a text without blanks that has a number and room
for a sign, unless the last number starts with its point: then the sign goes after the point, and
the result cannot be scanned. -/
theorem signFlipped_toggleSign_iff {limit : Option Int} {e : List Char} {tokens : List Token}
    (hblanks : withoutBlanks e = e) (htokens : tokenize e = .ok tokens)
    (hnumber : ∃ v, .number v ∈ tokens) (hroom : e.length < effectiveLimit limit) :
    ((∃ tokens', tokenize (toggleSign limit e) = .ok tokens' ∧ SignFlipped tokens tokens') ↔
        ¬PointBeforeLast e) ∧
      (PointBeforeLast e → tokenize (toggleSign limit e) = .error (.invalidNumber ['.'])) := by
  rw [withoutBlanks_eq_self_iff] at hblanks
  rw [tokenize_of_no_blank hblanks] at htokens
  obtain ⟨outer, l, after, before, rest, rfl, rfl, h⟩ := exists_lastLiteral htokens hnumber
  rw [h.pointBeforeLast_iff]
  have hpoint := h.tokenize_of_point hblanks hroom
  refine ⟨⟨?_, fun hstart => h.signFlipped hblanks hroom (not_and.1 hstart)⟩, hpoint⟩
  rintro ⟨tokens', htokens', -⟩ hstart
  rw [hpoint hstart] at htokens'
  cases htokens'

theorem pointBeforeLast_iff_findLastNumber {e : List Char} (hline : '\n' ∉ e) :
    PointBeforeLast e ↔
      ∃ found, findLastNumber e = some found ∧ found.before.getLast? = some '.' := by
  constructor
  · rintro ⟨front, number, after, rfl, hlast⟩
    exact ⟨_, findLastNumber_of_lastNumber hline hlast, List.getLast?_concat⟩
  · rintro ⟨⟨before, number, after⟩, hfound, hpoint⟩
    obtain ⟨front, rfl⟩ := List.getLast?_eq_some_iff.1 hpoint
    exact ⟨front, number, after, (findLastNumber_append hfound).1.symm,
      lastNumber_of_findLastNumber hline hfound⟩

/-- The sign comes before the whole of a number that starts with a digit, and after the point of one
that starts with it. -/
theorem signFlipped_toggleSign_iff_two_texts :
    let v (n : Int) : Token := .number (.ofInt n)
    (∃ tokens, tokenize (toggleSign none "(3-5)".toList) = .ok tokens ∧
        SignFlipped [.opening, v 3, .op .sub, v 5, .closing] tokens) ∧
      tokenize (toggleSign none "3-.0".toList) = .error (.invalidNumber ['.']) := by
  intro v
  constructor
  · have htokens : tokenize "(3-5)".toList = .ok [.opening, v 3, .op .sub, v 5, .closing] := by
      decide +kernel
    have hnumber : ∃ w, .number w ∈ [.opening, v 3, .op .sub, v 5, .closing] :=
      ⟨.ofInt 3, by simp [v]⟩
    have hfound : findLastNumber "(3-5)".toList = some ⟨"(3-".toList, "5".toList, ")".toList⟩ := by
      decide +kernel
    refine (signFlipped_toggleSign_iff (by decide) htokens hnumber (by decide)).1.2 ?_
    rw [pointBeforeLast_iff_findLastNumber (by decide), hfound]
    simp
  · have htokens : tokenize "3-.0".toList = .ok [v 3, .op .sub, v 0] := by decide +kernel
    have hnumber : ∃ w, .number w ∈ [v 3, .op .sub, v 0] := ⟨.ofInt 3, by simp [v]⟩
    have hfound : findLastNumber "3-.0".toList = some ⟨"3-.".toList, "0".toList, []⟩ := by
      decide +kernel
    refine (signFlipped_toggleSign_iff (by decide) htokens hnumber (by decide)).2 ?_
    rw [pointBeforeLast_iff_findLastNumber (by decide), hfound]
    exact ⟨_, rfl, rfl⟩

/-- Not every number that is scanned is found whole: half, written without a zero, is not. -/
theorem exists_torn_number :
    ¬∀ (limit : Option Int) (e : List Char) (tokens : List Token), withoutBlanks e = e →
      tokenize e = .ok tokens → (∃ v, .number v ∈ tokens) → e.length < effectiveLimit limit →
        ∃ tokens', tokenize (toggleSign limit e) = .ok tokens' := by
  intro hall
  let half := Binary64.ofRatio false unitsInOne 2
  have htokens : tokenize ".5".toList = .ok [.number half] := by decide +kernel
  have hfault : tokenize (toggleSign none ".5".toList) = .error (.invalidNumber ['.']) := by
    decide +kernel
  obtain ⟨tokens, hflipped⟩ :=
    hall none ".5".toList _ (by decide) htokens ⟨half, List.mem_singleton_self _⟩ (by decide)
  rw [hfault] at hflipped
  cases hflipped

end DeskCalculator.Keypad
