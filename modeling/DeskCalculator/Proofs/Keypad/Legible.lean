import DeskCalculator.Proofs.Expression.Tokens
import DeskCalculator.Proofs.Keypad.Length
import DeskCalculator.Proofs.Keypad.Orderly
import Mathlib.Data.List.DropRight

/-!
# Tokens of composed expressions

* `Legible` : the key characters alone, at most one point in a number and that after a digit, and an
  operator between a closing parenthesis and a number or a group; `legible_of_composed` : the
  invariants of composition as the text shows them;
* `Legible.exists_run` : so a number is digits, or digits, a point and digits or none;
* `HoldsDanglingPoint`, `DanglesAfter` : a point without a digit after it, and where the number with
  it starts; `TooLarge` : a number beyond the finite ones;
* `Legible.of_tokenize_eq_error` : scanning fails on the first such number, and on nothing else;
* `tokenize_pressAll` : so does scanning what keys compose, and up to a limit of 308 characters no
  number is too large.
-/

namespace DeskCalculator.Keypad

/-! ## The text -/

/-- The key characters alone, at most one point in a number and that after a digit, and an operator
between a closing parenthesis and a number or a group. -/
structure Legible (e : List Char) : Prop where
  keys : ∀ c ∈ e, c ∈ "0123456789+-*/.()".toList
  one_point : ∀ run, run <:+: e → (∀ c ∈ run, isNumberChar c = true) → run.count '.' ≤ 1
  digit_before_point : ∀ front, front ++ ['.'] <+: e → ∃ d ∈ front.getLast?, isDigit d = true
  after_closing : ∀ c, [')', c] <:+: e → isNumberChar c = false
  before_opening : ∀ c, [c, '('] <:+: e → isDigit c = false ∧ c ≠ ')'

theorem mem_keys_of_isCharacterKey {c : Char} (h : isCharacterKey c = true) :
    c ∈ "0123456789+-*/.()".toList := by
  simp only [isCharacterKey, isOperatorChar, Bool.or_eq_true, beq_iff_eq] at h
  rcases h with (((hdigit | ((rfl | rfl) | rfl) | rfl) | rfl) | rfl) | rfl
  · have hall : "0123456789".toList.all (· ∈ "0123456789+-*/.()".toList) = true := by decide
    exact of_decide_eq_true (of_isDigit hall hdigit)
  all_goals decide

theorem Composed.mayFollow_of_infix {e : List Char} (h : Composed e) {a b : Char}
    (hab : [a, b] <:+: e) : mayFollow a b = true := by
  have hpair := h.follow.tail.infix hab
  rwa [List.isChain_pair] at hpair

/-- Between two points of a run there would be digits alone. -/
theorem Orderly.count_point_le_one {e run : List Char} (h : Orderly e) (hrun : run <:+: e)
    (hchars : ∀ c ∈ run, isNumberChar c = true) : run.count '.' ≤ 1 := by
  obtain ⟨u, v, rfl⟩ := hrun
  by_contra hcount
  have hmem : '.' ∈ run := List.count_pos_iff.1 (by omega)
  obtain ⟨x, rest, rfl, hx⟩ := List.eq_append_cons_of_mem hmem
  rw [List.count_append, List.count_eq_zero_of_not_mem hx, List.count_cons_self] at hcount
  have hmem' : '.' ∈ rest := List.count_pos_iff.1 (by omega)
  obtain ⟨y, z, rfl, hy⟩ := List.eq_append_cons_of_mem hmem'
  have hdigits : ∀ c ∈ y, isDigit c = true := fun c hc =>
    isDigit_of_isNumberChar (hchars c (by simp [hc])) fun heq => hy (heq ▸ hc)
  have hpoints : Orderly (((u ++ x) ++ ['.']) ++ (y ++ '.' :: (z ++ v))) := by simpa using h
  exact Orderly.not_point hdigits hpoints

/-- What keys compose is legible. -/
theorem legible_of_composed {e : List Char} (h : Composed e) (horderly : Orderly e) : Legible e := by
  refine ⟨fun c hc => mem_keys_of_isCharacterKey (h.keys c hc),
    fun run hrun hchars => horderly.count_point_le_one hrun hchars,
    fun front hfront => Composed.digit_before_point (h.of_isPrefix hfront),
    fun c hc => ?_, fun c hc => ?_⟩
  · rw [Bool.eq_false_iff]
    intro hnumber
    have hfollow := h.mayFollow_of_infix hc
    rw [not_mayFollow_number hnumber] at hfollow
    cases hfollow
  · simpa [mayFollow] using h.mayFollow_of_infix hc

/-- A number of a legible text is digits, or digits, a point, and digits or none. -/
theorem Legible.exists_run {e run : List Char} (h : Legible e) (hrun : .run run ∈ lexemes e) :
    ∃ whole, whole ≠ [] ∧ (∀ c ∈ whole, isDigit c = true) ∧ (run = whole ∨
      ∃ fraction, (∀ c ∈ fraction, isDigit c = true) ∧ run = whole ++ '.' :: fraction) := by
  obtain ⟨before, after, rfl, hne, hchars, hbefore⟩ := exists_of_run_mem_lexemes hrun
  have hcount := h.one_point run (List.infix_append' before run after) hchars
  have hsplit := List.takeWhile_append_dropWhile (p := isDigit) (l := run)
  have hwhole : ∀ c ∈ run.takeWhile isDigit, isDigit c = true :=
    fun c hc => List.mem_takeWhile_imp hc
  cases hrest : run.dropWhile isDigit with
  | nil =>
    rw [hrest, List.append_nil] at hsplit
    exact ⟨run, hne, hsplit ▸ hwhole, .inl rfl⟩
  | cons x fraction =>
    rw [hrest] at hsplit
    generalize run.takeWhile isDigit = whole at *
    subst hsplit
    have hx : x = '.' := by
      have hdigit := List.head_dropWhile_not isDigit (l := whole ++ x :: fraction)
        (by rw [hrest]; exact List.cons_ne_nil _ _)
      simp only [hrest, List.head_cons] at hdigit
      simpa [isNumberChar, hdigit] using hchars x (by simp)
    subst hx
    refine ⟨whole, ?_, hwhole, .inr ⟨fraction, ?_, rfl⟩⟩
    · -- a digit is before the point, and no number goes on to the left of its run
      rintro rfl
      obtain ⟨d, hd, hdigit⟩ := h.digit_before_point before
        ⟨fraction ++ after, by simp⟩
      have hnumber := hbefore d hd
      simp [isNumberChar, hdigit] at hnumber
    · intro c hc
      have hpoint : c ≠ '.' := by
        rintro rfl
        have hmore := List.count_pos_iff.2 hc
        rw [List.count_append, List.count_cons_self] at hcount
        omega
      exact isDigit_of_isNumberChar (hchars c (by simp [hc])) hpoint

/-! ## Faults -/

/-- Some point has no digit directly after it. -/
def HoldsDanglingPoint (e : List Char) : Prop :=
  ∃ front back, e = front ++ '.' :: back ∧ ∀ c ∈ back.head?, isDigit c = false

/-- After `outer` comes a number with a point that has no digit directly after it. -/
def DanglesAfter (outer e : List Char) : Prop :=
  ∃ whole back, e = outer ++ (whole ++ '.' :: back) ∧
    (∀ c ∈ outer.getLast?, isNumberChar c = false) ∧ (∀ c ∈ whole, isDigit c = true) ∧
      ∀ c ∈ back.head?, isDigit c = false

/-- A number that is written well and lies beyond the finite ones. -/
def TooLarge (run : List Char) : Prop :=
  ∃ l : Literal, l.text = run ∧ 2 ^ 1024 - 2 ^ 970 ≤ l.decimal.toRat

theorem Legible.withoutBlanks {e : List Char} (h : Legible e) : withoutBlanks e = e := by
  have hall : "0123456789+-*/.()".toList.all (!isBlank ·) = true := by decide
  refine withoutBlanks_eq_self_iff.2 fun c hc => ?_
  simpa using List.all_eq_true.1 hall c (h.keys c hc)

theorem Legible.splitsInto {e : List Char} (h : Legible e) :
    SplitsInto (DeskCalculator.withoutBlanks e) (lexemes e) := by
  rw [h.withoutBlanks]
  exact splitsInto_lexemes e

/-- A lexeme of a legible text fails by its size alone, or by a point at its end. -/
theorem Legible.of_fails {e : List Char} (h : Legible e) {l : Lexeme} (hl : l ∈ lexemes e)
    {fault : Fault} {report : Report} (hfails : l.Fails fault report) :
    (fault = .numberTooLarge ∧ ∃ run, l = .run run ∧ TooLarge run) ∨
      ∃ whole, (∀ c ∈ whole, isDigit c = true) ∧ l = .run (whole ++ ['.']) ∧
        fault = .invalidNumber (whole ++ ['.']) := by
  cases hfails with
  | unexpectedCharacter hc =>
    rename_i c
    have hmem : c ∈ e := by
      rw [← flatten_lexemes e]
      exact List.mem_flatten.2 ⟨_, List.mem_map_of_mem hl, List.mem_singleton_self c⟩
    have hnumber : isNumberChar c = false := (of_mem_lexemes hl).2 c (List.mem_singleton_self c)
    have hall : "0123456789+-*/.()".toList.all
        (fun c => isNumberChar c || c ∈ ['+', '-', '*', '/', '(', ')']) = true := by decide
    have hkey := List.all_eq_true.1 hall c (h.keys c hmem)
    rw [hnumber, Bool.false_or] at hkey
    exact absurd (of_decide_eq_true hkey) hc
  | invalidNumber hliteral =>
    obtain ⟨whole, hne, hwhole, rfl | ⟨fraction, hfraction, rfl⟩⟩ := h.exists_run hl
    · exact absurd rfl (hliteral ⟨[], false, _, List.forall_mem_nil _, hwhole, hne⟩)
    · rcases eq_or_ne fraction [] with rfl | hfraction_ne
      · exact .inr ⟨whole, hwhole, rfl, rfl⟩
      · exact absurd rfl (hliteral ⟨whole, true, fraction, hwhole, hfraction, hfraction_ne⟩)
  | numberTooLarge hvalue => exact .inl ⟨rfl, _, rfl, _, rfl, hvalue⟩

theorem not_tooLarge_of_isWellFormed {run : List Char} (h : (Lexeme.run run).IsWellFormed)
    (hchars : ∀ c ∈ run, isNumberChar c = true) : ¬TooLarge run := by
  rintro ⟨l, rfl, hvalue⟩
  obtain ⟨t, ht⟩ := Lexeme.token_of_isWellFormed h
  rw [Lexeme.token_of_fails (.numberTooLarge hvalue) hchars] at ht
  cases ht

theorem not_literal_of_point {whole : List Char} (l : Literal) : l.text ≠ whole ++ ['.'] := by
  intro heq
  obtain ⟨n, hn, -⟩ := l.runNumeral?_text
  obtain ⟨d, hd, hdigit⟩ := isDigit_getLast_of_runNumeral? hn
  rw [heq, List.getLast?_concat, Option.mem_some_iff] at hd
  rw [← hd] at hdigit
  cases hdigit

/-- Where the same list is split at two elements, one is left of the other or they are one. -/
theorem eq_or_mem_of_append_cons_eq {α : Type} {xs ys us vs : List α} {a b : α}
    (h : xs ++ a :: ys = us ++ b :: vs) : a = b ∨ b ∈ xs ∨ a ∈ us := by
  rcases List.append_eq_append_iff.1 h with ⟨w, rfl, hw⟩ | ⟨w, rfl, hw⟩
  · cases w with
    | nil => exact .inl (List.cons.inj hw).1
    | cons c w => exact .inr (.inr (by simp [(List.cons.inj hw).1]))
  · cases w with
    | nil => exact .inl (List.cons.inj hw).1.symm
    | cons c w => exact .inr (.inl (by simp [(List.cons.inj hw).1]))

/-- The digits at the end of a text, as many as there are. -/
theorem exists_digits_at_end (cs : List Char) : ∃ outer whole, cs = outer ++ whole ∧
    (∀ c ∈ whole, isDigit c = true) ∧ ∀ c ∈ outer.getLast?, isDigit c = false := by
  refine ⟨cs.rdropWhile isDigit, cs.rtakeWhile isDigit, List.rdropWhile_append_rtakeWhile.symm,
    fun c hc => List.mem_rtakeWhile_imp hc, fun c hc => ?_⟩
  obtain ⟨hne, rfl⟩ := List.mem_getLast?_eq_getLast hc
  simpa using List.rdropWhile_last_not isDigit cs hne

section

variable {e : List Char} (h : Legible e)

include h

theorem Legible.of_tokenize_eq_error {fault : Fault} (hfault : tokenize e = .error fault) :
    ∃ before l after, lexemes e = before ++ l :: after ∧ (∀ m ∈ before, m.IsWellFormed) ∧
      ((fault = .numberTooLarge ∧ ∃ run, l = .run run ∧ TooLarge run) ∨
        ∃ whole, (∀ c ∈ whole, isDigit c = true) ∧ l = .run (whole ++ ['.']) ∧
          fault = .invalidNumber (whole ++ ['.'])) := by
  obtain ⟨before, l, after, report, hsplit, hbefore, hfails, -⟩ :=
    h.splitsInto.tokenize_eq_error_iff.1 hfault
  exact ⟨before, l, after, hsplit, hbefore, h.of_fails (by simp [hsplit]) hfails⟩

theorem Legible.tokenize_ne_unexpectedCharacter (c : Char) :
    tokenize e ≠ .error (.unexpectedCharacter c) := by
  intro hfault
  obtain ⟨before, l, after, -, -, ⟨heq, -⟩ | ⟨whole, -, -, heq⟩⟩ := h.of_tokenize_eq_error hfault
  · cases heq
  · cases heq

/-- What is scanned left of an unfinished number is what stands left of it. -/
theorem Legible.lexemes_of_danglesAfter {outer : List Char} (hdangles : DanglesAfter outer e) :
    ∃ whole back, lexemes e = lexemes outer ++ .run (whole ++ ['.']) :: lexemes back := by
  obtain ⟨whole, back, rfl, houter, hwhole, hback⟩ := hdangles
  have hends : ∀ c ∈ back.head?, isNumberChar c = false := by
    intro c hc
    have hpoint : c ≠ '.' := by
      rintro rfl
      -- no point comes directly after a point
      obtain ⟨rest, rfl⟩ := List.head?_eq_some_iff.1 hc
      obtain ⟨d, hd, hdigit⟩ := h.digit_before_point (outer ++ (whole ++ ['.'])) ⟨rest, by simp⟩
      rw [← List.append_assoc, List.getLast?_concat, Option.mem_some_iff] at hd
      rw [← hd] at hdigit
      cases hdigit
    simp [isNumberChar, hback c hc, hpoint]
  refine ⟨whole, back, ?_⟩
  rw [List.append_cons whole]
  refine lexemes_append_run ?_ (by simp) houter hends
  intro c hc
  rcases List.mem_append.1 hc with hc | hc
  · simp [isNumberChar, hwhole c hc]
  · simp [isNumberChar, List.mem_singleton.1 hc]

/-- Scanning fails on a point without a digit after it, unless a number to the left is too large. -/
theorem Legible.exists_invalidNumber_iff :
    (∃ run, tokenize e = .error (.invalidNumber run)) ↔
      ∃ outer, DanglesAfter outer e ∧ ∀ run, .run run ∈ lexemes outer → ¬TooLarge run := by
  constructor
  · rintro ⟨run, hfault⟩
    obtain ⟨before, l, after, hsplit, hbefore, ⟨heq, -⟩ | ⟨whole, hwhole, rfl, -⟩⟩ :=
      h.of_tokenize_eq_error hfault
    · cases heq
    · have htext := splitsInto_lexemes e
      rw [hsplit] at htext
      obtain ⟨outer, back, rfl, rfl, -, houter, hback⟩ := htext.exists_run
      refine ⟨outer, ⟨whole, back, by simp, houter, hwhole, fun c hc => ?_⟩, fun run hrun => ?_⟩
      · exact not_isDigit_of_not_isNumberChar (hback c hc)
      · exact not_tooLarge_of_isWellFormed (hbefore _ hrun) (of_mem_lexemes hrun).2
  · rintro ⟨outer, hdangles, hfits⟩
    obtain ⟨whole, back, hlexemes⟩ := h.lexemes_of_danglesAfter hdangles
    have hnever : ¬(Lexeme.run (whole ++ ['.'])).IsWellFormed := by
      rintro ⟨l, hl, -⟩
      exact not_literal_of_point l hl
    cases htokens : tokenize e with
    | ok tokens =>
      have hall := h.splitsInto.exists_tokenize_eq_ok_iff.1 ⟨tokens, htokens⟩
      exact absurd (hall _ (by simp [hlexemes])) hnever
    | error fault =>
      obtain ⟨before, l, after, hsplit, hbefore, ⟨-, run, rfl, hlarge⟩ | ⟨whole, -, -, rfl⟩⟩ :=
        h.of_tokenize_eq_error htokens
      · exfalso
        rw [hlexemes] at hsplit
        -- the number that is too large would be left of the unfinished one, or be it
        rcases eq_or_mem_of_append_cons_eq hsplit with hsame | hleft | hright
        · obtain rfl := Lexeme.run.inj hsame
          obtain ⟨l, hl, -⟩ := hlarge
          exact not_literal_of_point l hl
        · exact hfits run hleft hlarge
        · exact hnever (hbefore _ hright)
      · exact ⟨_, rfl⟩

theorem Legible.exists_danglesAfter (hdangling : HoldsDanglingPoint e) :
    ∃ outer, DanglesAfter outer e := by
  obtain ⟨front, back, rfl, hback⟩ := hdangling
  obtain ⟨outer, whole, rfl, hwhole, houter⟩ := exists_digits_at_end front
  refine ⟨outer, whole, back, by simp, fun c hc => ?_, hwhole, hback⟩
  have hpoint : c ≠ '.' := by
    rintro rfl
    -- the number would hold two points
    obtain ⟨left, rfl⟩ := List.getLast?_eq_some_iff.1 hc
    have hchars : ∀ c ∈ '.' :: (whole ++ ['.']), isNumberChar c = true := by
      simpa [isNumberChar, or_imp, forall_and] using fun c hc => .inl (hwhole c hc)
    have hcount := h.one_point ('.' :: (whole ++ ['.'])) ⟨left, back, by simp⟩ hchars
    simp at hcount
  simp [isNumberChar, houter c hc, hpoint]

theorem Legible.exists_invalidNumber_iff_of_not_tooLarge
    (hfits : ∀ run, .run run ∈ lexemes e → ¬TooLarge run) :
    (∃ run, tokenize e = .error (.invalidNumber run)) ↔ HoldsDanglingPoint e := by
  rw [h.exists_invalidNumber_iff]
  constructor
  · rintro ⟨outer, ⟨whole, back, rfl, -, -, hback⟩, -⟩
    exact ⟨outer ++ whole, back, by simp, hback⟩
  · intro hdangling
    obtain ⟨outer, houter⟩ := h.exists_danglesAfter hdangling
    obtain ⟨whole, back, hlexemes⟩ := h.lexemes_of_danglesAfter houter
    exact ⟨outer, houter, fun run hrun => hfits run (by simp [hlexemes, hrun])⟩

theorem Legible.tokenize_ne_numberTooLarge (hfits : ∀ run, .run run ∈ lexemes e → ¬TooLarge run) :
    tokenize e ≠ .error .numberTooLarge := by
  intro hfault
  obtain ⟨before, l, after, hsplit, -, ⟨-, run, rfl, hlarge⟩ | ⟨whole, -, -, heq⟩⟩ :=
    h.of_tokenize_eq_error hfault
  · exact hfits run (by simp [hsplit]) hlarge
  · cases heq

end

/-! ## Keys -/

theorem ten_pow_le_two_pow_sub {k m n : Nat} (h : 10 ^ k + 2 ^ m ≤ 2 ^ n) :
    (10 : ℚ) ^ k ≤ 2 ^ n - 2 ^ m := by
  rw [le_sub_iff_add_le]
  exact_mod_cast h

/-- A number of at most 308 characters is not too large. -/
theorem length_of_tooLarge {run : List Char} (h : TooLarge run) : 308 < run.length := by
  obtain ⟨l, rfl, hvalue⟩ := h
  by_contra hlength
  have hpow : (10 : ℚ) ^ l.text.length ≤ 10 ^ 308 :=
    pow_le_pow_right₀ (by norm_num) (by omega)
  have hbound : (10 : ℚ) ^ 308 ≤ 2 ^ 1024 - 2 ^ 970 := ten_pow_le_two_pow_sub (by decide +kernel)
  exact not_le_of_gt (l.toRat_lt_pow_length.trans_le (hpow.trans hbound)) hvalue

theorem length_le_of_run_mem_lexemes {e run : List Char} (h : .run run ∈ lexemes e) :
    run.length ≤ e.length := by
  obtain ⟨before, after, rfl, -⟩ := exists_of_run_mem_lexemes h
  simp only [List.length_append]
  omega

/-- **Scanning what keys compose.** The text is legible, so scanning it fails on a point without a
digit after it, if no number to the left is too large, and else on such a number alone. Up to a
limit of 308 characters no number is too large. -/
theorem tokenize_pressAll (limit : Option Int) (keys : List (List Char)) :
    Legible (pressAll limit [] keys) ∧
      (∀ c, tokenize (pressAll limit [] keys) ≠ .error (.unexpectedCharacter c)) ∧
      ((∃ run, tokenize (pressAll limit [] keys) = .error (.invalidNumber run)) ↔
        ∃ outer, DanglesAfter outer (pressAll limit [] keys) ∧
          ∀ run, .run run ∈ lexemes outer → ¬TooLarge run) ∧
      (0 < effectiveLimit limit → effectiveLimit limit ≤ 308 →
        tokenize (pressAll limit [] keys) ≠ .error .numberTooLarge ∧
          ((∃ run, tokenize (pressAll limit [] keys) = .error (.invalidNumber run)) ↔
            HoldsDanglingPoint (pressAll limit [] keys))) := by
  have h : Legible (pressAll limit [] keys) :=
    legible_of_composed (composed_pressAll limit keys .nil) (orderly_pressAll limit keys .nil)
  refine ⟨h, h.tokenize_ne_unexpectedCharacter, h.exists_invalidNumber_iff, fun hpos hlimit => ?_⟩
  have hlength : (pressAll limit [] keys).length ≤ (effectiveLimit limit).toNat :=
    length_pressAll_le_limit (by omega) (by omega) keys (Nat.zero_le _)
  have hfits : ∀ run, .run run ∈ lexemes (pressAll limit [] keys) → ¬TooLarge run := by
    intro run hrun hlarge
    have hrun_length := length_le_of_run_mem_lexemes hrun
    have hlarge_length := length_of_tooLarge hlarge
    omega
  exact ⟨h.tokenize_ne_numberTooLarge hfits, h.exists_invalidNumber_iff_of_not_tooLarge hfits⟩

/-- The last number waits for the digits after its point. -/
theorem tokenize_pressAll_dangling :
    let e := pressAll none [] (["(", "1", ")", ".", "5", "+", "3", "."].map String.toList)
    e = "(1)*0.5+3.".toList ∧ tokenize e ≠ .error .numberTooLarge ∧
      ∃ run, tokenize e = .error (.invalidNumber run) := by
  intro e
  have he : e = "(1)*0.5+3.".toList := by decide +kernel
  obtain ⟨-, -, -, hfits⟩ :=
    tokenize_pressAll none (["(", "1", ")", ".", "5", "+", "3", "."].map String.toList)
  obtain ⟨hlarge, hdangling⟩ := hfits (by decide) (by decide)
  refine ⟨he, hlarge, hdangling.2 ⟨"(1)*0.5+3".toList, [], he, ?_⟩⟩
  rintro c ⟨⟩

theorem press_digit {limit : Option Int} {e : List Char} (hroom : e.length < effectiveLimit limit)
    (hclosing : endsWith (· == ')') e = false) {d : Char} (hd : isDigit d = true) :
    press limit e [d] = e ++ [d] := by
  have hoperator := not_isOperatorChar_of_isDigit hd
  have hpoint : d ≠ '.' := by rintro rfl; cases hd
  have hopening : d ≠ '(' := by rintro rfl; cases hd
  have happended : appended e [d] = [d] := by
    simp only [appended, List.cons.injEq, hpoint, hopening, false_and, if_false, hclosing,
      Bool.and_false, Bool.false_eq_true]
  refine press_eq_concat hroom (by simp [isCharacterKey, hd]) happended ?_ ?_ <;>
    simp [hoperator]

theorem pressAll_replicate_digit {limit : Option Int} {d : Char} (hd : isDigit d = true) {n : Nat}
    (hn : n ≤ effectiveLimit limit) :
    pressAll limit [] (List.replicate n [d]) = List.replicate n d := by
  induction n with
  | zero => rfl
  | succ n ih =>
    have hroom : (List.replicate n d).length < effectiveLimit limit := by
      rw [List.length_replicate]
      omega
    have hclosing : endsWith (· == ')') (List.replicate n d) = false := by
      rw [endsWith, List.getLast?_replicate]
      split
      · rfl
      · exact beq_eq_false_iff_ne.2 fun heq => by rw [heq] at hd; cases hd
    rw [List.replicate_succ', pressAll_append, ih (by omega), List.replicate_succ']
    exact press_digit hroom hclosing hd

/-- A number that is too large is the fault where it is left of the point without a digit. -/
theorem exists_dangling_too_large :
    ¬∀ (limit : Option Int) (keys : List (List Char)),
      (∃ run, tokenize (pressAll limit [] keys) = .error (.invalidNumber run)) ↔
        HoldsDanglingPoint (pressAll limit [] keys) := by
  intro hall
  let keys := List.replicate 309 ['9'] ++ ["+".toList, "1".toList, ".".toList]
  have hkeys : pressAll (some 400) [] keys = List.replicate 309 '9' ++ "+1.".toList := by
    rw [pressAll_append, pressAll_replicate_digit (by decide) (by decide)]
    decide +kernel
  have htokens : tokenize (List.replicate 309 '9' ++ "+1.".toList) = .error .numberTooLarge := by
    decide +kernel
  have hdangling : HoldsDanglingPoint (List.replicate 309 '9' ++ "+1.".toList) := by
    refine ⟨List.replicate 309 '9' ++ "+1".toList, [], by rw [List.append_assoc]; rfl, ?_⟩
    rintro c ⟨⟩
  obtain ⟨run, hrun⟩ := (hall (some 400) keys).2 (hkeys ▸ hdangling)
  rw [hkeys, htokens] at hrun
  cases hrun

end DeskCalculator.Keypad
