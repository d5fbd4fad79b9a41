import DeskCalculator.Proofs.Keypad.Length
import DeskCalculator.Proofs.Keypad.Orderly

/-!
# Flipping a sign

* `LastNumber.signed`, `LastNumber.unsigned` : a sign before the last number leaves it the last one;
* `toggleSign_signed`, `toggleSign_unsigned_of_lt`, `toggleSign_of_full` : what flipping does with a
  sign there, and without one where there is room for it and where there is none;
* `Composed.signPosition` : a composed number stands where a minus before it would be a sign;
* `toggleSign_toggleSign_of_pressAll` : so flipping twice changes nothing, where there is room;
* `KeepsText`, `Overfull` : the text with at most one minus put in or taken out, and the expressions
  without the room for one;
* `keepsText_iff_of_pressAll` : flipping keeps the text of all other expressions, and cuts off the
  last character of these.
-/

namespace DeskCalculator.Keypad

/-! ## Signs before the last number -/

theorem LastNumber.signed {before number after : List Char} (h : LastNumber before number after) :
    LastNumber (before ++ ['-']) number after := by
  refine ⟨h.isNumber, h.no_digit_after, ?_, ?_⟩
  · intro c hc
    rw [List.getLast?_concat, Option.mem_some_iff] at hc
    rw [← hc]
    decide
  · intro hpoint outer d houter
    rw [show outer ++ [d, '.'] = (outer ++ [d]) ++ ['.'] by simp] at houter
    have hminus := (List.append_inj' houter rfl).2
    simp at hminus

theorem LastNumber.unsigned {outer number after : List Char}
    (h : LastNumber (outer ++ ['-']) number after)
    (hsign : ∀ c ∈ outer.getLast?, isOperatorChar c = true ∨ c = '(') :
    LastNumber outer number after := by
  refine ⟨h.isNumber, h.no_digit_after, ?_, ?_⟩
  · intro c hc
    rw [Bool.eq_false_iff]
    intro hdigit
    rcases hsign c hc with hop | rfl
    · rw [not_isOperatorChar_of_isDigit hdigit] at hop
      cases hop
    · cases hdigit
  · rintro - front d rfl
    have hpoint := hsign '.' (by rw [List.getLast?_append]; rfl)
    simp [isOperatorChar] at hpoint

/-! ## What flipping does -/

section

variable {outer before number after : List Char} {limit : Option Int}

theorem toggleSign_unsigned (hline : '\n' ∉ before ++ (number ++ after))
    (h : LastNumber before number after) (hsign : endsInSign before = false) :
    toggleSign limit (before ++ (number ++ after)) =
      clip (effectiveLimit limit) (before ++ '-' :: (number ++ after)) := by
  rw [toggleSign, findLastNumber_of_lastNumber hline h]
  simp only [hsign, Bool.false_eq_true, if_false]

theorem toggleSign_unsigned_of_lt (hline : '\n' ∉ before ++ (number ++ after))
    (h : LastNumber before number after) (hsign : endsInSign before = false)
    (hroom : (before ++ (number ++ after)).length < effectiveLimit limit) :
    toggleSign limit (before ++ (number ++ after)) = before ++ '-' :: (number ++ after) := by
  rw [toggleSign_unsigned hline h hsign]
  refine clip_of_length_le ?_
  simp only [List.length_append, List.length_cons] at hroom ⊢
  omega

theorem toggleSign_signed (hline : '\n' ∉ (outer ++ ['-']) ++ (number ++ after))
    (h : LastNumber (outer ++ ['-']) number after) (hsign : endsInSign (outer ++ ['-']) = true) :
    toggleSign limit ((outer ++ ['-']) ++ (number ++ after)) = outer ++ (number ++ after) := by
  rw [toggleSign, findLastNumber_of_lastNumber hline h]
  simp only [hsign, if_true, List.dropLast_concat]

theorem toggleSign_of_no_digit {e : List Char} (h : ∀ c ∈ e, isDigit c = false) :
    toggleSign limit e = if e.isEmpty then ['-'] else e := by
  rw [toggleSign, findLastNumber_eq_none h]

end

/-! ## Twice -/

/-- A composed number stands at the start, after an operator or after an opening parenthesis. -/
theorem Composed.signPosition {before number after : List Char}
    (h : Composed (before ++ (number ++ after))) (horderly : Orderly (before ++ (number ++ after)))
    (hlast : LastNumber before number after) :
    ∀ c ∈ before.getLast?, isOperatorChar c = true ∨ c = '(' := by
  rcases List.eq_nil_or_concat before with rfl | ⟨front, c, rfl⟩
  · simp
  rw [List.concat_eq_append] at *
  intro b hb
  rw [List.getLast?_concat, Option.mem_some_iff] at hb
  subst hb
  obtain ⟨hbefore, -, hfollow⟩ := composed_append_iff.1 h
  obtain ⟨d, ds, hd, hnumber⟩ := hlast.isNumber.exists_cons
  have hkey := hbefore.keys c (by simp)
  simp only [isCharacterKey, Bool.or_eq_true, beq_iff_eq] at hkey
  rcases hkey with (((hdigit | hop) | rfl) | rfl) | rfl
  · rw [hlast.no_digit_before c List.getLast?_concat] at hdigit
    cases hdigit
  · exact .inl hop
  · -- a digit is before the point, so the number has a point of its own, which is one too many
    obtain ⟨e, he, hdigit⟩ := hbefore.digit_before_point
    obtain ⟨outer, rfl⟩ := List.getLast?_eq_some_iff.1 he
    cases hlast.isNumber with
    | whole hdigits hne =>
      have hno : '.' ∉ number := fun hmem => absurd (hdigits _ hmem) (by decide)
      rw [hlast.no_whole_before hno outer e (by simp)] at hdigit
      cases hdigit
    | fraction hwhole hwhole_ne hdigits hne =>
      rename_i whole digits
      rw [List.append_assoc whole, List.cons_append] at horderly
      exact absurd horderly (Orderly.not_point hwhole)
  · exact .inr rfl
  · rw [lastChar_append_singleton, hnumber] at hfollow
    have hclosing := (List.isChain_cons_cons.1 hfollow).1
    rw [not_mayFollow_number (by simp [isNumberChar, hd])] at hclosing
    cases hclosing

theorem endsInSign_minus {outer : List Char}
    (h : ∀ c ∈ outer.getLast?, isOperatorChar c = true ∨ c = '(') :
    endsInSign (outer ++ ['-']) = true := by
  rw [endsInSign_concat, beq_self_eq_true, Bool.true_and, Option.all_eq_true]
  intro c hc
  simpa using h c hc

/-- **Flipping a sign twice changes nothing** where there is room for the sign, whatever keys the
expression was composed by. -/
theorem toggleSign_toggleSign_of_pressAll (typed limit : Option Int) (keys : List (List Char))
    (hdigit : ∃ c ∈ pressAll typed [] keys, isDigit c = true)
    (hroom : (pressAll typed [] keys).length < effectiveLimit limit) :
    toggleSign limit (toggleSign limit (pressAll typed [] keys)) = pressAll typed [] keys := by
  have hcomposed : Composed (pressAll typed [] keys) := composed_pressAll typed keys .nil
  have horderly : Orderly (pressAll typed [] keys) := orderly_pressAll typed keys .nil
  generalize pressAll typed [] keys = e at *
  obtain ⟨⟨before, number, after⟩, hfound⟩ := exists_findLastNumber hcomposed.not_mem_newline hdigit
  have hlast := lastNumber_of_findLastNumber hcomposed.not_mem_newline hfound
  obtain rfl := (findLastNumber_append hfound).1
  dsimp only at *
  have hline := hcomposed.not_mem_newline
  cases hsign : endsInSign before with
  | true =>
    obtain ⟨outer, rfl, houter⟩ := of_endsInSign hsign
    have hwithout : endsInSign outer = false :=
      (horderly outer '-' (List.prefix_append _ _)).operator (by decide)
    have hline' : '\n' ∉ outer ++ (number ++ after) := by simpa using hline
    have hroom' : (outer ++ (number ++ after)).length < effectiveLimit limit := by
      simp only [List.length_append, List.length_singleton] at hroom ⊢
      omega
    rw [toggleSign_signed hline hlast hsign,
      toggleSign_unsigned_of_lt hline' (hlast.unsigned houter) hwithout hroom', List.append_cons]
  | false =>
    have hposition := hcomposed.signPosition horderly hlast
    have hline' : '\n' ∉ (before ++ ['-']) ++ (number ++ after) := by simpa using hline
    rw [toggleSign_unsigned_of_lt hline hlast hsign hroom, List.append_cons]
    exact toggleSign_signed hline' hlast.signed (endsInSign_minus hposition)

/-- After a subtraction a sign is put in, and taken out again. -/
theorem toggleSign_toggleSign_of_pressAll_fraction :
    let e := pressAll (some 9) [] (["(", "2", ")", "-", "."].map String.toList)
    (e = "(2)-0.".toList ∧ (∃ c ∈ e, isDigit c = true) ∧ e.length < effectiveLimit (some 9)) ∧
      toggleSign (some 9) e = "(2)--0.".toList ∧ toggleSign (some 9) (toggleSign (some 9) e) = e := by
  intro e
  have he : e = "(2)-0.".toList := by decide +kernel
  have hdigit : ∃ c ∈ e, isDigit c = true := ⟨'2', by rw [he]; decide, by decide⟩
  have hroom : e.length < effectiveLimit (some 9) := by rw [he]; decide
  exact ⟨⟨he, hdigit, hroom⟩, by rw [he]; decide +kernel,
    toggleSign_toggleSign_of_pressAll (some 9) (some 9) _ hdigit hroom⟩

/-! ## What is kept of the text -/

/-- The text as it was, or with one minus put in or taken out. -/
inductive KeepsText : List Char → List Char → Prop
  | same (e : List Char) : KeepsText e e
  | put (front back : List Char) : KeepsText (front ++ back) (front ++ '-' :: back)
  | taken (front back : List Char) : KeepsText (front ++ '-' :: back) (front ++ back)

/-- The expression is as long as it may be, and its last number has no sign to be taken out. -/
def Overfull (limit : Int) (e : List Char) : Prop :=
  e.length = limit ∧ ∃ before number after, e = before ++ (number ++ after) ∧
    LastNumber before number after ∧ endsInSign before = false

theorem toggleSign_of_full {before number after : List Char} {limit : Option Int}
    (hline : '\n' ∉ before ++ (number ++ after)) (h : LastNumber before number after)
    (hsign : endsInSign before = false)
    (hfull : (before ++ (number ++ after)).length = effectiveLimit limit) :
    toggleSign limit (before ++ (number ++ after)) =
      (before ++ '-' :: (number ++ after)).dropLast := by
  rw [toggleSign_unsigned hline h hsign, clip, upTo, if_pos (by omega), List.dropLast_eq_take]
  congr 1
  simp only [List.length_append, List.length_cons] at hfull ⊢
  omega

theorem length_of_keepsText {e e' : List Char} (h : KeepsText e e') (hlength : e'.length = e.length) :
    e' = e := by
  cases h with
  | same => rfl
  | put front back =>
    simp only [List.length_append, List.length_cons] at hlength
    omega
  | taken front back =>
    simp only [List.length_append, List.length_cons] at hlength
    omega

/-- Flipping a sign keeps the text if and only if there is room for a sign or one to take out. -/
theorem keepsText_toggleSign_iff {limit : Option Int} {e : List Char} (hline : '\n' ∉ e)
    (hlength : e.length ≤ effectiveLimit limit) :
    KeepsText e (toggleSign limit e) ↔ ¬Overfull (effectiveLimit limit) e := by
  constructor
  · rintro hkeeps ⟨hfull, before, number, after, rfl, hlast, hsign⟩
    obtain ⟨d, ds, hd, rfl⟩ := hlast.isNumber.exists_cons
    have hcut : toggleSign limit (before ++ (d :: ds ++ after)) =
        before ++ '-' :: (d :: (ds ++ after)).dropLast := by
      rw [toggleSign_of_full hline hlast hsign hfull,
        List.dropLast_append_of_ne_nil (List.cons_ne_nil _ _)]
      rfl
    have hsame := length_of_keepsText hkeeps (by rw [hcut]; simp)
    -- the minus would be the digit that it is put before
    rw [hcut, List.cons_append] at hsame
    obtain ⟨rfl, -⟩ := List.cons.inj (List.append_cancel_left hsame)
    cases hd
  · intro hroom
    by_cases hdigit : ∃ c ∈ e, isDigit c = true
    · obtain ⟨⟨before, number, after⟩, hfound⟩ := exists_findLastNumber hline hdigit
      have hlast := lastNumber_of_findLastNumber hline hfound
      obtain rfl := (findLastNumber_append hfound).1
      dsimp only at *
      cases hsign : endsInSign before with
      | true =>
        obtain ⟨outer, rfl, -⟩ := of_endsInSign hsign
        rw [toggleSign_signed hline hlast hsign, List.append_assoc, List.singleton_append]
        exact .taken outer (number ++ after)
      | false =>
        have hne : ((before ++ (number ++ after)).length : Int) ≠ effectiveLimit limit :=
          fun hfull => hroom ⟨hfull, before, number, after, rfl, hlast, hsign⟩
        rw [toggleSign_unsigned_of_lt hline hlast hsign (by omega)]
        exact .put before (number ++ after)
    · have hno : ∀ c ∈ e, isDigit c = false := fun c hc =>
        Bool.eq_false_iff.2 fun hd => hdigit ⟨c, hc, hd⟩
      rw [toggleSign_of_no_digit hno]
      split
      · rename_i hnil
        obtain rfl := List.isEmpty_iff.1 hnil
        exact .put [] []
      · exact .same e

/-- **Flipping a sign keeps what was typed** if and only if there is room for a sign or one to take
out; else it puts a sign in and cuts the last character off. -/
theorem keepsText_iff_of_pressAll {limit : Option Int} (hlimit : 0 < effectiveLimit limit)
    (keys : List (List Char)) :
    let e := pressAll limit [] keys
    (KeepsText e (toggleSign limit e) ↔ ¬Overfull (effectiveLimit limit) e) ∧
      (Overfull (effectiveLimit limit) e → ∃ before number after, e = before ++ (number ++ after) ∧
        LastNumber before number after ∧
        toggleSign limit e = (before ++ '-' :: (number ++ after)).dropLast) := by
  intro e
  have hcomposed : Composed e := composed_pressAll limit keys .nil
  have hlength : e.length ≤ (effectiveLimit limit).toNat :=
    length_pressAll_le_limit (by omega) (by omega) keys (Nat.zero_le _)
  refine ⟨keepsText_toggleSign_iff hcomposed.not_mem_newline (by omega), ?_⟩
  rintro ⟨hfull, before, number, after, he, hlast, hsign⟩
  have hline := hcomposed.not_mem_newline
  rw [he] at hfull hline ⊢
  exact ⟨before, number, after, rfl, hlast, toggleSign_of_full hline hlast hsign hfull⟩

/-- A number loses its last digit where there is no room for its sign. -/
theorem keepsText_iff_of_pressAll_product :
    let e := pressAll (some 4) [] (["2", "*", "3", "4"].map String.toList)
    0 < effectiveLimit (some 4) ∧ e = "2*34".toList ∧ Overfull (effectiveLimit (some 4)) e ∧
      ¬KeepsText e (toggleSign (some 4) e) := by
  intro e
  have hlimit : 0 < effectiveLimit (some 4) := by decide
  have he : e = "2*34".toList := by decide +kernel
  have hfound : findLastNumber "2*34".toList = some ⟨"2*".toList, "34".toList, []⟩ := by
    decide +kernel
  have hlast := lastNumber_of_findLastNumber (by decide) hfound
  have hfull : Overfull (effectiveLimit (some 4)) e :=
    ⟨by rw [he]; decide, _, _, _, he, hlast, by decide⟩
  have hkeeps := (keepsText_iff_of_pressAll hlimit (["2", "*", "3", "4"].map String.toList)).1
  exact ⟨hlimit, he, hfull, fun h => hkeeps.1 h hfull⟩

/-- Not every flip keeps the text: of a full expression that is a number the last digit is lost. -/
theorem exists_lost_digit :
    ¬∀ (limit : Int) (keys : List (List Char)), 0 < limit →
      KeepsText (pressAll (some limit) [] keys)
        (toggleSign (some limit) (pressAll (some limit) [] keys)) := by
  intro hall
  have hkeeps := hall 3 (["1", "2", "3"].map String.toList) (by decide)
  have htyped : pressAll (some 3) [] (["1", "2", "3"].map String.toList) = "123".toList := by
    decide +kernel
  have hflipped : toggleSign (some 3) "123".toList = "-12".toList := by decide +kernel
  rw [htyped, hflipped] at hkeeps
  have hsame := length_of_keepsText hkeeps (by decide)
  revert hsame
  decide

end DeskCalculator.Keypad
