import DeskCalculator.Proofs.Decimal.Digits
import DeskCalculator.Proofs.Keypad.Pressed
import Mathlib.Data.List.Chain

/-!
# What keys compose

* `mayFollow a b` : whether composing an expression ever puts `b` directly after `a`;
* `Composed` : the invariant of composition: key characters only, each of which may follow the one
  before it, where the start of the expression is like the start of a group;
* `composed_append_iff` : what has to be checked when text is appended; `Composed.of_isPrefix` :
  nothing has to be when it is cut;
* `Composed.pressed`, `composed_pressAll` : whatever a key does keeps the invariant, so all keys do.
-/

namespace DeskCalculator.Keypad

/-! ## Characters in a row -/

/-- Whether an expression may go on with `b` directly after `a`: no number and no group goes on
after a closing parenthesis, no group after a digit, and a point stands only after a digit. -/
def mayFollow (a b : Char) : Bool :=
  if b = '(' then !isDigit a && a != ')'
  else if b = '.' then isDigit a
  else if isDigit b then a != ')'
  else true

theorem mayFollow_of_not_closing {a b : Char} (hb : isDigit b = true) (ha : a ≠ ')') :
    mayFollow a b = true := by
  unfold mayFollow
  split
  · subst b
    cases hb
  · split
    · subst b
      cases hb
    · simp [ha]

theorem mayFollow_of_isOperatorChar (a : Char) {b : Char} (hb : isOperatorChar b = true) :
    mayFollow a b = true := by
  simp only [isOperatorChar, Bool.or_eq_true, beq_iff_eq] at hb
  rcases hb with ((rfl | rfl) | rfl) | rfl <;> rfl

theorem not_mayFollow_opening {d : Char} (h : isDigit d = true ∨ d = ')') :
    mayFollow d '(' = false := by
  rcases h with h | rfl
  · simp [mayFollow, h]
  · rfl

theorem not_mayFollow_number {c : Char} (h : isNumberChar c = true) :
    mayFollow ')' c = false := by
  rw [isNumberChar, Bool.or_eq_true, beq_iff_eq] at h
  unfold mayFollow
  split
  · decide
  · rcases h with h | rfl
    · rw [h]
      split <;> rfl
    · rfl

/-- The last character, which what is appended follows; an expression starts like a group. -/
def lastChar (e : List Char) : Char := e.getLast?.getD '('

@[simp] theorem lastChar_append_singleton (e : List Char) (c : Char) : lastChar (e ++ [c]) = c := by
  simp [lastChar]

theorem endsWith_eq_lastChar {test : Char → Bool} (h : test '(' = false) (e : List Char) :
    endsWith test e = test (lastChar e) := by
  unfold endsWith lastChar
  cases e.getLast? <;> simp [h]

theorem not_closing_of_endsWith {e : List Char} (h : endsWith (· == ')') e = false) :
    lastChar e ≠ ')' := by
  rw [endsWith_eq_lastChar (by decide)] at h
  simpa using h

theorem not_closing_of_isOperatorChar {c : Char} (h : isOperatorChar c = true ∨ c = '(') :
    c ≠ ')' := by
  rintro rfl
  simp [isOperatorChar] at h

/-! ## The invariant -/

/-- Key characters only, each of which may follow the one before it. -/
structure Composed (e : List Char) : Prop where
  keys : ∀ c ∈ e, isCharacterKey c = true
  follow : ('(' :: e).IsChain (mayFollow · ·)

theorem Composed.nil : Composed [] := ⟨by simp, List.isChain_singleton _⟩

theorem not_newline_of_isCharacterKey {c : Char} (h : isCharacterKey c = true) : c ≠ '\n' := by
  rintro rfl
  revert h
  decide

theorem Composed.not_mem_newline {e : List Char} (h : Composed e) : '\n' ∉ e :=
  fun hmem => not_newline_of_isCharacterKey (h.keys _ hmem) rfl

theorem composed_append_iff {e v : List Char} :
    Composed (e ++ v) ↔ Composed e ∧ (∀ c ∈ v, isCharacterKey c = true) ∧
      (lastChar e :: v).IsChain (mayFollow · ·) := by
  have hlast : '(' :: e = ('(' :: e).dropLast ++ [lastChar e] :=
    (List.dropLast_append_getLast? (lastChar e) List.getLast?_cons).symm
  have hchain : ('(' :: (e ++ v)).IsChain (mayFollow · ·) ↔
      ('(' :: e).IsChain (mayFollow · ·) ∧ (lastChar e :: v).IsChain (mayFollow · ·) := by
    rw [← List.cons_append, hlast, List.append_assoc, List.singleton_append, List.isChain_split]
  constructor
  · rintro ⟨hkeys, hfollow⟩
    rw [List.forall_mem_append] at hkeys
    rw [hchain] at hfollow
    exact ⟨⟨hkeys.1, hfollow.1⟩, hkeys.2, hfollow.2⟩
  · rintro ⟨he, hkeys, hfollow⟩
    exact ⟨List.forall_mem_append.2 ⟨he.keys, hkeys⟩, hchain.2 ⟨he.follow, hfollow⟩⟩

theorem Composed.of_isPrefix {e e' : List Char} (h : Composed e) (hp : e' <+: e) : Composed e' := by
  obtain ⟨v, rfl⟩ := hp
  exact (composed_append_iff.1 h).1

theorem Composed.digit_before_point {front : List Char} (h : Composed (front ++ ['.'])) :
    ∃ d ∈ front.getLast?, isDigit d = true := by
  have hpoint := (composed_append_iff.1 h).2.2
  have hdigit : isDigit (lastChar front) = true := (List.isChain_cons_cons.1 hpoint).1
  rcases List.eq_nil_or_concat front with rfl | ⟨outer, d, rfl⟩
  · cases hdigit
  · rw [List.concat_eq_append, lastChar_append_singleton] at *
    exact ⟨d, List.getLast?_concat, hdigit⟩

theorem Composed.append {e v : List Char} (h : Composed e) (hkeys : v.all isCharacterKey = true)
    (hfollow : (lastChar e :: v).IsChain (mayFollow · ·)) : Composed (e ++ v) :=
  composed_append_iff.2 ⟨h, List.all_eq_true.1 hkeys, hfollow⟩

theorem Composed.concat {e : List Char} (h : Composed e) {c : Char} (hc : isCharacterKey c = true)
    (hfollow : mayFollow (lastChar e) c = true) : Composed (e ++ [c]) :=
  composed_append_iff.2 ⟨h, by simpa using hc, List.isChain_pair.2 hfollow⟩

theorem Composed.operator {e : List Char} (h : Composed e) {c : Char}
    (hc : isOperatorChar c = true) : Composed (e ++ [c]) :=
  h.concat (by simp [isCharacterKey, hc]) (mayFollow_of_isOperatorChar _ hc)

/-! ## Characters that are appended -/

theorem isDigitRun_singleton {c : Char} (hc : isDigit c = true) : isDigitRun [c] = true := by
  have hall : "0123456789".toList.all (isDigitRun [·]) = true := by decide
  exact List.all_eq_true.1 hall c (mem_digits_of_isDigit hc)

theorem of_lastSegment_ne_nil {e : List Char} (h : lastSegment e ≠ []) :
    lastChar e ∈ e ∧ lastChar e ∈ lastSegment e ∧ isSeparator (lastChar e) = false := by
  rcases List.eq_nil_or_concat e with rfl | ⟨front, c, rfl⟩
  · exact absurd rfl h
  · rw [List.concat_eq_append] at *
    simp only [lastSegment, List.reverse_append, List.reverse_singleton, List.singleton_append,
      List.takeWhile_cons] at h ⊢
    split at h
    · rename_i hsep
      have hlast : isSeparator c = false := by simpa using hsep
      simp [hlast]
    · exact absurd rfl h

theorem Composed.appendedPoint {e : List Char} (h : Composed e) :
    Composed (e ++ appendedPoint e) := by
  unfold Keypad.appendedPoint
  dsimp only
  split
  · rwa [List.append_nil]
  · rename_i hpoint
    split
    · split
      · have hstar : mayFollow (lastChar e) '*' = true := mayFollow_of_isOperatorChar _ (by decide)
        exact h.append (by decide) (List.isChain_cons_cons.2 ⟨hstar, by decide⟩)
      · rename_i hclosing
        have hlast := not_closing_of_endsWith (Bool.eq_false_iff.2 hclosing)
        have hzero := mayFollow_of_not_closing (show isDigit '0' = true by decide) hlast
        exact h.append (by decide) (List.isChain_cons_cons.2 ⟨hzero, by decide⟩)
    · -- the last character is in the segment, so it is a digit
      rename_i hsegment
      obtain ⟨hmem, hseg, hsep⟩ := of_lastSegment_ne_nil (by simpa using hsegment)
      have hkey := h.keys _ hmem
      have hne : lastChar e ≠ '.' := by
        intro heq
        rw [heq] at hseg
        simp [hseg] at hpoint
      refine h.concat (by decide) ?_
      simp [isSeparator] at hsep
      simpa [mayFollow, isCharacterKey, hsep, hne] using hkey

theorem Composed.appended {e : List Char} (h : Composed e) {c : Char}
    (hc : isCharacterKey c = true) : Composed (e ++ appended e [c]) := by
  unfold Keypad.appended
  split
  · exact h.appendedPoint
  · rename_i hpoint
    split
    · rename_i hopening
      split
      · have hstar : mayFollow (lastChar e) '*' = true := mayFollow_of_isOperatorChar _ (by decide)
        exact h.append (by decide) (List.isChain_cons_cons.2 ⟨hstar, by decide⟩)
      · rename_i hend
        rw [endsWith_eq_lastChar (by decide)] at hend
        refine h.concat (by decide) ?_
        simpa [mayFollow] using hend
    · rename_i hopening
      simp only [List.cons.injEq, and_true] at hpoint hopening
      split
      · rename_i hdigit
        have hstar := h.operator (show isOperatorChar '*' = true by decide)
        have hnext := hstar.concat hc (by simp [mayFollow, hpoint, hopening])
        simpa using hnext
      · rename_i hdigit
        refine h.concat hc ?_
        cases hcd : isDigit c
        · simp [mayFollow, hpoint, hopening, hcd]
        · rw [isDigitRun_singleton hcd, Bool.true_and, Bool.not_eq_true] at hdigit
          exact mayFollow_of_not_closing hcd (not_closing_of_endsWith hdigit)

/-! ## Keys -/

theorem Composed.pressed {e e' : List Char} (h : Composed e) (hpressed : Pressed e e') :
    Composed e' := by
  cases hpressed with
  | shortened hp => exact h.of_isPrefix hp
  | replaced ho hc => exact (composed_append_iff.1 h).1.operator hc
  | appended hc hstart hoperator => exact h.appended hc
  | minus => exact h.operator (show isOperatorChar '-' = true by decide)
  | signed hfound hsign =>
    obtain ⟨-, d, ds, hd, hnumber⟩ := findLastNumber_append hfound
    dsimp only at hnumber
    subst hnumber
    obtain ⟨hb, hkeys, hfollow⟩ := composed_append_iff.1 h
    have htail := (List.isChain_cons_cons.1 hfollow).2
    have hsigned := hb.operator (show isOperatorChar '-' = true by decide)
    rw [List.append_cons]
    refine composed_append_iff.2 ⟨hsigned, hkeys, ?_⟩
    rw [lastChar_append_singleton]
    exact List.isChain_cons_cons.2 ⟨mayFollow_of_not_closing hd (by decide), htail⟩
  | unsigned hfound hsign =>
    rename_i outer number after
    obtain ⟨-, d, ds, hd, hnumber⟩ := findLastNumber_append hfound
    dsimp only at hnumber
    subst hnumber
    obtain ⟨houter, hkeys, hfollow⟩ := composed_append_iff.1 h
    have htail := (List.isChain_cons_cons.1 (List.isChain_cons_cons.1 hfollow).2).2
    have hclosing : lastChar outer ≠ ')' := by
      apply not_closing_of_isOperatorChar
      unfold lastChar
      cases hlast : outer.getLast? with
      | none => exact .inr rfl
      | some c => exact hsign c hlast
    refine composed_append_iff.2 ⟨houter, fun c hc => hkeys c (List.mem_cons_of_mem _ hc), ?_⟩
    exact List.isChain_cons_cons.2 ⟨mayFollow_of_not_closing hd hclosing, htail⟩

theorem composed_pressAll (limit : Option Int) (keys : List (List Char)) {e : List Char}
    (h : Composed e) : Composed (pressAll limit e keys) :=
  pressAll_induction (fun _ _ hp he => he.of_isPrefix hp) (fun _ _ hp he => he.pressed hp)
    limit keys h

end DeskCalculator.Keypad
