import DeskCalculator.Keypad.Press
import DeskCalculator.Proofs.Keypad.Appended
import DeskCalculator.Proofs.Keypad.LastNumber

/-!
# What a key can do

* `Pressed e e'` : the ways in which a key makes `e'` of the expression `e`, before anything is cut
  off at the length limit;
* `exists_pressed` : every key does one of these, and what it gives starts what they give;
* `press_character` : a character key is a value; `press_eq_concat` : where it comes behind the
  expression as it is; `pressAll_append` : keys are pressed in turn;
* `pressAll_induction` : so what all of them and a cut keep, any keys keep.
-/

namespace DeskCalculator.Keypad

/-- What a key makes of an expression, before it is cut to the limit. -/
inductive Pressed : List Char → List Char → Prop
  | shortened {e e' : List Char} (h : e' <+: e) : Pressed e e'
  | replaced {front : List Char} {o c : Char} (ho : isOperatorChar o = true)
      (hc : isOperatorChar c = true) : Pressed (front ++ [o]) (front ++ [c])
  | appended {e : List Char} {c : Char} (hc : isCharacterKey c = true)
      (hstart : e = [] → isOperatorChar c = true → c = '-')
      (hoperator : isOperatorChar c = true → endsWith isOperatorChar e = false) :
      Pressed e (e ++ appended e [c])
  | minus : Pressed [] ['-']
  | signed {before number after : List Char}
      (hfound : findLastNumber (before ++ (number ++ after)) = some ⟨before, number, after⟩)
      (hsign : endsInSign before = false) :
      Pressed (before ++ (number ++ after)) (before ++ '-' :: (number ++ after))
  | unsigned {outer number after : List Char}
      (hfound : findLastNumber (outer ++ '-' :: (number ++ after)) =
        some ⟨outer ++ ['-'], number, after⟩)
      (hsign : ∀ c ∈ outer.getLast?, isOperatorChar c = true ∨ c = '(') :
      Pressed (outer ++ '-' :: (number ++ after)) (outer ++ (number ++ after))

theorem clip_isPrefix (limit : Int) (text : List Char) : clip limit text <+: text := by
  unfold clip upTo
  split <;> exact List.take_prefix _ _

theorem exists_pressed_appendValue (limit : Option Int) (e : List Char) {c : Char}
    (hc : isCharacterKey c = true) : ∃ e', Pressed e e' ∧ appendValue limit e [c] <+: e' := by
  have happends := appends_appendValue limit e [c]
  generalize appendValue limit e [c] = result at happends ⊢
  cases happends with
  | ignored => exact ⟨e, .shortened (List.prefix_refl e), List.prefix_refl e⟩
  | replaced hroom he hvalue ho hop =>
    subst he
    exact ⟨_, .replaced ho hop, List.prefix_refl _⟩
  | extended hroom hne hidle hreplaced =>
    refine ⟨_, .appended hc ?_ ?_, clip_isPrefix _ _⟩
    · rintro rfl hop
      simpa [isIdleOperator, hop] using hidle
    · intro hop
      simpa [replacedOperator?, hop] using hreplaced

theorem exists_pressed_toggleSign (limit : Option Int) (e : List Char) :
    ∃ e', Pressed e e' ∧ toggleSign limit e <+: e' := by
  unfold toggleSign
  split
  · split
    · rename_i hnil
      obtain rfl := List.isEmpty_iff.1 hnil
      exact ⟨_, .minus, List.prefix_refl _⟩
    · exact ⟨e, .shortened (List.prefix_refl e), List.prefix_refl e⟩
  · rename_i before number after hfound
    obtain rfl := (findLastNumber_append hfound).1
    dsimp only at hfound ⊢
    split
    · rename_i hsign
      obtain ⟨outer, rfl, houter⟩ := of_endsInSign hsign
      rw [List.append_assoc, List.singleton_append] at hfound ⊢
      rw [List.dropLast_concat]
      exact ⟨_, .unsigned hfound houter, List.prefix_refl _⟩
    · rename_i hsign
      exact ⟨_, .signed hfound (by simpa using hsign), clip_isPrefix _ _⟩

/-- Every key does one of these things, cut to the limit. -/
theorem exists_pressed (limit : Option Int) (e key : List Char) :
    ∃ e', Pressed e e' ∧ press limit e key <+: e' := by
  have hsame : ∃ e', Pressed e e' ∧ e <+: e' :=
    ⟨e, .shortened (List.prefix_refl e), List.prefix_refl e⟩
  unfold press
  split
  · exact ⟨[], .shortened List.nil_prefix, List.prefix_refl _⟩
  · split
    · exact ⟨_, .shortened (List.dropLast_prefix e), List.prefix_refl _⟩
    · split
      · exact exists_pressed_toggleSign limit e
      · split
        · split
          · rename_i hc
            exact exists_pressed_appendValue limit e hc
          · exact hsame
        · exact hsame

theorem pressAll_append (limit : Option Int) (e : List Char) (keys keys' : List (List Char)) :
    pressAll limit e (keys ++ keys') = pressAll limit (pressAll limit e keys) keys' :=
  List.foldl_append

theorem press_character {limit : Option Int} {e : List Char} {c : Char}
    (hc : isCharacterKey c = true) : press limit e [c] = appendValue limit e [c] := by
  have hname : ∀ {name : List Char}, name.length ≠ 1 → [c] ≠ name := by
    rintro name hlength rfl
    exact hlength rfl
  unfold press
  rw [if_neg (not_or.2 ⟨hname (by decide), hname (by decide)⟩),
    if_neg (not_or.2 ⟨hname (by decide), hname (by decide)⟩), if_neg (hname (by decide))]
  exact if_pos hc

/-- A character that nothing is done for comes behind the expression. -/
theorem press_eq_concat {limit : Option Int} {e : List Char} {c : Char}
    (hroom : e.length < effectiveLimit limit)
    (hc : isCharacterKey c = true) (happended : appended e [c] = [c])
    (hoperator : isOperatorChar c = true → endsWith isOperatorChar e = false)
    (hstart : e = [] → isOperatorChar c = true → c = '-') : press limit e [c] = e ++ [c] := by
  have hidle : isIdleOperator e [c] = false := by
    rw [Bool.eq_false_iff]
    intro h
    simp only [isIdleOperator, Bool.and_eq_true, bne_iff_ne, List.isEmpty_iff] at h
    exact h.1.2 (hstart h.2 h.1.1)
  have hreplaced : replacedOperator? e [c] = none := by
    refine if_neg fun h => ?_
    rw [Bool.and_eq_true] at h
    rw [hoperator h.1] at h
    cases h.2
  have hfits : ((e ++ [c]).length : Int) ≤ effectiveLimit limit := by
    rw [List.length_append, List.length_singleton]
    omega
  rw [press_character hc]
  unfold appendValue
  dsimp only
  rw [if_neg (not_or.2 ⟨by simp, Int.not_le.2 hroom⟩), hidle, if_neg Bool.false_ne_true, hreplaced,
    happended]
  exact clip_of_length_le hfits

/-- **What every key keeps, any keys keep**, if a cut keeps it too. -/
theorem pressAll_induction {P : List Char → Prop} (hshorter : ∀ e e', e' <+: e → P e → P e')
    (hpressed : ∀ e e', Pressed e e' → P e → P e') (limit : Option Int) (keys : List (List Char))
    {e : List Char} (h : P e) : P (pressAll limit e keys) := by
  induction keys generalizing e with
  | nil => exact h
  | cons key keys ih =>
    obtain ⟨e', hstep, hcut⟩ := exists_pressed limit e key
    exact ih (hshorter e' _ hcut (hpressed e e' hstep h))

end DeskCalculator.Keypad
