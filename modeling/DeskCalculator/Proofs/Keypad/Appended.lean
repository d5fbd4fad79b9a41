import DeskCalculator.Keypad.Basic

/-!
# What a value does to an expression

* `Appends limit e value` : all that a value does to the expression `e`: nothing, to replace the
  operator at its end, or to come behind it, cut to the limit (`appends_appendValue`);
* `length_appendValue_le` : it keeps to the limit, unless the expression was longer already;
* `appended_cases` : what comes behind is the value, alone or after a multiplication, or a point with
  a zero before it; `exists_part_of_clip` : the cut leaves some of it, and all of the expression;
* `Keeps` : the expression as it was, with something typed behind it, or with another operator;
  `keeps_appendValue` : a value of any length keeps the expression that way, and keeps to the limit.
-/

namespace DeskCalculator.Keypad

theorem exists_append_of_endsWith {test : Char → Bool} {e : List Char}
    (h : endsWith test e = true) : ∃ front c, e = front ++ [c] ∧ test c = true := by
  rcases List.eq_nil_or_concat e with rfl | ⟨front, c, rfl⟩
  · cases h
  · rw [List.concat_eq_append] at *
    exact ⟨front, c, rfl, by simpa [endsWith] using h⟩

/-! ## The cut -/

theorem clip_of_length_le {limit : Int} {text : List Char} (h : text.length ≤ limit) :
    clip limit text = text := by
  unfold clip upTo
  rw [if_pos (by omega), List.take_of_length_le (by omega)]

theorem length_clip_le_of_nonneg {limit : Int} (h : 0 ≤ limit) (text : List Char) :
    (clip limit text).length ≤ limit.toNat := by
  unfold clip upTo
  rw [if_pos h, List.length_take]
  exact Nat.min_le_left _ _

/-- Where there is room behind a text, a cut leaves some of what comes there. -/
theorem exists_part_of_clip {limit : Int} {e v : List Char} (hroom : e.length < limit)
    (hv : v ≠ []) : ∃ part, part ≠ [] ∧ part <+: v ∧ clip limit (e ++ v) = e ++ part := by
  refine ⟨v.take (limit.toNat - e.length), ?_, List.take_prefix _ _, ?_⟩
  · rw [ne_eq, List.take_eq_nil_iff, not_or]
    exact ⟨by omega, hv⟩
  · unfold clip upTo
    rw [if_pos (by omega), List.take_append, List.take_of_length_le (by omega)]

/-! ## Values -/

/-- What a value does to an expression with the length limit `limit`. -/
inductive Appends (limit : Int) (e value : List Char) : List Char → Prop
  | ignored : Appends limit e value e
  | replaced {front : List Char} {o c : Char} (hroom : e.length < limit) (he : e = front ++ [o])
      (hvalue : value = [c]) (ho : isOperatorChar o = true) (hc : isOperatorChar c = true) :
      Appends limit e value (front ++ [c])
  | extended (hroom : e.length < limit) (hne : value ≠ [])
      (hidle : isIdleOperator e value = false) (hreplaced : replacedOperator? e value = none) :
      Appends limit e value (clip limit (e ++ appended e value))

theorem appends_appendValue (limit : Option Int) (e value : List Char) :
    Appends (effectiveLimit limit) e value (appendValue limit e value) := by
  unfold appendValue
  dsimp only
  split
  · exact .ignored
  · rename_i hfull
    obtain ⟨hne, hroom⟩ := not_or.1 hfull
    rw [List.isEmpty_iff] at hne
    rw [Int.not_le] at hroom
    split
    · exact .ignored
    · rename_i hidle
      split
      · rename_i replaced hreplaced
        unfold replacedOperator? at hreplaced
        split at hreplaced
        · rename_i c
          split at hreplaced
          · rename_i hop
            rw [Bool.and_eq_true] at hop
            obtain ⟨front, o, rfl, ho⟩ := exists_append_of_endsWith hop.2
            obtain rfl := Option.some.inj hreplaced
            -- one operator takes the place of another, so nothing has to be cut off
            have hsame : (front ++ [c]).length = (front ++ [o]).length := by
              rw [List.length_append, List.length_append, List.length_singleton,
                List.length_singleton]
            rw [List.dropLast_concat, clip_of_length_le (by omega)]
            exact .replaced hroom rfl rfl ho hop.1
          · cases hreplaced
        · cases hreplaced
      · rename_i hreplaced
        exact .extended hroom hne (Bool.eq_false_iff.2 hidle) hreplaced

/-- One operator takes the place of another, so nothing has to be cut off. -/
theorem appendValue_replaced {limit : Option Int} {front : List Char} {o c : Char}
    (hroom : (front ++ [o]).length < effectiveLimit limit) (ho : isOperatorChar o = true)
    (hc : isOperatorChar c = true) : appendValue limit (front ++ [o]) [c] = front ++ [c] := by
  have hidle : isIdleOperator (front ++ [o]) [c] = false := by simp [isIdleOperator]
  have hreplaced : replacedOperator? (front ++ [o]) [c] = some (front ++ [c]) := by
    simp [replacedOperator?, endsWith, ho, hc]
  have hfits : ((front ++ [c]).length : Int) ≤ effectiveLimit limit := by
    rw [List.length_append, List.length_singleton] at hroom ⊢
    omega
  unfold appendValue
  dsimp only
  rw [if_neg (not_or.2 ⟨by simp, Int.not_le.2 hroom⟩), hidle, if_neg Bool.false_ne_true, hreplaced]
  exact clip_of_length_le hfits

theorem length_appendValue_le (limit : Option Int) (e value : List Char) :
    (appendValue limit e value).length ≤ max e.length (effectiveLimit limit).toNat := by
  have happends := appends_appendValue limit e value
  generalize appendValue limit e value = result at happends ⊢
  cases happends with
  | ignored => exact Nat.le_max_left _ _
  | replaced hroom he =>
    rw [he, List.length_append, List.length_append]
    exact Nat.le_max_left _ _
  | extended hroom =>
    exact Nat.le_trans (length_clip_le_of_nonneg (by omega) _) (Nat.le_max_right _ _)

theorem appendedPoint_cases (e : List Char) :
    appendedPoint e ∈ [[], ['.'], "0.".toList, "*0.".toList] := by
  unfold appendedPoint
  dsimp only
  split
  · simp
  · split
    · split <;> simp
    · simp

/-- What comes behind is the value, alone or after a multiplication, or a point with a zero before
it. -/
theorem appended_cases (e value : List Char) :
    appended e value = [] ∨
      appended e value ∈ [value, '*' :: value, "0.".toList, "*0.".toList] := by
  unfold appended
  split
  · rename_i hpoint
    subst hpoint
    have hcases := appendedPoint_cases e
    simp only [List.mem_cons, List.not_mem_nil, or_false] at hcases ⊢
    rcases hcases with h | h | h | h <;> simp [h]
  · split
    · rename_i hopening
      subst hopening
      split <;> simp
    · split <;> simp

/-! ## What is kept -/

/-- The expression as it was, with some of what was typed behind it, or with the operator at its end
replaced by a typed one. -/
inductive Keeps (value : List Char) : List Char → List Char → Prop
  | same (e : List Char) : Keeps value e e
  | extended (e : List Char) {typed part : List Char}
      (htyped : typed ∈ [value, '*' :: value, "0.".toList, "*0.".toList]) (hne : part ≠ [])
      (hpart : part <+: typed) : Keeps value e (e ++ part)
  | replaced (front : List Char) {o c : Char} (hvalue : value = [c])
      (ho : isOperatorChar o = true) (hc : isOperatorChar c = true) :
      Keeps value (front ++ [o]) (front ++ [c])

theorem Appends.keeps {limit : Int} {e value result : List Char}
    (h : Appends limit e value result) : Keeps value e result := by
  cases h with
  | ignored => exact .same e
  | replaced hroom he hvalue ho hc =>
    subst he
    exact .replaced _ hvalue ho hc
  | extended hroom hne hidle hreplaced =>
    rcases appended_cases e value with hnil | htyped
    · rw [hnil, List.append_nil, clip_of_length_le (by omega)]
      exact .same e
    · have htyped_ne : appended e value ≠ [] := by
        intro hnil
        rw [hnil] at htyped
        simp [hne] at htyped
      obtain ⟨part, hpart_ne, hpart, hclip⟩ := exists_part_of_clip hroom htyped_ne
      rw [hclip]
      exact .extended e htyped hpart_ne hpart

/-- **A value keeps what was typed before**, and no expression grows beyond the limit by it. -/
theorem keeps_appendValue (limit : Option Int) (e value : List Char) :
    Keeps value e (appendValue limit e value) ∧
      (appendValue limit e value).length ≤ max (e.length : Int) (effectiveLimit limit) := by
  refine ⟨(appends_appendValue limit e value).keeps, ?_⟩
  have hlength := length_appendValue_le limit e value
  omega

end DeskCalculator.Keypad
