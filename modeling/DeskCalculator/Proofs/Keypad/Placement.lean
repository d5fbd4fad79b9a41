import DeskCalculator.Proofs.Keypad.Orderly

/-!
# Where operators stand in what keys compose

* `OperatorsApart` : no operator directly follows another; `OperatorsPlaced` : one that does, or that
  the expression begins with, is a minus;
* `OperatorsFollow p` : both rules at once: an operator directly after another is one of `p`
  (`operatorsApart_iff`, `operatorsPlaced_iff`); `OperatorsFollow.press` : what a key needs to keep it;
* `ReplacesSign` : a key that puts another operator in the place of a sign;
* `OperatorsPlaced.press`, `ReplacesSign.not_operatorsPlaced` : such keys break the placement, and no
  others do;
* `operatorsPlaced_pressAll_iff` : so operators are placed well all along a run of keys if and only if
  no key replaces a sign; keys that flip no sign keep operators apart.
-/

namespace DeskCalculator.Keypad

/-- No operator directly follows another. -/
def OperatorsApart (e : List Char) : Prop :=
  ∀ a b, [a, b] <:+: e → isOperatorChar a = true → isOperatorChar b = false

/-- An operator that the expression begins with, or that directly follows another, is a minus. -/
structure OperatorsPlaced (e : List Char) : Prop where
  start : ∀ c ∈ e.head?, isOperatorChar c = true → c = '-'
  follow : ∀ a b, [a, b] <:+: e → isOperatorChar a = true → isOperatorChar b = true → b = '-'

/-- An operator that directly follows another is one of `p`. -/
def OperatorsFollow (p : Char → Prop) (e : List Char) : Prop :=
  e.IsChain fun a b => isOperatorChar a = true → isOperatorChar b = true → p b

theorem operatorsFollow_iff {p : Char → Prop} {e : List Char} :
    OperatorsFollow p e ↔
      ∀ a b, [a, b] <:+: e → isOperatorChar a = true → isOperatorChar b = true → p b := by
  constructor
  · intro h a b hab
    have hpair := h.infix hab
    exact List.isChain_pair.1 hpair
  · intro h
    exact (List.isChain_isInfix e).imp h

theorem operatorsApart_iff {e : List Char} :
    OperatorsApart e ↔ OperatorsFollow (fun _ => False) e := by
  simp only [operatorsFollow_iff, OperatorsApart, imp_false, Bool.not_eq_true]

/-- The start of an expression is like an operator. -/
theorem operatorsPlaced_iff {e : List Char} :
    OperatorsPlaced e ↔ OperatorsFollow (· = '-') ('-' :: e) := by
  constructor
  · rintro ⟨hstart, hfollow⟩
    cases e with
    | nil => exact .singleton _
    | cons c cs =>
      exact .cons_cons (fun _ => hstart c rfl) (operatorsFollow_iff.2 hfollow)
  · intro h
    refine ⟨fun c hc => ?_, operatorsFollow_iff.1 h.tail⟩
    obtain ⟨cs, rfl⟩ := List.head?_eq_some_iff.1 hc
    exact (List.isChain_cons_cons.1 h).1 rfl

/-! ## Text that is appended -/

section

variable {p : Char → Prop} {w v : List Char}

theorem operatorsFollow_append_iff : OperatorsFollow p (w ++ v) ↔
    OperatorsFollow p w ∧ OperatorsFollow p v ∧ ∀ a ∈ w.getLast?, ∀ b ∈ v.head?,
      isOperatorChar a = true → isOperatorChar b = true → p b :=
  List.isChain_append

theorem OperatorsFollow.of_isPrefix (h : OperatorsFollow p w) (hp : v <+: w) :
    OperatorsFollow p v :=
  h.infix hp.isInfix

theorem endsWith_iff {test : Char → Bool} :
    endsWith test w = true ↔ ∃ a ∈ w.getLast?, test a = true := by
  unfold endsWith
  cases w.getLast? <;> simp

theorem OperatorsFollow.concat (h : OperatorsFollow p w) {c : Char}
    (hc : isOperatorChar c = true → endsWith isOperatorChar w = true → p c) :
    OperatorsFollow p (w ++ [c]) := by
  refine operatorsFollow_append_iff.2 ⟨h, .singleton c, ?_⟩
  rintro a ha b ⟨⟩ hop hc'
  exact hc hc' (endsWith_iff.2 ⟨a, ha, hop⟩)

theorem OperatorsFollow.append_plain (h : OperatorsFollow p w)
    (hv : ∀ c ∈ v, isOperatorChar c = false) : OperatorsFollow p (w ++ v) := by
  refine operatorsFollow_append_iff.2 ⟨h, operatorsFollow_iff.2 ?_, ?_⟩
  · intro a b hab _ hb
    rw [hv b (hab.subset (by simp))] at hb
    cases hb
  · intro a _ b hb _ hop
    rw [hv b (List.mem_of_mem_head? hb)] at hop
    cases hop

theorem OperatorsFollow.append_product (h : OperatorsFollow p w)
    (hlast : endsWith isOperatorChar w = false) (hv : ∀ c ∈ v, isOperatorChar c = false) :
    OperatorsFollow p (w ++ '*' :: v) := by
  rw [List.append_cons]
  refine (h.concat fun _ hend => ?_).append_plain hv
  rw [hlast] at hend
  cases hend

end

/-! ## Keys -/

section

variable {p : Char → Prop} {lead e : List Char}

theorem not_endsWith_operator {test : Char → Bool} (h : endsWith test e = true)
    (htest : ∀ c, test c = true → isOperatorChar c = false) :
    endsWith isOperatorChar (lead ++ e) = false := by
  obtain ⟨front, c, rfl, hc⟩ := exists_append_of_endsWith h
  rw [← List.append_assoc, endsWith, List.getLast?_concat, Option.any_some, htest c hc]

theorem not_isOperatorChar_of_operandEnd {c : Char} (h : isDigit c = true ∨ c = ')') :
    isOperatorChar c = false := by
  rcases h with hdigit | rfl
  · exact not_isOperatorChar_of_isDigit hdigit
  · rfl

theorem not_isOperatorChar_of_mem_point : ∀ c ∈ ['0', '.'], isOperatorChar c = false := by
  simp [isOperatorChar]

theorem OperatorsFollow.appendedPoint (h : OperatorsFollow p (lead ++ e)) :
    OperatorsFollow p (lead ++ (e ++ appendedPoint e)) := by
  rw [← List.append_assoc]
  unfold Keypad.appendedPoint
  dsimp only
  split
  · rwa [List.append_nil]
  · split
    · split
      · rename_i hclosing
        refine h.append_product (not_endsWith_operator hclosing fun c hc => ?_)
          not_isOperatorChar_of_mem_point
        exact not_isOperatorChar_of_operandEnd (.inr (by simpa using hc))
      · exact h.append_plain not_isOperatorChar_of_mem_point
    · exact h.append_plain (by simp [isOperatorChar])

/-- Only the value itself can be an operator after another. -/
theorem OperatorsFollow.appended (h : OperatorsFollow p (lead ++ e)) {c : Char}
    (hc : isOperatorChar c = true → endsWith isOperatorChar (lead ++ e) = true → p c) :
    OperatorsFollow p (lead ++ (e ++ appended e [c])) := by
  unfold Keypad.appended
  split
  · exact h.appendedPoint
  · rw [← List.append_assoc]
    split
    · split
      · rename_i hend
        refine h.append_product (not_endsWith_operator hend fun d hd => ?_)
          (by simp [isOperatorChar])
        exact not_isOperatorChar_of_operandEnd (by simpa using hd)
      · exact h.append_plain (by simp [isOperatorChar])
    · split
      · rename_i hdigit
        rw [Bool.and_eq_true] at hdigit
        refine h.append_product (not_endsWith_operator hdigit.2 fun d hd => ?_) ?_
        · exact not_isOperatorChar_of_operandEnd (.inr (by simpa using hd))
        · simpa using not_isOperatorChar_of_isDigitRun hdigit.1
      · exact h.concat hc

theorem OperatorsFollow.toggleSign (h : OperatorsFollow p (lead ++ e)) (hminus : p '-')
    (limit : Option Int) : OperatorsFollow p (lead ++ toggleSign limit e) := by
  unfold Keypad.toggleSign
  split
  · split
    · rename_i hnil
      obtain rfl := List.isEmpty_iff.1 hnil
      rw [List.append_nil] at h
      exact h.concat fun _ _ => hminus
    · exact h
  · rename_i before number after hfound
    obtain ⟨happend, d, ds, hd, hnumber⟩ := findLastNumber_append hfound
    dsimp only at happend hnumber
    subst happend hnumber
    have hdigit := not_isOperatorChar_of_isDigit hd
    rw [← List.append_assoc] at h
    obtain ⟨hbefore, hnumber, -⟩ := operatorsFollow_append_iff.1 h
    -- what comes before a digit does not matter to what comes after it
    have hjoin : ∀ {front}, OperatorsFollow p front →
        OperatorsFollow p (front ++ (d :: ds ++ after)) := by
      intro front hfront
      refine operatorsFollow_append_iff.2 ⟨hfront, hnumber, ?_⟩
      rintro a - b ⟨⟩ - hb
      rw [hdigit] at hb
      cases hb
    split
    · rename_i hsign
      obtain ⟨outer, rfl, -⟩ := of_endsInSign hsign
      rw [List.dropLast_concat, ← List.append_assoc]
      rw [← List.append_assoc] at hbefore
      exact hjoin (hbefore.of_isPrefix (List.prefix_append _ _))
    · have hsigned := hjoin (hbefore.concat fun _ _ => hminus)
      refine hsigned.of_isPrefix ?_
      rw [List.append_assoc, List.append_assoc, List.singleton_append]
      exact (List.prefix_append_right_inj lead).2 (clip_isPrefix _ _)

/-- What a key needs to keep the rule: a sign may follow an operator if signs are flipped or begin
the expression, and so may an operator that replaces one which does. -/
theorem OperatorsFollow.press {limit : Option Int} {key : List Char}
    (h : OperatorsFollow p (lead ++ e)) (hsign : key = "toggleSign".toList → p '-')
    (hstart : endsWith isOperatorChar lead = true → p '-')
    (hreplace : ∀ front o c, e = front ++ [o] → key = [c] → isOperatorChar o = true →
      isOperatorChar c = true → e.length < effectiveLimit limit →
      endsWith isOperatorChar (lead ++ front) = true → p c) :
    OperatorsFollow p (lead ++ press limit e key) := by
  have hshorter : ∀ {e'}, e' <+: e → OperatorsFollow p (lead ++ e') := fun hp =>
    h.of_isPrefix ((List.prefix_append_right_inj lead).2 hp)
  unfold Keypad.press
  split
  · exact hshorter List.nil_prefix
  · split
    · exact hshorter (List.dropLast_prefix e)
    · split
      · rename_i hkey
        exact h.toggleSign (hsign hkey) limit
      · split
        · rename_i c _ _ _
          split
          · have happends := appends_appendValue limit e [c]
            generalize appendValue limit e [c] = result at happends ⊢
            cases happends with
            | ignored => exact h
            | @replaced front o c' hroom he hvalue ho hc =>
              obtain rfl := List.singleton_injective hvalue
              have hfront : front <+: e := he ▸ List.prefix_append front [o]
              rw [← List.append_assoc]
              exact (hshorter hfront).concat fun _ hend =>
                hreplace front o c he rfl ho hc hroom hend
            | extended hroom hne hidle hreplaced =>
              refine OperatorsFollow.of_isPrefix (h.appended fun hop hend => ?_)
                ((List.prefix_append_right_inj lead).2 (clip_isPrefix _ _))
              -- the operator replaces none and is not idle, so it is the minus at the start
              have hnone : endsWith isOperatorChar e = false := by
                simpa [replacedOperator?, hop] using hreplaced
              rcases List.eq_nil_or_concat e with rfl | ⟨front, o, rfl⟩
              · obtain rfl : c = '-' := by simpa [isIdleOperator, hop] using hidle
                exact hstart (by rwa [List.append_nil] at hend)
              · rw [List.concat_eq_append] at *
                rw [← List.append_assoc, endsWith, List.getLast?_concat] at hend
                rw [endsWith, List.getLast?_concat, hend] at hnone
                cases hnone
          · exact h
        · exact h

end

/-! ## Signs that are replaced -/

/-- The key is an operator, but no minus, and there is room for it to take the place of a minus at the
end of the expression that begins it or directly follows an operator. -/
def ReplacesSign (limit : Option Int) (e key : List Char) : Prop :=
  ∃ front c, e = front ++ ['-'] ∧ (∀ b ∈ front.getLast?, isOperatorChar b = true) ∧ key = [c] ∧
    isOperatorChar c = true ∧ c ≠ '-' ∧ e.length < effectiveLimit limit

section

variable {limit : Option Int} {e key : List Char}

theorem endsWith_operator_cons_iff {front : List Char} :
    endsWith isOperatorChar ('-' :: front) = true ↔
      ∀ b ∈ front.getLast?, isOperatorChar b = true := by
  rcases List.eq_nil_or_concat front with rfl | ⟨outer, c, rfl⟩
  · simp [endsWith, isOperatorChar]
  · rw [List.concat_eq_append, ← List.cons_append, endsWith, List.getLast?_concat,
      List.getLast?_concat]
    simp

theorem OperatorsPlaced.press (h : OperatorsPlaced e) (hkeep : ¬ReplacesSign limit e key) :
    OperatorsPlaced (press limit e key) := by
  rw [operatorsPlaced_iff] at h ⊢
  show OperatorsFollow _ (['-'] ++ Keypad.press limit e key)
  refine OperatorsFollow.press h (fun _ => rfl) (fun _ => rfl) ?_
  rintro front o c rfl rfl ho hc hroom hend
  by_contra hne
  obtain ⟨a, ha, hop⟩ := endsWith_iff.1 hend
  rw [← List.cons_append] at h
  obtain rfl := (operatorsFollow_append_iff.1 h).2.2 a ha o rfl hop ho
  exact hkeep ⟨front, c, rfl, endsWith_operator_cons_iff.1 hend, rfl, hc, hne, hroom⟩

theorem OperatorsApart.press (h : OperatorsApart e) (hkey : key ≠ "toggleSign".toList) :
    OperatorsApart (press limit e key) := by
  rw [operatorsApart_iff] at h ⊢
  show OperatorsFollow _ ([] ++ Keypad.press limit e key)
  refine OperatorsFollow.press h (fun heq => hkey heq) nofun ?_
  rintro front o c rfl rfl ho hc hroom hend
  obtain ⟨a, ha, hop⟩ := endsWith_iff.1 hend
  exact (operatorsFollow_append_iff.1 h).2.2 a ha o rfl hop ho

/-- A key that replaces a sign puts another operator where only a minus may stand. -/
theorem ReplacesSign.not_operatorsPlaced (h : ReplacesSign limit e key) :
    ¬OperatorsPlaced (Keypad.press limit e key) := by
  obtain ⟨front, c, rfl, hfront, rfl, hc, hne, hroom⟩ := h
  have hpress : Keypad.press limit (front ++ ['-']) [c] = front ++ [c] := by
    rw [press_character (by simp [isCharacterKey, hc])]
    exact appendValue_replaced hroom (show isOperatorChar '-' = true by decide) hc
  rw [hpress, operatorsPlaced_iff, ← List.cons_append]
  intro hplaced
  obtain ⟨a, ha, hop⟩ := endsWith_iff.1 (endsWith_operator_cons_iff.2 hfront)
  exact hne ((operatorsFollow_append_iff.1 hplaced).2.2 a ha c rfl hop hc)

end

theorem operatorsApart_pressAll (limit : Option Int) {keys : List (List Char)} {e : List Char}
    (h : OperatorsApart e) (hkeys : ∀ key ∈ keys, key ≠ "toggleSign".toList) :
    OperatorsApart (pressAll limit e keys) := by
  induction keys generalizing e with
  | nil => exact h
  | cons key keys ih =>
    rw [List.forall_mem_cons] at hkeys
    exact ih (h.press hkeys.1) hkeys.2

/-- **Operators are placed well all along a run of keys** if and only if no key of it replaces a sign
by another operator. Without flipping signs no operator comes to stand after another. -/
theorem operatorsPlaced_pressAll_iff (limit : Option Int) (keys : List (List Char)) :
    ((∀ past, past <+: keys → OperatorsPlaced (pressAll limit [] past)) ↔
      ∀ past key, past ++ [key] <+: keys → ¬ReplacesSign limit (pressAll limit [] past) key) ∧
    ((∀ key ∈ keys, key ≠ "toggleSign".toList) → OperatorsApart (pressAll limit [] keys)) := by
  have hconcat : ∀ past key,
      pressAll limit [] (past ++ [key]) = press limit (pressAll limit [] past) key :=
    fun past key => pressAll_append limit [] past [key]
  refine ⟨⟨fun hplaced past key hpast hreplaces => ?_, fun hkeep past hpast => ?_⟩,
    operatorsApart_pressAll limit (operatorsApart_iff.2 .nil)⟩
  · have hnext := hplaced _ hpast
    rw [hconcat] at hnext
    exact hreplaces.not_operatorsPlaced hnext
  · induction past using List.reverseRecOn with
    | nil => exact operatorsPlaced_iff.2 (.singleton '-')
    | append_singleton past key ih =>
      rw [hconcat]
      exact (ih ((List.prefix_append past [key]).trans hpast)).press (hkeep past key hpast)

/-- The sign of a number that was deleted again is replaced by a product. -/
theorem operatorsPlaced_pressAll_iff_product :
    let past := ["2", "+", "5", "toggleSign", "backspace"].map String.toList
    ReplacesSign none (pressAll none [] past) "*".toList ∧
      ¬∀ earlier, earlier <+: past ++ ["*".toList] → OperatorsPlaced (pressAll none [] earlier) := by
  intro past
  have hpast : pressAll none [] past = "2+-".toList := by decide +kernel
  have hreplaces : ReplacesSign none (pressAll none [] past) "*".toList := by
    rw [hpast]
    exact ⟨['2', '+'], '*', rfl, by simp [isOperatorChar], rfl, by decide, by decide, by decide⟩
  have hkeeps := (operatorsPlaced_pressAll_iff none (past ++ ["*".toList])).1
  exact ⟨hreplaces, fun hall => hkeeps.1 hall past _ (List.prefix_refl _) hreplaces⟩

/-- Not all that keys compose is placed well: a product may begin it, or follow a sum. -/
theorem exists_misplaced_operators :
    (¬∀ keys, ∀ c ∈ (pressAll none [] keys).head?, isOperatorChar c = true → c = '-') ∧
    ¬∀ keys a b, [a, b] <:+: pressAll none [] keys → isOperatorChar a = true →
      isOperatorChar b = true → b = '-' := by
  refine ⟨fun hall => ?_, fun hall => ?_⟩
  · have hkeys : pressAll none [] (["-", "*"].map String.toList) = "*".toList := by decide +kernel
    have hstart := hall (["-", "*"].map String.toList)
    rw [hkeys] at hstart
    exact absurd (hstart '*' rfl rfl) (by decide)
  · have hkeys : pressAll none []
        (["2", "+", "5", "toggleSign", "backspace", "*"].map String.toList) = "2+*".toList := by
      decide +kernel
    have hfollow := hall (["2", "+", "5", "toggleSign", "backspace", "*"].map String.toList) '+' '*'
    rw [hkeys] at hfollow
    exact absurd (hfollow ⟨['2'], [], rfl⟩ rfl rfl) (by decide)

end DeskCalculator.Keypad
