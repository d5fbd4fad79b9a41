import DeskCalculator.Proofs.Keypad.Legible
import DeskCalculator.Proofs.Keypad.Placement

/-!
# What you type is what you get

* `appended_eq_self` : where a character comes behind an expression as it is;
* `Legible.press_concat` : so does the last character of a legible text with its operators apart;
* `pressAll_characters_of_idle` : an operator that no expression begins with is left out;
* `pressAll_characters_iff` : typing a text, character by character, gives the text if and only if it
  is legible, has its operators apart, begins with no operator but a minus, and fits.
-/

namespace DeskCalculator.Keypad

/-! ## Characters that come as they are -/

theorem isCharacterKey_of_mem_keys {c : Char} (h : c ∈ "0123456789+-*/.()".toList) :
    isCharacterKey c = true := by
  have hall : "0123456789+-*/.()".toList.all isCharacterKey = true := by decide
  exact List.all_eq_true.1 hall c h

theorem isDigit_of_isDigitRun {c : Char} (hc : isCharacterKey c = true)
    (h : isDigitRun [c] = true) : isDigit c = true := by
  have hall : "0123456789+-*/.()".toList.all (fun c => !isDigitRun [c] || isDigit c) = true := by
    decide
  have hkey := List.all_eq_true.1 hall c (mem_keys_of_isCharacterKey hc)
  simpa [h] using hkey

theorem appended_eq_self {e : List Char} {c : Char} (hc : isCharacterKey c = true)
    (hpoint : c = '.' → '.' ∉ lastSegment e ∧ lastSegment e ≠ [])
    (hopening : c = '(' → endsWith (fun b => isDigit b || b == ')') e = false)
    (hdigit : isDigit c = true → endsWith (· == ')') e = false) : appended e [c] = [c] := by
  unfold appended
  split
  · rename_i heq
    obtain ⟨hno, hne⟩ := hpoint (List.singleton_injective heq)
    unfold appendedPoint
    dsimp only
    rw [if_neg (by simpa using hno), if_neg (by simpa using hne), heq]
  · split
    · rename_i heq
      rw [hopening (List.singleton_injective heq), if_neg Bool.false_ne_true, heq]
    · split
      · rename_i hrun
        rw [Bool.and_eq_true] at hrun
        rw [hdigit (isDigit_of_isDigitRun hc hrun.1)] at hrun
        cases hrun.2
      · rfl

/-! ## Legible texts -/

theorem lastSegment_suffix (e : List Char) : lastSegment e <:+ e := by
  unfold lastSegment
  rw [← List.reverse_prefix, List.reverse_reverse]
  exact List.takeWhile_prefix _

theorem isNumberChar_of_mem_lastSegment {e : List Char} (h : ∀ c ∈ e, isCharacterKey c = true)
    {c : Char} (hc : c ∈ lastSegment e) : isNumberChar c = true := by
  have hkey := h c ((lastSegment_suffix e).subset hc)
  have hsep : isSeparator c = false := by
    unfold lastSegment at hc
    simpa using List.mem_takeWhile_imp (List.mem_reverse.1 hc)
  simp only [isSeparator, Bool.or_eq_false_iff] at hsep
  simpa [isNumberChar, isCharacterKey, hsep] using hkey

theorem Legible.of_isPrefix {e e' : List Char} (h : Legible e) (hp : e' <+: e) : Legible e' :=
  ⟨fun c hc => h.keys c (hp.subset hc), fun run hrun => h.one_point run (hrun.trans hp.isInfix),
    fun front hfront => h.digit_before_point front (hfront.trans hp),
    fun c hc => h.after_closing c (hc.trans hp.isInfix),
    fun c hc => h.before_opening c (hc.trans hp.isInfix)⟩

section

variable {e : List Char} {c : Char}

theorem infix_pair_of_endsWith {test : Char → Bool} (h : endsWith test e = true) :
    ∃ b, test b = true ∧ [b, c] <:+: e ++ [c] := by
  obtain ⟨front, b, rfl, hb⟩ := exists_append_of_endsWith h
  exact ⟨b, hb, front, [], by simp⟩

theorem Legible.point (h : Legible (e ++ ['.'])) :
    '.' ∉ lastSegment e ∧ lastSegment e ≠ [] := by
  constructor
  · intro hmem
    have hkeys : ∀ c ∈ e, isCharacterKey c = true := fun c hc =>
      isCharacterKey_of_mem_keys (h.keys c (List.mem_append_left _ hc))
    have hrun : lastSegment e ++ ['.'] <:+: e ++ ['.'] := by
      obtain ⟨front, hfront⟩ := lastSegment_suffix e
      exact ⟨front, [], by rw [List.append_nil, ← List.append_assoc, hfront]⟩
    have hcount := h.one_point _ hrun fun c hc => by
      rcases List.mem_append.1 hc with hc | hc
      · exact isNumberChar_of_mem_lastSegment hkeys hc
      · rw [List.mem_singleton.1 hc]
        rfl
    have hpos := List.count_pos_iff.2 hmem
    rw [List.count_append, List.count_singleton_self] at hcount
    omega
  · obtain ⟨d, hd, hdigit⟩ := h.digit_before_point e (List.prefix_refl _)
    obtain ⟨front, rfl⟩ := List.getLast?_eq_some_iff.1 hd
    rw [lastSegment_concat, not_isSeparator_of_isDigit hdigit, if_neg Bool.false_ne_true]
    simp

/-- The last character of a legible text comes behind the others as it is. -/
theorem Legible.press_concat {limit : Option Int} (h : Legible (e ++ [c]))
    (hoperators : OperatorsApart (e ++ [c]))
    (hstart : ∀ b ∈ (e ++ [c]).head?, isOperatorChar b = true → b = '-')
    (hlength : (e ++ [c]).length ≤ effectiveLimit limit) : press limit e [c] = e ++ [c] := by
  have hc := isCharacterKey_of_mem_keys (h.keys c (by simp))
  have hnot : ∀ {test : Char → Bool}, (∀ b, [b, c] <:+: e ++ [c] → test b = false) →
      endsWith test e = false := by
    intro test htest
    rw [Bool.eq_false_iff]
    intro hend
    obtain ⟨b, hb, hpair⟩ := infix_pair_of_endsWith (c := c) hend
    rw [htest b hpair] at hb
    cases hb
  refine press_eq_concat ?_ hc (appended_eq_self hc ?_ ?_ ?_) ?_ ?_
  · rw [List.length_append, List.length_singleton] at hlength
    omega
  · rintro rfl
    exact h.point
  · rintro rfl
    exact hnot fun b hb => by simpa using h.before_opening b hb
  · intro hdigit
    refine hnot fun b hb => beq_eq_false_iff_ne.2 ?_
    rintro rfl
    have hafter := h.after_closing c hb
    rw [isNumberChar, hdigit] at hafter
    cases hafter
  · intro hop
    refine hnot fun b hb => Bool.eq_false_iff.2 fun hb_op => ?_
    rw [hoperators b c hb hb_op] at hop
    cases hop
  · rintro rfl hop
    exact hstart c rfl hop

end

/-! ## Typing -/

/-- The keys of a text: each character is one. -/
def characterKeys (text : List Char) : List (List Char) := text.map fun c => [c]

theorem pressAll_characters {limit : Option Int} {text : List Char} (h : Legible text)
    (hoperators : OperatorsApart text)
    (hstart : ∀ c ∈ text.head?, isOperatorChar c = true → c = '-')
    (hlength : text.length ≤ effectiveLimit limit) :
    pressAll limit [] (characterKeys text) = text := by
  induction text using List.reverseRecOn with
  | nil => rfl
  | append_singleton e c ih =>
    have hprefix : e <+: e ++ [c] := List.prefix_append e [c]
    have hsame : pressAll limit [] (characterKeys e) = e := by
      refine ih (h.of_isPrefix hprefix) (fun a b hab => hoperators a b (hab.trans hprefix.isInfix))
        (fun b hb => hstart b (List.mem_head?_append_of_mem_head? hb)) ?_
      rw [List.length_append, List.length_singleton] at hlength
      omega
    rw [characterKeys, List.map_append, pressAll_append]
    rw [characterKeys] at hsame
    rw [hsame]
    exact h.press_concat hoperators hstart hlength

theorem Legible.tail {c : Char} {cs : List Char} (h : Legible (c :: cs))
    (hc : isDigit c = false) : Legible cs := by
  have hsuffix : cs <:+: c :: cs := (List.suffix_cons c cs).isInfix
  refine ⟨fun b hb => h.keys b (List.mem_cons_of_mem c hb),
    fun run hrun => h.one_point run (hrun.trans hsuffix), fun front hfront => ?_,
    fun b hb => h.after_closing b (hb.trans hsuffix),
    fun b hb => h.before_opening b (hb.trans hsuffix)⟩
  obtain ⟨d, hd, hdigit⟩ := h.digit_before_point (c :: front)
    (List.cons_prefix_cons.2 ⟨rfl, hfront⟩)
  cases front with
  | nil =>
    rw [List.getLast?_singleton, Option.mem_some_iff] at hd
    rw [← hd, hc] at hdigit
    cases hdigit
  | cons b front => exact ⟨d, by rwa [List.getLast?_cons_cons] at hd, hdigit⟩

/-- An operator that no expression begins with is left out, and the rest comes as it is. -/
theorem pressAll_characters_of_idle {limit : Option Int} {c : Char} {cs : List Char}
    (h : Legible (c :: cs)) (hoperators : OperatorsApart (c :: cs))
    (hlength : (c :: cs).length ≤ effectiveLimit limit) (hc : isOperatorChar c = true)
    (hne : c ≠ '-') : pressAll limit [] (characterKeys (c :: cs)) = cs := by
  have hfirst : press limit [] [c] = [] := by
    rw [press_character (by simp [isCharacterKey, hc])]
    simp [appendValue, isIdleOperator, hc, hne]
  have hdigit : isDigit c = false := by
    rw [Bool.eq_false_iff]
    intro hd
    rw [not_isOperatorChar_of_isDigit hd] at hc
    cases hc
  show pressAll limit (press limit [] [c]) (characterKeys cs) = cs
  rw [hfirst]
  refine pressAll_characters (h.tail hdigit)
    (fun a b hab => hoperators a b (hab.trans (List.suffix_cons c cs).isInfix)) ?_ ?_
  · intro d hd hop
    obtain ⟨ds, rfl⟩ := List.head?_eq_some_iff.1 hd
    rw [hoperators c d ⟨[], ds, rfl⟩ hc] at hop
    cases hop
  · rw [List.length_cons] at hlength
    omega

/-- **What you type is what you get** if and only if it is legible and fits, no operator in it
directly follows another, and none but a minus begins it. -/
theorem pressAll_characters_iff {limit : Option Int} (hlimit : 0 < effectiveLimit limit)
    (text : List Char) :
    pressAll limit [] (characterKeys text) = text ↔
      Legible text ∧ OperatorsApart text ∧
        (∀ c ∈ text.head?, isOperatorChar c = true → c = '-') ∧
        text.length ≤ effectiveLimit limit := by
  constructor
  · intro hsame
    have hlegible : Legible (pressAll limit [] (characterKeys text)) :=
      legible_of_composed (composed_pressAll limit _ .nil) (orderly_pressAll limit _ .nil)
    have hoperators : OperatorsApart (pressAll limit [] (characterKeys text)) := by
      refine operatorsApart_pressAll limit (operatorsApart_iff.2 .nil) fun key hkey => ?_
      obtain ⟨c, -, rfl⟩ := List.mem_map.1 hkey
      exact fun heq => absurd (congrArg List.length heq) (by rw [List.length_singleton]; decide)
    have hlength : (pressAll limit [] (characterKeys text)).length ≤ (effectiveLimit limit).toNat :=
      length_pressAll_le_limit (by omega) (by omega) (characterKeys text) (Nat.zero_le _)
    rw [hsame] at hlegible hoperators hlength
    refine ⟨hlegible, hoperators, fun c hc hop => ?_, by omega⟩
    by_contra hne
    obtain ⟨cs, rfl⟩ := List.head?_eq_some_iff.1 hc
    rw [pressAll_characters_of_idle hlegible hoperators (by omega) hop hne] at hsame
    exact absurd (congrArg List.length hsame) (by simp)
  · rintro ⟨hlegible, hoperators, hstart, hlength⟩
    exact pressAll_characters hlegible hoperators hstart hlength

/-- Signs at the start and in a group, and a point at the end, in a text that just fits. -/
theorem pressAll_characters_iff_signs :
    let text := "-1.5*(-2)/3.".toList
    0 < effectiveLimit (some 12) ∧ Legible text ∧ OperatorsApart text ∧
      pressAll (some 12) [] (characterKeys text) = text := by
  intro text
  have hlimit : 0 < effectiveLimit (some 12) := by decide
  have htyped : pressAll none [] (characterKeys text) = text := by decide +kernel
  obtain ⟨hlegible, hoperators, hstart, -⟩ := (pressAll_characters_iff (by decide) text).1 htyped
  exact ⟨hlimit, hlegible, hoperators,
    (pressAll_characters_iff hlimit text).2 ⟨hlegible, hoperators, hstart, by decide⟩⟩

end DeskCalculator.Keypad
