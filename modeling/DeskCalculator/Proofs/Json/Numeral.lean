import DeskCalculator.Proofs.Decimal.Numeral
import DeskCalculator.Proofs.Json.Scanning
import DeskCalculator.Proofs.Operand.RoundTrip

/-!
# Numerals of JSON read back

* `Numeral.text` : a numeral as it is written; `Numeral.IsJson` : what JSON asks of its parts;
* `Numeral.IsJson.splitNumber_text` : such a numeral is split off whole, and with the parts that it
  has;
* `Literal.toNumeral`, `exists_numeral_exponential` : the layouts of a binary64 number are numerals,
  and `exists_numeral_magnitude` : they are read as the number;
* `Json.isWord_renderInt`, `Json.isWord_numeral` : so what is written of an integer is the number of
  the integer, and what is written of a binary64 number is its number or its word.
-/

namespace DeskCalculator

/-! ## Texts of numerals -/

namespace Numeral

/-- A power of ten. -/
def powerText : Option Int → List Char
  | some power => exponentText 2 power
  | none => []

/-- The numeral as it is written. -/
def text (n : Numeral) : List Char :=
  signed n.negative (n.whole ++ (fractionText n.fraction ++ powerText n.power))

structure IsJson (n : Numeral) : Prop where
  whole_digits : ∀ c ∈ n.whole, isDigit c = true
  whole_ne_nil : n.whole ≠ []
  whole_head : n.whole = ['0'] ∨ n.whole.head? ≠ some '0'
  fraction_digits : ∀ ds ∈ n.fraction, ds ≠ [] ∧ ∀ c ∈ ds, isDigit c = true

theorem splitPower_powerText (power : Option Int) : splitPower (powerText power) = (power, []) := by
  cases power with
  | none => rfl
  | some p => exact splitPower_exponentText 2 p

theorem isDigit_head?_powerText (power : Option Int) :
    ∀ c ∈ (powerText power).head?, isDigit c = false := by
  cases power with
  | none => exact nofun
  | some p =>
    intro c hc
    obtain rfl := Option.some.inj hc
    rfl

/-- Splits a point and at least one digit off, if they are there. -/
def splitFraction (cs : List Char) : Option (List Char) × List Char :=
  match cs with
  | '.' :: more =>
    let (digits, after) := more.span isDigit
    if digits.isEmpty then (none, cs) else (some digits, after)
  | _ => (none, cs)

theorem splitFraction_fractionText {fraction : Option (List Char)}
    (h : ∀ ds ∈ fraction, ds ≠ [] ∧ ∀ c ∈ ds, isDigit c = true) (power : Option Int) :
    splitFraction (fractionText fraction ++ powerText power) = (fraction, powerText power) := by
  cases fraction with
  | none => cases power <;> rfl
  | some ds =>
    obtain ⟨hne, hdigits⟩ := h ds rfl
    have hspan := span_digits hdigits (isDigit_head?_powerText power)
    show (if ((ds ++ powerText power).span isDigit).1.isEmpty
      then (none, '.' :: (ds ++ powerText power))
      else (some ((ds ++ powerText power).span isDigit).1,
        ((ds ++ powerText power).span isDigit).2)) = _
    rw [hspan, List.isEmpty_eq_false_iff.2 hne, if_neg Bool.false_ne_true]

/-- What follows the digits before the point. -/
theorem splitNumber_of_splitSign {cs unsigned whole tail : List Char} {negative : Bool}
    (hsign : splitSign false cs = (negative, unsigned)) (hne : whole ≠ [])
    (hwhole : unsigned = whole ++ tail) (hspan : unsigned.span isDigit = (whole, tail))
    (hhead : whole = ['0'] ∨ whole.head? ≠ some '0') :
    Json.splitNumber cs = some (⟨negative, whole, (splitFraction tail).1,
      (splitPower (splitFraction tail).2).1⟩, (splitPower (splitFraction tail).2).2) := by
  unfold Json.splitNumber
  rw [hsign]
  dsimp only
  split
  · rename_i rest
    rcases hhead with rfl | hhead
    · obtain rfl := List.tail_eq_of_cons_eq hwhole
      rfl
    · obtain ⟨c, ds, rfl⟩ := List.exists_cons_of_ne_nil hne
      obtain rfl := (List.cons.inj hwhole).1
      exact absurd rfl hhead
  · rw [hspan]
    dsimp only
    rw [List.isEmpty_eq_false_iff.2 hne, if_neg Bool.false_ne_true]
    rfl

variable {n : Numeral}

theorem IsJson.splitNumber_text (h : n.IsJson) : Json.splitNumber n.text = some (n, []) := by
  obtain ⟨negative, whole, fraction, power⟩ := n
  obtain ⟨hwhole, hne, hhead, hfraction⟩ := h
  dsimp only at hwhole hne hhead hfraction
  have hsplit := splitFraction_fractionText hfraction power
  have htail : ∀ c ∈ (fractionText fraction ++ powerText power).head?, isDigit c = false := by
    cases fraction with
    | none => exact isDigit_head?_powerText power
    | some ds =>
      intro c hc
      obtain rfl := Option.some.inj hc
      rfl
  have hsign : splitSign false (text ⟨negative, whole, fraction, power⟩) =
      (negative, whole ++ (fractionText fraction ++ powerText power)) := by
    refine splitSign_signed ⟨whole.head hne, ?_, hwhole _ (List.head_mem hne)⟩ false negative
    rw [List.head?_append, List.head?_eq_some_head hne]
    rfl
  rw [splitNumber_of_splitSign hsign hne rfl (span_digits hwhole htail) hhead, hsplit]
  dsimp only
  rw [splitPower_powerText]

end Numeral

/-! ## Tokens of numerals -/

namespace Json

theorem namedValue?_of_splitNumber {cs : List Char} {split : Numeral × List Char}
    (h : splitNumber cs = some split) : namedValue? (String.ofList cs) = none := by
  have hname : ∀ name : String, splitNumber name.toList = none → String.ofList cs ≠ name := by
    rintro name hnone rfl
    rw [String.toList_ofList, h] at hnone
    cases hnone
  unfold namedValue?
  rw [if_neg (hname "null" (by decide)), if_neg (hname "true" (by decide)),
    if_neg (hname "false" (by decide)), if_neg (hname "NaN" (by decide)),
    if_neg (hname "Infinity" (by decide)), if_neg (hname "-Infinity" (by decide))]

theorem bareTokens_text {n : Numeral} (h : n.IsJson) : bareTokens n.text = [numberToken n] := by
  unfold bareTokens
  rw [namedValue?_of_splitNumber h.splitNumber_text, h.splitNumber_text]

theorem numberToken_whole (negative : Bool) (whole : List Char) :
    numberToken ⟨negative, whole, none, none⟩ =
      if maxIntegerDigits < whole.length then .oversized
      else .scalar (.int (if negative then -(Nat.ofDigitChars 10 whole 0 : Int)
        else Nat.ofDigitChars 10 whole 0)) := rfl

theorem isBare_of_isDigit {c : Char} (hc : isDigit c = true) : isBare c = true :=
  of_isDigit (by decide) hc

theorem isBare_of_mem_powerText (power : Option Int) :
    ∀ c ∈ Numeral.powerText power, isBare c = true := by
  cases power with
  | none => exact List.forall_mem_nil _
  | some p =>
    obtain ⟨ds, htext, -, hdigits, -⟩ := exists_digits_exponentText 2 p
    show ∀ c ∈ exponentText 2 p, isBare c = true
    rw [htext]
    refine List.forall_mem_cons.2 ⟨rfl, List.forall_mem_cons.2 ⟨?_, ?_⟩⟩
    · split <;> rfl
    · exact fun c hc => isBare_of_isDigit (hdigits c hc)

theorem isBare_of_mem_text {n : Numeral} (h : n.IsJson) : ∀ c ∈ n.text, isBare c = true := by
  have hfraction : ∀ c ∈ Numeral.fractionText n.fraction, isBare c = true := by
    cases hsome : n.fraction with
    | none => exact List.forall_mem_nil _
    | some ds =>
      obtain ⟨-, hdigits⟩ := h.fraction_digits ds hsome
      exact List.forall_mem_cons.2 ⟨rfl, fun c hc => isBare_of_isDigit (hdigits c hc)⟩
  have hwhole := fun c hc => isBare_of_isDigit (h.whole_digits c hc)
  have hunsigned := List.forall_mem_append.2
    ⟨hwhole, List.forall_mem_append.2 ⟨hfraction, isBare_of_mem_powerText n.power⟩⟩
  unfold Numeral.text signed
  split
  · exact List.forall_mem_cons.2 ⟨rfl, hunsigned⟩
  · exact hunsigned

theorem text_ne_nil {n : Numeral} (h : n.IsJson) : n.text ≠ [] := by
  unfold Numeral.text signed
  split
  · exact List.cons_ne_nil _ _
  · simp [h.whole_ne_nil]

theorem isWord_text {n : Numeral} (h : n.IsJson) {v : Json} (hv : numberToken n = .scalar v) :
    IsWord n.text v :=
  ⟨text_ne_nil h, isBare_of_mem_text h, by rw [bareTokens_text h, hv]⟩

theorem exists_numeral_renderInt (n : Int) : ∃ m : Numeral, m.IsJson ∧ m.text = renderInt n ∧
    ((decimalDigits n.natAbs).length ≤ maxIntegerDigits → numberToken m = .scalar (.int n)) := by
  refine ⟨⟨decide (n < 0), decimalDigits n.natAbs, none, none⟩, ?_, ?_, ?_⟩
  · refine ⟨fun c hc => isDigit_of_mem_decimalDigits hc, Nat.toDigits_ne_nil, ?_, nofun⟩
    by_cases hzero : n.natAbs = 0
    · left
      show decimalDigits n.natAbs = ['0']
      rw [hzero]
      rfl
    · exact .inr (head?_decimalDigits_ne hzero)
  · show signed _ (decimalDigits n.natAbs ++ []) = _
    rw [List.append_nil]
    rfl
  · intro hlength
    have hvalue : Nat.ofDigitChars 10 (decimalDigits n.natAbs) 0 = n.natAbs :=
      Nat.ofDigitChars_ten_toDigits
    rw [numberToken_whole, if_neg (Nat.not_lt.2 hlength), hvalue]
    simp only [decide_eq_true_eq]
    congr 2
    split <;> omega

theorem numberToken_of_ne {n : Numeral} (h : n.fraction ≠ none ∨ n.power ≠ none) :
    numberToken n = .scalar (.real n.toBinary64) := by
  have hreal : (n.fraction.isNone && n.power.isNone) = false := by
    have hsome : ∀ {α : Type} {o : Option α}, o ≠ none → o.isNone = false :=
      fun ho => Option.isNone_eq_false_iff.2 (Option.isSome_iff_ne_none.2 ho)
    rcases h with h | h
    · rw [hsome h, Bool.false_and]
    · rw [hsome h, Bool.and_false]
  unfold numberToken
  rw [hreal, if_neg Bool.false_ne_true]

end Json

/-! ## Numerals of finite numbers -/

namespace Literal

variable {l : Literal}

/-- The literal with at least one digit after the point. -/
def toNumeral (l : Literal) (negative : Bool) : Numeral :=
  ⟨negative, l.lead, some (if l.hasPoint then l.last else ['0']), none⟩

theorem isDigit_of_mem_lead {c : Char} (hc : c ∈ l.lead) : isDigit c = true := by
  unfold lead at hc
  split at hc
  · exact l.whole_digits c hc
  · exact List.forall_mem_append.2 ⟨l.whole_digits, l.last_digits⟩ c hc

theorem isJson_toNumeral (hwhole : l.hasPoint = true → l.whole ≠ [])
    (hlead : l.lead = ['0'] ∨ l.lead.head? ≠ some '0') (negative : Bool) :
    (l.toNumeral negative).IsJson := by
  refine ⟨fun c => isDigit_of_mem_lead, ?_, hlead, ?_⟩
  · show l.lead ≠ []
    unfold lead
    split
    · rename_i hpoint
      exact hwhole hpoint
    · simp [l.last_ne_nil]
  · intro ds hds
    obtain rfl := Option.some.inj hds
    split
    · exact ⟨l.last_ne_nil, l.last_digits⟩
    · exact ⟨List.cons_ne_nil _ _, List.forall_mem_singleton.2 rfl⟩

theorem text_toNumeral (l : Literal) (negative : Bool) : (l.toNumeral negative).text =
    signed negative (if l.text.contains '.' then l.text else l.text ++ ['.', '0']) := by
  have hdigits : ∀ cs : List Char, (∀ c ∈ cs, isDigit c = true) → '.' ∉ cs :=
    fun cs hcs hmem => Bool.false_ne_true (hcs '.' hmem)
  have hpoint : l.text.contains '.' = l.hasPoint := by
    unfold text
    have hwhole := hdigits _ l.whole_digits
    have hlast := hdigits _ l.last_digits
    cases l.hasPoint <;> simp [hwhole, hlast]
  rw [hpoint]
  unfold Numeral.text toNumeral lead text Numeral.fractionText Numeral.powerText
  cases l.hasPoint <;> simp

theorem toBinary64_toNumeral (hexp : -1074 ≤ l.decimal.exponent) (negative : Bool) :
    (l.toNumeral negative).toBinary64 = .ofRank negative (rankOfPlaces l.decimal.places) := by
  have hplaces : -1074 ≤ (l.toNumeral negative).decimal.exponent ∧
      (l.toNumeral negative).decimal.places = l.decimal.places := by
    unfold Numeral.decimal toNumeral lead decimal Decimal.ofParts Decimal.places at *
    cases hpoint : l.hasPoint with
    | true =>
      rw [hpoint] at hexp
      simp only [if_true, Option.getD_some, Option.getD_none, Int.zero_sub] at hexp ⊢
      exact ⟨hexp, trivial⟩
    | false =>
      simp only [Bool.false_eq_true, if_false, Option.getD_some, Option.getD_none]
      refine ⟨by decide, ?_⟩
      rw [Nat.ofDigitChars_append, Nat.ofDigitChars_cons, Nat.ofDigitChars_nil]
      have hshift : ∀ n k : Nat, 10 * n * 10 ^ k = n * 10 ^ (k + 1) := by
        intro n k
        rw [Nat.pow_succ, Nat.mul_comm 10, Nat.mul_assoc, Nat.mul_comm 10]
      rw [show ((0 : Int) + 1074).toNat = (0 - (['0'].length : Int) + 1074).toNat + 1 from rfl]
      exact hshift _ _
  rw [Numeral.toBinary64, Decimal.toBinary64_eq hplaces.1, hplaces.2]
  rfl

end Literal

/-- Digits in exponential layout are a numeral, of the digits' value. -/
theorem exists_numeral_exponential {digits : List Char} (hdigits : ∀ c ∈ digits, isDigit c = true)
    (hne : digits ≠ []) (hhead : digits.head? ≠ some '0') (point : Int) (negative : Bool) :
    ∃ n : Numeral, n.IsJson ∧ n.text = signed negative (exponential 2 digits point) ∧
      n.power ≠ none ∧ n.negative = negative ∧
      n.decimal = ⟨Nat.ofDigitChars 10 digits 0, point - digits.length⟩ := by
  cases digits with
  | nil => exact absurd rfl hne
  | cons first rest =>
    obtain ⟨hfirst, hrest⟩ := List.forall_mem_cons.1 hdigits
    cases rest with
    | nil =>
      refine ⟨⟨negative, [first], none, some (point - 1)⟩, ?_, rfl, Option.some_ne_none _,
        rfl, ?_⟩
      · exact ⟨hdigits, hne, .inr hhead, fun ds hds => absurd hds (Option.not_mem_none ds)⟩
      · simp [Numeral.decimal, Decimal.ofParts]
    | cons second rest =>
      refine ⟨⟨negative, [first], some (second :: rest), some (point - 1)⟩, ?_, rfl,
        Option.some_ne_none _, rfl, ?_⟩
      · refine ⟨List.forall_mem_singleton.2 hfirst, List.cons_ne_nil _ _, .inr hhead, ?_⟩
        intro ds hds
        obtain rfl := Option.some.inj hds
        exact ⟨List.cons_ne_nil _ _, hrest⟩
      · simp [Numeral.decimal, Decimal.ofParts]
        omega

/-- The numeral of a finite number is one of JSON, with a fraction or a power, and it is read as the
number. -/
theorem exists_numeral_magnitude (negative : Bool) (rank : Fin finiteRanks) :
    ∃ n : Numeral, n.IsJson ∧ n.text = signed negative (Binary64.magnitudeNumeral rank) ∧
      (n.fraction ≠ none ∨ n.power ≠ none) ∧ n.toBinary64 = .finite negative rank := by
  have hrank : Binary64.ofRank negative rank = .finite negative rank := dif_pos rank.isLt
  obtain ⟨hexp, hback⟩ := Decimal.readsBack_shortest rank
  have hplaces := readsBack_iff.1 hback
  by_cases hzero : rank.val = 0
  · have hdigit : ∀ c ∈ ['0'], isDigit c = true := List.forall_mem_singleton.2 rfl
    let zero : Literal := ⟨['0'], true, ['0'], hdigit, hdigit, List.cons_ne_nil _ _⟩
    refine ⟨zero.toNumeral negative, ?_, ?_, .inl nofun, ?_⟩
    · exact Literal.isJson_toNumeral (fun _ => List.cons_ne_nil _ _) (.inl rfl) negative
    · rw [zero.text_toNumeral, Binary64.magnitudeNumeral, if_pos hzero]
      rfl
    · have hexp : -1074 ≤ zero.decimal.exponent := show (-1074 : Int) ≤ -1 by decide
      have hnone : zero.decimal.places = 0 := by
        unfold Decimal.places
        rw [show zero.decimal.coefficient = 0 from rfl, Nat.zero_mul]
      rw [Literal.toBinary64_toNumeral hexp, hnone, rankOfPlaces_zero, ← hzero, hrank]
  · have hcoefficient := Decimal.shortest_coefficient_ne_zero hzero
    unfold Binary64.magnitudeNumeral
    rw [if_neg hzero]
    dsimp only
    generalize Decimal.shortest rank = d at *
    split
    · obtain ⟨l, htext, hwhole, hlead, hlexp, hlplaces⟩ :=
        Decimal.exists_literal_places hexp hcoefficient
      refine ⟨l.toNumeral negative, Literal.isJson_toNumeral hwhole hlead negative, ?_,
        .inl nofun, ?_⟩
      · rw [l.text_toNumeral, htext]
      · rw [Literal.toBinary64_toNumeral hlexp, hlplaces, hplaces, hrank]
    · obtain ⟨n, hn, htext, hpower, hnegative, hdecimal⟩ :=
        exists_numeral_exponential (fun c => d.isDigit_of_mem_digits)
          (Decimal.digits_ne_nil hcoefficient) (Decimal.head?_digits_ne hcoefficient) d.point negative
      have hlength := d.length_digits_le
      have hpoint : d.point = (decimalDigits d.coefficient).length + d.exponent := rfl
      refine ⟨n, hn, htext, .inr hpower, ?_⟩
      rw [Numeral.toBinary64, hdecimal, hnegative, Decimal.toBinary64_eq (by dsimp only; omega),
        Decimal.places_digits hexp, hplaces, hrank]

namespace Json

/-- The text of an integer is its number, if it is not too long to be read. -/
theorem isWord_renderInt {n : Int} (h : (decimalDigits n.natAbs).length ≤ maxIntegerDigits) :
    IsWord (renderInt n) (.int n) := by
  obtain ⟨m, hm, htext, htoken⟩ := exists_numeral_renderInt n
  rw [← htext]
  exact isWord_text hm (htoken h)

/-- The text of a binary64 number is its number, or its word if it is not finite. -/
theorem isWord_numeral (x : Binary64) : IsWord (x.numeral "NaN" "Infinity") (.real x) := by
  cases x with
  | nan => exact ⟨nofun, List.all_eq_true.1 (by decide), rfl⟩
  | infinite negative =>
    cases negative with
    | false => exact ⟨nofun, List.all_eq_true.1 (by decide), rfl⟩
    | true => exact ⟨nofun, List.all_eq_true.1 (by decide), rfl⟩
  | finite negative rank =>
    obtain ⟨n, hn, htext, hreal, hvalue⟩ := exists_numeral_magnitude negative rank
    show IsWord (signed negative (Binary64.magnitudeNumeral rank)) _
    rw [← htext]
    exact isWord_text hn (by rw [numberToken_of_ne hreal, hvalue])

end Json

end DeskCalculator
