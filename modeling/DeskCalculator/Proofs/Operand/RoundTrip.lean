import DeskCalculator.Operand
import DeskCalculator.Proofs.Decimal.Shortest
import DeskCalculator.Proofs.Expression.Written

/-!
# Operands read back

* `exists_literal_positional` : digits in positional layout are a literal, of the digits' value;
* `Decimal.exists_literal_places`, `Decimal.exists_literal` : so a decimal in positional layout is
  read as the decimal is;
* `IsPlainNumeral` : the texts that operands have;
* `evaluate_operand` : the operand of a finite number evaluates to the number.
-/

namespace DeskCalculator

/-! ## Positional layout -/

/-- The digits before the point. -/
def Literal.lead (l : Literal) : List Char := if l.hasPoint then l.whole else l.whole ++ l.last

/-- The literal that digits in positional layout are: zeros fill up to the units on either side. -/
theorem exists_literal_positional {digits : List Char} (hdigits : ∀ c ∈ digits, isDigit c = true)
    (hne : digits ≠ []) (point : Int) :
    ∃ l : Literal, l.text = positional digits point ∧ (l.hasPoint = true → l.whole ≠ []) ∧
      (l.lead = ['0'] ∨ l.lead.head? = digits.head?) ∧
      l.decimal.coefficient =
        Nat.ofDigitChars 10 digits 0 * 10 ^ (point - digits.length).toNat ∧
      l.decimal.exponent = -((digits.length - point).toNat : Int) := by
  have hpos : 0 < digits.length := List.length_pos_iff.2 hne
  have hzeros : ∀ n, ∀ c ∈ List.replicate n '0', isDigit c = true := by
    intro n c hc
    rw [List.eq_of_mem_replicate hc]
    rfl
  unfold positional
  split
  · rename_i hsmall
    have hlast := List.forall_mem_append.2 ⟨hzeros (-point).toNat, hdigits⟩
    have hnil : List.replicate (-point).toNat '0' ++ digits ≠ [] := by simp [hne]
    refine ⟨⟨['0'], true, _, hzeros 1, hlast, hnil⟩, rfl, fun _ => List.cons_ne_nil _ _, .inl rfl,
      ?_, ?_⟩
    · show Nat.ofDigitChars 10 (List.replicate 1 '0' ++ (List.replicate _ '0' ++ digits)) 0 = _
      rw [Nat.ofDigitChars_append, Nat.ofDigitChars_append, Nat.ofDigitChars_replicate_zero,
        Nat.ofDigitChars_replicate_zero, Nat.mul_zero,
        show (point - digits.length).toNat = 0 by omega, Nat.pow_zero, Nat.mul_one]
    · show -((List.replicate _ '0' ++ digits).length : Int) = _
      rw [List.length_append, List.length_replicate]
      omega
  · rename_i hlarge
    dsimp only
    split
    · rename_i hfill
      have hlast := List.forall_mem_append.2 ⟨hdigits, hzeros (point.toNat - digits.length)⟩
      have hnil : digits ++ List.replicate (point.toNat - digits.length) '0' ≠ [] := by simp [hne]
      refine ⟨⟨[], false, _, List.forall_mem_nil _, hlast, hnil⟩, rfl, nofun, .inr ?_, ?_, ?_⟩
      · show (digits ++ List.replicate _ '0').head? = _
        rw [List.head?_append, List.head?_eq_some_head hne, Option.some_or]
      · show Nat.ofDigitChars 10 (digits ++ List.replicate _ '0') 0 = _
        rw [Nat.ofDigitChars_append, Nat.ofDigitChars_replicate_zero, Nat.mul_comm,
          show point.toNat - digits.length = (point - digits.length).toNat by omega]
      · show (0 : Int) = _
        omega
    · rename_i hfraction
      have hwhole := fun c hc => hdigits c (List.mem_of_mem_take (i := point.toNat) hc)
      have hlast := fun c hc => hdigits c (List.mem_of_mem_drop (i := point.toNat) hc)
      have hnil : digits.drop point.toNat ≠ [] := by
        rw [ne_eq, List.drop_eq_nil_iff]
        omega
      refine ⟨⟨digits.take point.toNat, true, _, hwhole, hlast, hnil⟩, rfl, fun _ => ?_, .inr ?_,
        ?_, ?_⟩
      · show digits.take point.toNat ≠ []
        rw [ne_eq, List.take_eq_nil_iff, not_or]
        exact ⟨by omega, hne⟩
      · show (digits.take point.toNat).head? = _
        rw [List.head?_take, if_neg (by omega)]
      · show Nat.ofDigitChars 10 (digits.take _ ++ digits.drop _) 0 = _
        rw [List.take_append_drop, show (point - digits.length).toNat = 0 by omega, Nat.pow_zero,
          Nat.mul_one]
      · show -((digits.drop _).length : Int) = _
        rw [List.length_drop]
        omega

namespace Decimal

variable {d : Decimal}

/-- The digits before the 1074th decimal place, without the zeros at the end, count as much. -/
theorem places_digits (hexp : -1074 ≤ d.exponent) :
    (⟨Nat.ofDigitChars 10 d.digits 0, d.point - d.digits.length⟩ : Decimal).places = d.places := by
  have hlength := d.length_digits_le
  have hpoint : d.point = (decimalDigits d.coefficient).length + d.exponent := rfl
  unfold places
  conv => rhs; rw [← d.ofDigitChars_digits]
  dsimp only
  rw [Nat.mul_assoc, ← Nat.pow_add]
  congr 2
  omega

/-- A decimal in positional layout is a literal of the same exact value. -/
theorem exists_literal_places (hexp : -1074 ≤ d.exponent) (hd : d.coefficient ≠ 0) :
    ∃ l : Literal, l.text = positional d.digits d.point ∧ (l.hasPoint = true → l.whole ≠ []) ∧
      (l.lead = ['0'] ∨ l.lead.head? ≠ some '0') ∧
      -1074 ≤ l.decimal.exponent ∧ l.decimal.places = d.places := by
  obtain ⟨l, htext, hwhole, hlead, hcoefficient, hexponent⟩ :=
    exists_literal_positional (fun c => d.isDigit_of_mem_digits) (digits_ne_nil hd) d.point
  have hlength := d.length_digits_le
  have hpoint : d.point = (decimalDigits d.coefficient).length + d.exponent := rfl
  have hlexp : -1074 ≤ l.decimal.exponent := by
    rw [hexponent]
    omega
  refine ⟨l, htext, hwhole, hlead.imp_right fun hhead => ?_, hlexp, ?_⟩
  · rw [hhead]
    exact head?_digits_ne hd
  · rw [← places_digits hexp]
    unfold places
    dsimp only
    rw [hcoefficient, hexponent, Nat.mul_assoc, ← Nat.pow_add]
    congr 2
    omega

/-- A decimal in positional layout is a literal that is read as the decimal is. -/
theorem exists_literal (hexp : -1074 ≤ d.exponent) (hd : d.coefficient ≠ 0) :
    ∃ l : Literal, l.text = positional d.digits d.point ∧ (l.hasPoint = true → l.whole ≠ []) ∧
      l.value = d.toBinary64 false := by
  obtain ⟨l, htext, hwhole, -, hlexp, hplaces⟩ := exists_literal_places hexp hd
  refine ⟨l, htext, hwhole, ?_⟩
  rw [Literal.value, toBinary64_eq hlexp, toBinary64_eq hexp, hplaces]

end Decimal

/-! ## Operands -/

/-- Digits, and a point with digits after it or none, behind a minus sign or none. -/
def IsPlainNumeral (text : List Char) : Prop :=
  ∃ (negative : Bool) (l : Literal), text = signed negative l.text ∧
    (l.hasPoint = true → l.whole ≠ [])

theorem evaluate_literal (l : Literal) (h : l.value.isFinite = true) :
    evaluate l.text = .ok l.value := by
  let e : Grammar.Expr := .term (.factor (.number l.value))
  have hwritten : e.WrittenAs (withoutBlanks l.text) := ⟨l, rfl, h, l.withoutBlanks_text⟩
  exact e.evaluate_text hwritten

theorem evaluate_negated_literal (l : Literal) (h : l.value.isFinite = true) :
    evaluate ('-' :: l.text) = .ok l.value.neg := by
  let e : Grammar.Expr := .term (.factor (.signed .minus (.number l.value)))
  have hblanks : withoutBlanks ('-' :: l.text) = '-' :: withoutBlanks l.text := rfl
  have hwritten : e.WrittenAs (withoutBlanks ('-' :: l.text)) :=
    ⟨l.text, ⟨l, rfl, h, rfl⟩, by rw [hblanks, l.withoutBlanks_text]; rfl⟩
  rw [e.evaluate_text hwritten]
  exact if_pos ((Binary64.isFinite_neg l.value).trans h)

theorem evaluate_signed_literal (l : Literal) (h : l.value.isFinite = true) (negative : Bool) :
    evaluate (signed negative l.text) = .ok (if negative then l.value.neg else l.value) := by
  cases negative with
  | false => exact evaluate_literal l h
  | true => exact evaluate_negated_literal l h

/-- **The operand of a finite number evaluates to the number.** It is a plain numeral, and both
zeros are written as one that evaluates to the positive one. -/
theorem evaluate_operand {v : Binary64} (h : v.isFinite = true) :
    ∃ text, operand none v = .ok (some text) ∧ IsPlainNumeral text ∧
      evaluate text = .ok (if v.isZero then .zero false else v) := by
  cases v with
  | nan => cases h
  | infinite negative => cases h
  | finite negative rank =>
    refine ⟨operandText negative rank, rfl, ?_⟩
    by_cases hzero : rank.val = 0
    · have hisZero : (Binary64.finite negative rank).isZero = true := beq_iff_eq.2 hzero
      have hdigit : ['0'].all isDigit = true := by decide
      let l : Literal :=
        ⟨[], false, ['0'], List.forall_mem_nil _, List.all_eq_true.1 hdigit, List.cons_ne_nil _ _⟩
      rw [operandText, if_pos hzero, hisZero, if_pos rfl]
      exact ⟨⟨false, l, rfl, nofun⟩, by decide +kernel⟩
    · have hisZero : (Binary64.finite negative rank).isZero = false := beq_eq_false_iff_ne.2 hzero
      obtain ⟨l, htext, hwhole, hvalue⟩ := Decimal.exists_literal
        (Decimal.readsBack_shortest rank).1 (Decimal.shortest_coefficient_ne_zero hzero)
      rw [Decimal.toBinary64_shortest, Binary64.ofRank, dif_pos rank.isLt] at hvalue
      rw [operandText, if_neg hzero, hisZero, if_neg Bool.false_ne_true]
      dsimp only
      rw [← htext]
      refine ⟨⟨negative, l, rfl, hwhole⟩, ?_⟩
      rw [evaluate_signed_literal l (by rw [hvalue]; rfl), hvalue]
      cases negative <;> rfl

/-- Of all decimals that read back as it, the number nearest to minus a tenth is written as that. -/
theorem evaluate_operand_tenth :
    let v := Binary64.finite true ⟨0x3fb999999999999a, by decide⟩
    operand none v = .ok (some "-0.1".toList) ∧ evaluate "-0.1".toList = .ok v := by
  intro v
  have hoperand : operand none v = .ok (some "-0.1".toList) := by decide +kernel
  obtain ⟨text, htext, -, hvalue⟩ := evaluate_operand (v := v) rfl
  obtain rfl := Option.some.inj (Except.ok.inj (hoperand.symm.trans htext))
  exact ⟨hoperand, hvalue⟩

end DeskCalculator
