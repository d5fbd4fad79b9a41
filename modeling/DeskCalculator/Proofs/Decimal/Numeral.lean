import DeskCalculator.Decimal.Layout
import DeskCalculator.Proofs.Decimal.Digits

/-!
# Parts of numerals

* `exists_digits_exponentText` : the power of an exponential layout;
* `Numeral.fractionText` : a point and the digits after it;
* `Numeral.splitSign_signed`, `Numeral.splitPower_exponentText` : a sign and a power are read as they
  are written.
-/

namespace DeskCalculator

/-- The power of an exponential layout is `e`, a sign, and digits of the power's magnitude. -/
theorem exists_digits_exponentText (width : Nat) (power : Int) : ∃ ds : List Char,
    exponentText width power = 'e' :: (if power < 0 then '-' else '+') :: ds ∧ ds ≠ [] ∧
      (∀ c ∈ ds, isDigit c = true) ∧ Nat.ofDigitChars 10 ds 0 = power.natAbs := by
  refine ⟨_, rfl, ?_, ?_, ?_⟩
  · rw [ne_eq, List.append_eq_nil_iff, not_and]
    exact fun _ => Nat.toDigits_ne_nil
  · refine List.forall_mem_append.2 ⟨?_, fun c hc => isDigit_of_mem_decimalDigits hc⟩
    intro c hc
    rw [List.eq_of_mem_replicate hc]
    rfl
  · rw [Nat.ofDigitChars_append, Nat.ofDigitChars_replicate_zero, Nat.mul_zero]
    exact Nat.ofDigitChars_ten_toDigits

namespace Numeral

/-- A point and the digits after it. -/
def fractionText : Option (List Char) → List Char
  | some ds => '.' :: ds
  | none => []

theorem splitSign_of_isDigit {c : Char} (hc : isDigit c = true) (allowPlus : Bool)
    (cs : List Char) : splitSign allowPlus (c :: cs) = (false, c :: cs) := by
  unfold splitSign
  split
  · rename_i heq
    obtain ⟨rfl, -⟩ := List.cons.inj heq
    cases hc
  · rename_i heq
    obtain ⟨rfl, -⟩ := List.cons.inj heq
    cases hc
  · rfl

theorem splitSign_signed {cs : List Char} (hcs : ∃ c ∈ cs.head?, isDigit c = true)
    (allowPlus negative : Bool) : splitSign allowPlus (signed negative cs) = (negative, cs) := by
  cases negative with
  | true => rfl
  | false =>
    obtain ⟨c, hhead, hc⟩ := hcs
    obtain ⟨rest, rfl⟩ := List.head?_eq_some_iff.1 hhead
    exact splitSign_of_isDigit hc allowPlus rest

/-- The power of an exponential layout is read as it is, also with zeros in front. -/
theorem splitPower_exponentText (width : Nat) (power : Int) :
    splitPower (exponentText width power) = (some power, []) := by
  obtain ⟨ds, htext, hne, hdigits, hvalue⟩ := exists_digits_exponentText width power
  have hsign : splitSign true ((if power < 0 then '-' else '+') :: ds) =
      (decide (power < 0), ds) := by
    by_cases hneg : power < 0
    · rw [if_pos hneg, decide_eq_true hneg]
      rfl
    · rw [if_neg hneg, decide_eq_false hneg]
      rfl
  have hspan : (ds ++ []).span isDigit = (ds, []) := span_digits hdigits nofun
  rw [List.append_nil] at hspan
  rw [htext]
  unfold splitPower
  dsimp only
  rw [if_pos (.inl rfl), hsign]
  dsimp only
  rw [hspan]
  dsimp only
  rw [List.isEmpty_eq_false_iff.2 hne, hvalue, if_neg Bool.false_ne_true]
  simp only [decide_eq_true_eq]
  congr 2
  split <;> omega

end Numeral

end DeskCalculator
