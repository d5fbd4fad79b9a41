import DeskCalculator.Proofs.Binary64.Finite
import DeskCalculator.Proofs.Operand.PowerOfTen
import DeskCalculator.Service.Handle

/-!
# Exact operands

An operand within a limit is told to be exact if it is the whole text.

* `GivenExactly` : the operand within a limit evaluates to the number; `givenExactly_of_fits` : it does
  so if the whole text fits;
* `operand_eq_iff` : so it is the whole text if and only if it evaluates to the number, but for the
  numbers that fall short of a power of ten, which it evaluates to all the same;
* `exists_exact_not_whole` : one of these, and the answer about it.
-/

namespace DeskCalculator

/-- Numerically equal: the same number, or zeros of either sign. -/
def Binary64.Equals (x y : Binary64) : Prop :=
  x ≠ .nan ∧ (x = y ∨ x.isZero = true ∧ y.isZero = true)

/-- The operand within the limit is a text that evaluates to the number. -/
def GivenExactly (limit : Int) (v : Binary64) : Prop :=
  ∃ text w, operand (some limit) v = .ok (some text) ∧ evaluate text = .ok w ∧ w.Equals v

theorem Binary64.finite_equals_self (negative : Bool) (rank : Fin finiteRanks) :
    (finite negative rank).Equals (finite negative rank) := by
  refine ⟨fun hnan => ?_, .inl rfl⟩
  cases hnan

theorem Binary64.eq_of_equals {w : Binary64} {negative : Bool} {rank : Fin finiteRanks}
    (hrank : rank.val ≠ 0) (h : w.Equals (finite negative rank)) : w = finite negative rank := by
  rcases h with ⟨-, heq | ⟨-, hzero⟩⟩
  · exact heq
  · exact absurd (beq_iff_eq.1 hzero) hrank

section Flag

variable {negative : Bool} {rank : Fin finiteRanks} {limit : Int}

/-- A whole text that fits is given, and evaluates to the number. -/
theorem givenExactly_of_fits (h : rank.val = 0 ∨ ((operandText negative rank).length : Int) ≤ limit) :
    GivenExactly limit (.finite negative rank) := by
  have hwhole : operand (some limit) (.finite negative rank) =
      .ok (some (operandText negative rank)) := operand_of_fits h
  by_cases hrank : rank.val = 0
  · have hzero : evaluate ['0'] = .ok (.zero false) := by decide +kernel
    refine ⟨_, .zero false, hwhole, ?_, fun hnan => ?_, .inr ⟨rfl, beq_iff_eq.2 hrank⟩⟩
    · rw [operandText, if_pos hrank]
      exact hzero
    · cases hnan
  · exact ⟨_, _, hwhole, evaluate_operandText hrank negative, Binary64.finite_equals_self _ _⟩

theorem GivenExactly.fallsShort (hrank : rank.val ≠ 0)
    (hlong : limit < (operandText negative rank).length)
    (h : GivenExactly limit (.finite negative rank)) : FallsShort limit (.finite negative rank) := by
  obtain ⟨text, w, htext, hvalue, hw⟩ := h
  obtain rfl := Binary64.eq_of_equals hrank hw
  exact fallsShort_of_evaluate hrank hlong htext hvalue

theorem operand_ne_of_long (hrank : rank.val ≠ 0)
    (hlong : limit < (operandText negative rank).length) :
    operand (some limit) (.finite negative rank) ≠ operand none (.finite negative rank) := by
  rw [operand_of_long hrank hlong]
  intro hsame
  obtain ⟨_, -, -, -, hlength, -⟩ := of_firstFitting (Except.ok.inj hsame)
  omega

end Flag

/-- **An operand within a limit is the whole text if and only if it evaluates to the number**, unless
the number falls short of a power of ten. Then it evaluates to the number and is not the whole text.
The answer about a value calls the operand exact if it is the whole text. -/
theorem operand_eq_iff {v : Binary64} (h : v.isFinite = true) (limit : Int) :
    (operand (some limit) v = operand none v ↔ GivenExactly limit v ∧ ¬FallsShort limit v) ∧
      (FallsShort limit v → GivenExactly limit v) ∧
      ∀ expression, ∃ next exact,
        Service.evaluatedAnswer expression v = .evaluated expression v next exact ∧
        operand (some Service.maxExpressionLength) v = .ok next ∧
        (exact = true ↔ operand (some Service.maxExpressionLength) v = operand none v) := by
  obtain ⟨negative, rank, rfl⟩ := Binary64.exists_finite h
  refine ⟨?_, fun hshort => ?_, fun expression => ?_⟩
  · by_cases hfits : rank.val = 0 ∨ ((operandText negative rank).length : Int) ≤ limit
    · refine iff_of_true (operand_of_fits hfits) ⟨givenExactly_of_fits hfits, fun hshort => ?_⟩
      obtain ⟨zeros, hrank, -, hwhole, rfl⟩ := operandText_of_fallsShort hshort
      rw [hwhole, length_signed, List.length_cons, List.length_replicate] at hfits
      omega
    · obtain ⟨hrank, hlong⟩ := not_or.1 hfits
      refine iff_of_false (operand_ne_of_long hrank (Int.not_le.1 hlong)) ?_
      rintro ⟨hexact, hshort⟩
      exact hshort (hexact.fallsShort hrank (Int.not_le.1 hlong))
  · obtain ⟨text, htext, hvalue⟩ := evaluate_of_fallsShort hshort
    exact ⟨text, _, htext, hvalue, Binary64.finite_equals_self negative rank⟩
  · refine ⟨_, _, rfl, rfl, ?_⟩
    rw [beq_iff_eq]
    exact ⟨congrArg _, Except.ok.inj⟩

/-- Cut to ten characters, a third does not evaluate to itself. -/
theorem operand_eq_iff_third :
    let v := Binary64.finite false ⟨0x3fd5555555555555, by decide⟩
    operand (some 10) v = .ok (some "0.33333333".toList) ∧ ¬GivenExactly 10 v := by
  intro v
  have hwhole : operand none v = .ok (some "0.3333333333333333".toList) := by decide +kernel
  have hcut : operand (some 10) v = .ok (some "0.33333333".toList) := by decide +kernel
  have hne : operand (some 10) v ≠ operand none v := by
    rw [hcut, hwhole]
    decide
  refine ⟨hcut, fun hexact => hne ((operand_eq_iff rfl 10).1.2 ⟨hexact, ?_⟩)⟩
  rintro ⟨s, rank, zeros, -, -, htext, -⟩
  have heq := Option.some.inj (Except.ok.inj (hwhole.symm.trans htext))
  cases s <;> cases heq

/-- The number nearest to `-10 ^ 239` falls short of it. The power of ten has a character more than
an expression may have, and the seventeen digits that are given instead evaluate to the number; yet
the answer says that they do not. -/
theorem exists_exact_not_whole :
    ∃ v text, evaluate text = .ok v ∧ operand (some Service.maxExpressionLength) v = .ok (some text) ∧
      operand (some Service.maxExpressionLength) v ≠ operand none v ∧
      Service.evaluatedAnswer text v = .evaluated text v (some text) false := by
  let v := Binary64.finite true ⟨0x718eb6bafd91596b, by decide⟩
  let text := '-' :: (List.replicate 17 '9' ++ List.replicate 222 '0')
  have hwithin : operand (some Service.maxExpressionLength) v = .ok (some text) := by decide +kernel
  have hwhole : operand none v = .ok (some ("-1".toList ++ List.replicate 239 '0')) := by
    decide +kernel
  have hne : text ≠ "-1".toList ++ List.replicate 239 '0' := by decide +kernel
  refine ⟨v, text, by decide +kernel, hwithin, ?_, ?_⟩
  · rw [hwithin, hwhole]
    exact fun heq => hne (Option.some.inj (Except.ok.inj heq))
  · have hflag : (some text == some ("-1".toList ++ List.replicate 239 '0')) = false := by
      decide +kernel
    unfold Service.evaluatedAnswer
    rw [hwithin, hwhole]
    dsimp only
    rw [hflag]

end DeskCalculator
