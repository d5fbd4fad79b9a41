import DeskCalculator.Proofs.Decimal.Minimal
import DeskCalculator.Proofs.Operand.RoundTrip

/-!
# Rounded operands

* `evaluate_positional` : what a decimal in positional layout evaluates to, if anything;
  `evaluate_operandText` : the whole text to the number;
* `evaluate_shortenedText`, `shortenedText_eq` : the number rounded to its first digits, as a
  magnitude counted in the 1074th decimal place.
-/

namespace DeskCalculator

/-! ## Values of texts -/

theorem evaluate_signed_literal_of_not_isFinite (l : Literal) (h : l.value.isFinite = false)
    (negative : Bool) : evaluate (signed negative l.text) = .error .numberTooLarge := by
  have hrun : (lexemes l.text).mapM Lexeme.token = .error .numberTooLarge := by
    rw [l.lexemes_text, List.mapM_cons, l.token_run_of_not_isFinite h]
    rfl
  have hscan : tokenize (signed negative l.text) = .error .numberTooLarge := by
    unfold tokenize signed
    cases negative with
    | false =>
      rw [if_neg Bool.false_ne_true, l.withoutBlanks_text]
      exact hrun
    | true =>
      have hblanks : withoutBlanks ('-' :: l.text) = '-' :: withoutBlanks l.text := rfl
      have hmark : lexemes ('-' :: l.text) = .mark '-' :: lexemes l.text :=
        lexemes_append_mark (by decide) [] l.text
      rw [if_pos rfl, hblanks, l.withoutBlanks_text, hmark, List.mapM_cons, hrun]
      rfl
  unfold evaluate
  rw [hscan]
  rfl

theorem Binary64.ofRank_neg {rank : Nat} :
    (ofRank false rank).neg = ofRank true rank := by
  unfold ofRank
  split <;> rfl

theorem Binary64.isFinite_ofRank {negative : Bool} {rank : Nat} :
    (ofRank negative rank).isFinite = true ↔ rank < finiteRanks := by
  unfold ofRank
  split <;> simp [isFinite, *]

theorem Binary64.rank_of_ofRank {s t : Bool} {r : Nat} {rank : Fin finiteRanks}
    (h : ofRank s r = .finite t rank) : r = rank := by
  unfold ofRank at h
  split at h
  · exact congrArg Fin.val (Binary64.finite.inj h).2
  · cases h

/-- A decimal in positional layout evaluates to the nearest number, if that is finite. -/
theorem evaluate_positional {d : Decimal} (hexp : -1074 ≤ d.exponent) (hd : d.coefficient ≠ 0)
    (negative : Bool) :
    evaluate (signed negative (positional d.digits d.point)) =
      if rankOfPlaces d.places < finiteRanks then .ok (.ofRank negative (rankOfPlaces d.places))
      else .error .numberTooLarge := by
  obtain ⟨l, htext, -, hvalue⟩ := Decimal.exists_literal hexp hd
  rw [Decimal.toBinary64_eq hexp] at hvalue
  rw [← htext]
  split
  · rename_i hfinite
    rw [evaluate_signed_literal l (by rw [hvalue, Binary64.isFinite_ofRank]; exact hfinite), hvalue]
    cases negative with
    | false => rw [if_neg Bool.false_ne_true]
    | true => rw [if_pos rfl, Binary64.ofRank_neg]
  · rename_i hinfinite
    exact evaluate_signed_literal_of_not_isFinite l (by
      rw [hvalue, Bool.eq_false_iff, ne_eq, Binary64.isFinite_ofRank]
      exact hinfinite) negative

/-! ## The whole text -/

theorem length_signed (negative : Bool) (text : List Char) :
    (signed negative text).length = text.length + (if negative then 1 else 0) := by
  unfold signed
  cases negative <;> rfl

theorem signed_inj {negative : Bool} {a b : List Char} (h : signed negative a = signed negative b) :
    a = b := by
  unfold signed at h
  cases negative with
  | false => exact h
  | true => exact (List.cons.inj h).2

theorem exact_coefficient_ne_zero {rank : Nat} (h : rank ≠ 0) :
    (Decimal.exact rank).coefficient ≠ 0 := by
  have hunits : 0 < units rank := by
    unfold units
    split
    · exact Nat.pos_of_ne_zero h
    · exact Nat.mul_pos (by omega) (Nat.two_pow_pos _)
  exact Nat.ne_of_gt (Nat.mul_pos hunits (five_pow_pos 1074))

theorem operandText_eq {rank : Nat} (h : rank ≠ 0) (negative : Bool) :
    operandText negative rank = signed negative (placesText (Decimal.shortest rank).places) := by
  unfold operandText
  rw [if_neg h]
  dsimp only
  rw [Decimal.positional_eq (Decimal.readsBack_shortest rank).1
    (Decimal.shortest_coefficient_ne_zero h)]

/-- The whole text of a number that is not zero evaluates to it. -/
theorem evaluate_operandText {rank : Fin finiteRanks} (hrank : rank.val ≠ 0) (negative : Bool) :
    evaluate (operandText negative rank) = .ok (.finite negative rank) := by
  obtain ⟨hexp, hback⟩ := Decimal.readsBack_shortest rank.val
  have hvalue := evaluate_positional hexp (Decimal.shortest_coefficient_ne_zero hrank) negative
  rw [readsBack_iff.1 hback, if_pos rank.isLt] at hvalue
  rw [operandText, if_neg hrank]
  dsimp only
  rw [hvalue, Binary64.ofRank, dif_pos rank.isLt]

/-! ## Roundings -/

theorem exists_size {rank : Nat} (h : rank ≠ 0) :
    ∃ size, 10 ^ size ≤ (Decimal.exact rank).coefficient ∧
      (Decimal.exact rank).coefficient < 10 ^ (size + 1) := by
  have hlow := pow_le_of_ne_zero (exact_coefficient_ne_zero h)
  have hhigh := lt_pow_length_decimalDigits (Decimal.exact rank).coefficient
  have hpos : 0 < (decimalDigits (Decimal.exact rank).coefficient).length :=
    Nat.length_toDigits_pos
  obtain ⟨size, hsize⟩ : ∃ size,
      (decimalDigits (Decimal.exact rank).coefficient).length = size + 1 :=
    ⟨_, (Nat.sub_add_cancel hpos).symm⟩
  rw [hsize] at hlow hhigh
  exact ⟨size, hlow, hhigh⟩

section Rounded

variable {rank size n : Nat}
  (hlow : 10 ^ size ≤ (Decimal.exact rank).coefficient)
  (hhigh : (Decimal.exact rank).coefficient < 10 ^ (size + 1)) (hn : 1 ≤ n)

include hlow hhigh hn

theorem places_toSignificant :
    -1074 ≤ ((Decimal.exact rank).toSignificant n).exponent ∧
    ((Decimal.exact rank).toSignificant n).coefficient ≠ 0 ∧
    ((Decimal.exact rank).toSignificant n).places =
      roundedTo (Decimal.exact rank).coefficient (size + 1 - n) := by
  have hexp : (Decimal.exact rank).exponent = -1074 := rfl
  unfold Decimal.toSignificant
  dsimp only
  rw [length_decimalDigits_eq hlow hhigh, hexp]
  refine ⟨by omega, ?_, ?_⟩
  · have hquot : 1 ≤ (Decimal.exact rank).coefficient / 10 ^ (size + 1 - n) := by
      rw [Nat.le_div_iff_mul_le (Nat.pow_pos (by decide)), Nat.one_mul]
      exact Nat.le_trans (Nat.pow_le_pow_right (by decide) (by omega)) hlow
    have hround := div_le_roundHalfEven (Decimal.exact rank).coefficient (10 ^ (size + 1 - n))
    omega
  · rw [Int.add_comm]
    exact places_gridPoint _ _

theorem shortenedText_eq (negative : Bool) : shortenedText negative rank n =
    signed negative (placesText (roundedTo (Decimal.exact rank).coefficient (size + 1 - n))) := by
  obtain ⟨hexp, hcoefficient, hplaces⟩ := places_toSignificant hlow hhigh hn
  unfold shortenedText
  dsimp only
  rw [Decimal.positional_eq hexp hcoefficient, hplaces]

/-- What a rounding evaluates to, if anything. -/
theorem evaluate_shortenedText (negative : Bool) {r : Nat}
    (h : rankOfPlaces (roundedTo (Decimal.exact rank).coefficient (size + 1 - n)) = r) :
    evaluate (shortenedText negative rank n) =
      if r < finiteRanks then .ok (.ofRank negative r) else .error .numberTooLarge := by
  obtain ⟨hexp, hcoefficient, hplaces⟩ := places_toSignificant hlow hhigh hn
  rw [← h, ← hplaces]
  exact evaluate_positional hexp hcoefficient negative

end Rounded

end DeskCalculator
