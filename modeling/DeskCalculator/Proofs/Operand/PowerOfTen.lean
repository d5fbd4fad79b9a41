import DeskCalculator.Proofs.Operand.Limited
import DeskCalculator.Proofs.Operand.Rounded

/-!
# Numbers just below a power of ten

* `FallsShort` : a number below a power of ten that its whole text denotes, if this is one character
  too long and a rounding fits;
* `readsBack_seventeen` : seventeen digits of it read back; `firstFitting_eq_seventeen` : they are the
  rounding that is given; `evaluate_of_fallsShort` : so this evaluates to the number;
* `fallsShort_of_evaluate` : no other number has a rounding that fits where the whole text does not
  and evaluates to the number.
-/

namespace DeskCalculator

/-- The whole operand is a power of ten, the number is nearer to zero than that, and the text is one
character too long for the limit, within which there is another. -/
def FallsShort (limit : Int) (v : Binary64) : Prop :=
  ∃ negative rank zeros, v = .finite negative rank ∧ units rank < 10 ^ zeros * 2 ^ 1074 ∧
    let text := signed negative ('1' :: List.replicate zeros '0')
    operand none v = .ok (some text) ∧ (text.length : Int) = limit + 1 ∧
      operand (some limit) v ≠ .ok none

/-! ## Texts of powers of ten -/

theorem placesText_pow {zeros : Nat} (h : 1 ≤ zeros) :
    placesText (10 ^ (zeros + 1074)) = '1' :: List.replicate zeros '0' := by
  have hdigits := decimalDigits_mul_pow Nat.one_ne_zero (zeros + 1074)
  rw [Nat.one_mul] at hdigits
  have htrim : trimZeros (decimalDigits (10 ^ (zeros + 1074))) = ['1'] := by
    rw [hdigits, trimZeros_append_replicate]
    rfl
  unfold placesText positional
  rw [htrim, length_decimalDigits_pow, if_neg (by omega)]
  dsimp only
  rw [if_pos (by rw [List.length_singleton]; omega), List.length_singleton,
    show (((zeros + 1074 + 1 : Nat) : Int) - 1074).toNat - 1 = zeros by omega]
  rfl

theorem Literal.places_of_whole (l : Literal) (h : '.' ∉ l.text) :
    l.decimal.places = Nat.ofDigitChars 10 l.text 0 * 10 ^ 1074 := by
  have hpoint : l.hasPoint = false := by
    by_contra hpoint
    rw [Bool.not_eq_false] at hpoint
    rw [Literal.text, hpoint] at h
    exact h (List.mem_append_right _ (List.mem_append_left _ (List.mem_singleton_self _)))
  unfold Literal.decimal Literal.text Decimal.places
  rw [hpoint, if_neg Bool.false_ne_true, if_neg Bool.false_ne_true, List.nil_append]
  dsimp only
  rw [show ((0 : Int) + 1074).toNat = 1074 by decide]

/-- Only a power of ten is written as one. -/
theorem Decimal.places_of_positional {d : Decimal} (hexp : -1074 ≤ d.exponent)
    (hd : d.coefficient ≠ 0) {zeros : Nat}
    (h : positional d.digits d.point = '1' :: List.replicate zeros '0') :
    d.places = 10 ^ (zeros + 1074) := by
  obtain ⟨l, htext, -, -, -, hplaces⟩ := Decimal.exists_literal_places hexp hd
  rw [h] at htext
  have hdot : '.' ∉ l.text := by
    rw [htext]
    rintro (_ | ⟨_, hmem⟩)
    cases List.eq_of_mem_replicate hmem
  have hvalue : Nat.ofDigitChars 10 ('1' :: List.replicate zeros '0') 0 = 10 ^ zeros := by
    rw [Nat.ofDigitChars_cons, Nat.ofDigitChars_replicate_zero]
    exact Nat.mul_one _
  rw [← hplaces, l.places_of_whole hdot, htext, hvalue, Nat.pow_add]

/-! ## Shortest decimals that are powers of ten -/

/-- A number of a whole part is not subnormal. -/
theorem exists_block {rank size : Nat} (hsize : 1074 ≤ size)
    (hlow : 10 ^ size ≤ (Decimal.exact rank).coefficient) :
    ∃ block, rank / 2 ^ 52 = block + 1 := by
  refine ⟨rank / 2 ^ 52 - 1, (Nat.sub_add_cancel ?_).symm⟩
  by_contra hsmall
  have hunits : units rank = rank := by
    unfold units
    rw [if_pos (by omega)]
  rw [coefficient_exact, hunits] at hlow
  have hreach := two_pow_le_of_ten_pow_le (m := rank) (k := 1074) hsize hlow
  have hpow : 2 ^ 52 ≤ 2 ^ 1074 :=
    Nat.pow_le_pow_right (n := 2) (i := 52) (j := 1074) (by decide) (by decide)
  omega

section Power

variable {rank size zeros : Nat}
  (hlow : 10 ^ size ≤ (Decimal.exact rank).coefficient)
  (hhigh : (Decimal.exact rank).coefficient < 10 ^ (size + 1))

include hlow hhigh

/-- A shortest decimal that is the next power of ten is near. -/
theorem nine_mul_pow_le (hpower : (Decimal.shortest rank).places = 10 ^ (size + 1)) :
    9 * 10 ^ size ≤ (Decimal.exact rank).coefficient := by
  have hdvd : 10 ^ size ∣ (Decimal.shortest rank).places := by
    rw [hpower, Nat.pow_succ]
    exact Nat.dvd_mul_right _ _
  obtain ⟨e, hle, he, hneighbour⟩ := shortest_of_dvd hlow hhigh (Nat.le_refl size) hdvd
    (Decimal.readsBack_shortest rank).2
  obtain rfl := Nat.le_antisymm hle he
  rw [hpower, Nat.pow_succ, Nat.mul_comm] at hneighbour
  have hpos : 0 < 10 ^ size := Nat.pow_pos (by decide)
  have hbelow := Nat.div_mul_le_self (Decimal.exact rank).coefficient (10 ^ size)
  rcases hneighbour with heq | heq
  · rw [← heq] at hbelow
    rw [Nat.pow_succ] at hhigh
    omega
  · have hnine := Nat.eq_of_mul_eq_mul_right hpos heq
    rwa [show (Decimal.exact rank).coefficient / 10 ^ size = 9 by omega] at hbelow

/-- Seventeen digits of a number near the next power of ten read back: they differ from it by less
than a quarter of a step. -/
theorem readsBack_seventeen (hsize : 1074 ≤ size)
    (hnine : 9 * 10 ^ size ≤ (Decimal.exact rank).coefficient)
    (hpower : readsBack rank (10 ^ (size + 1)) = true) :
    readsBack rank (roundedTo (Decimal.exact rank).coefficient (size + 1 - 17)) = true := by
  have hneighbour := neighbour_roundedTo (Decimal.exact rank).coefficient (size + 1 - 17)
  have hround := (roundedTo_near (Decimal.exact rank).coefficient (size + 1 - 17)).2
  generalize roundedTo _ _ = n at hneighbour hround ⊢
  rcases Nat.le_total (Decimal.exact rank).coefficient n with hge | hle
  · have hexact := Decimal.readsBack_exact rank
    rw [Decimal.places_exact] at hexact
    exact readsBack_of_le_of_le hexact hpower hge
      (hneighbour.bounds (by omega) hlow hhigh).2
  · obtain ⟨block, hblock⟩ := exists_block hsize hlow
    have hplace : rank % 2 ^ 52 < 2 ^ 52 := Nat.mod_lt _ (by decide)
    have hsteps : (Decimal.exact rank).coefficient < 2 ^ 53 * (2 ^ block * 5 ^ 1074) := by
      rw [coefficient_exact, units_of_block hblock, Nat.mul_assoc]
      exact Nat.mul_lt_mul_of_pos_right (by omega)
        (Nat.mul_pos (Nat.two_pow_pos block) (five_pow_pos 1074))
    have hdigits : 10 ^ size = 10 ^ 16 * 10 ^ (size + 1 - 17) := by
      rw [← Nat.pow_add, show 16 + (size + 1 - 17) = size by omega]
    rw [hdigits] at hnine
    rw [coefficient_exact] at hle hround hnine hsteps
    exact readsBack_iff.2 (nearestRank_of_near (five_pow_pos 1074) hblock hle (by omega))

/-- The number has as many digits before the point as the power of ten has zeros. -/
theorem size_add_one_eq (hbelow : units rank < 10 ^ zeros * 2 ^ 1074)
    (hpower : (Decimal.shortest rank).places = 10 ^ (zeros + 1074)) : size + 1 = zeros + 1074 := by
  have hless : (Decimal.exact rank).coefficient < 10 ^ (zeros + 1074) := by
    rw [coefficient_exact]
    exact (mul_five_pow_lt_iff (m := units rank) (k := 1074)).2 hbelow
  have hsize := (Nat.pow_lt_pow_iff_right (by decide)).1 (Nat.lt_of_le_of_lt hlow hless)
  have hdvd : 10 ^ size ∣ (Decimal.shortest rank).places := by
    rw [hpower]
    exact Nat.pow_dvd_pow 10 (Nat.le_of_lt hsize)
  obtain ⟨e, -, he, hneighbour⟩ := shortest_of_dvd hlow hhigh (Nat.le_refl size) hdvd
    (Decimal.readsBack_shortest rank).2
  have hreach := (hneighbour.bounds he hlow hhigh).2
  rw [hpower] at hreach
  exact Nat.le_antisymm hsize ((Nat.pow_le_pow_iff_right (by decide)).1 hreach)

/-- The text of a rounding that is not rounded up to the power of ten. -/
theorem length_shortenedText (hsize : size + 1 = zeros + 1074) {n : Nat} (hn : 1 ≤ n)
    (hfew : n ≤ zeros)
    (hcarry : roundedTo (Decimal.exact rank).coefficient (size + 1 - n) ≠ 10 ^ (size + 1))
    (negative : Bool) :
    (shortenedText negative rank n).length = zeros + (if negative then 1 else 0) := by
  have hneighbour := neighbour_roundedTo (Decimal.exact rank).coefficient (size + 1 - n)
  rw [shortenedText_eq hlow hhigh hn, length_signed, length_placesText]
  generalize roundedTo _ _ = rounded at hneighbour hcarry ⊢
  obtain ⟨hne, hlength | hpower⟩ := hneighbour.length (by omega) hlow hhigh
  · have hdigits := significant_add_le hne hneighbour.dvd
    rw [hlength] at hdigits ⊢
    unfold textLength
    rw [if_neg (by omega), if_pos (by omega), hsize, Nat.add_sub_cancel]
  · exact absurd hpower hcarry

/-- With a limit one character below the power of ten, seventeen digits are given if any are: where
they are rounded up to it, fewer digits are so too. -/
theorem firstFitting_eq_seventeen (hsize : size + 1 = zeros + 1074) (hzeros : 17 ≤ zeros)
    {negative : Bool} {text : List Char}
    (h : firstFitting negative rank (zeros + (if negative then 1 else 0) : Nat) maxOperandDigits =
      some text) : text = shortenedText negative rank 17 := by
  obtain ⟨n, hn, hle, rfl, hfits, hmost⟩ := of_firstFitting h
  change n ≤ 17 at hle
  rcases Nat.lt_or_eq_of_le hle with hlt | rfl
  · exfalso
    have hlong := hmost 17 hlt (Nat.le_refl 17)
    have hcarry : roundedTo (Decimal.exact rank).coefficient (size + 1 - 17) = 10 ^ (size + 1) := by
      by_contra hcarry
      rw [length_shortenedText hlow hhigh hsize (by decide) hzeros hcarry] at hlong
      exact Int.lt_irrefl _ hlong
    have hfewer := roundedTo_carry (size + 1 - n) (by omega) (by omega) hhigh hcarry
    rw [shortenedText_eq hlow hhigh hn, hfewer, hsize, placesText_pow (by omega), length_signed,
      List.length_cons, List.length_replicate] at hfits
    omega
  · rfl

end Power

/-! ## Falling short -/

section FallsShort

variable {negative : Bool} {rank : Fin finiteRanks} {limit : Int}

theorem operand_of_fits (h : rank.val = 0 ∨ ((operandText negative rank).length : Int) ≤ limit) :
    operand (some limit) (.finite negative rank) = operand none (.finite negative rank) := by
  show Except.ok (operandWithin negative rank (some limit)) = _
  unfold operandWithin
  dsimp only
  rw [if_pos h]
  rfl

theorem operand_of_long (hrank : rank.val ≠ 0) (h : limit < (operandText negative rank).length) :
    operand (some limit) (.finite negative rank) =
      .ok (firstFitting negative rank limit maxOperandDigits) := by
  show Except.ok (operandWithin negative rank (some limit)) = _
  unfold operandWithin
  dsimp only
  rw [if_neg (not_or.2 ⟨hrank, Int.not_le.2 h⟩)]

theorem operandText_of_fallsShort (h : FallsShort limit (.finite negative rank)) :
    ∃ zeros, rank.val ≠ 0 ∧ units rank < 10 ^ zeros * 2 ^ 1074 ∧
      operandText negative rank = signed negative ('1' :: List.replicate zeros '0') ∧
      limit = (zeros + (if negative then 1 else 0) : Nat) := by
  obtain ⟨s, r, zeros, hv, hbelow, htext, hlength, -⟩ := h
  obtain ⟨rfl, rfl⟩ := Binary64.finite.inj hv
  have hwhole : operandText negative rank = _ := Option.some.inj (Except.ok.inj htext)
  refine ⟨zeros, fun hzero => ?_, hbelow, hwhole, ?_⟩
  · rw [operandText, if_pos hzero] at hwhole
    cases negative <;> cases hwhole
  · rw [length_signed, List.length_cons, List.length_replicate] at hlength
    omega

/-- **A number that falls short is given exactly**: its seventeen digits evaluate to it. -/
theorem evaluate_of_fallsShort {v : Binary64} (h : FallsShort limit v) :
    ∃ text, operand (some limit) v = .ok (some text) ∧ evaluate text = .ok v := by
  obtain ⟨negative, rank, -, rfl, -, -, -, hgiven⟩ := id h
  obtain ⟨zeros, hrank, hbelow, hwhole, rfl⟩ := operandText_of_fallsShort h
  obtain ⟨size, hlow, hhigh⟩ := exists_size hrank
  have hlong : ((zeros + (if negative then 1 else 0) : Nat) : Int) <
      (operandText negative rank).length := by
    rw [hwhole, length_signed, List.length_cons, List.length_replicate]
    omega
  have hpower : (Decimal.shortest rank).places = 10 ^ (zeros + 1074) := by
    rw [operandText, if_neg hrank] at hwhole
    exact Decimal.places_of_positional (Decimal.readsBack_shortest rank).1
      (Decimal.shortest_coefficient_ne_zero hrank) (signed_inj hwhole)
  have hback := (Decimal.readsBack_shortest rank).2
  rw [hpower] at hback
  have hzeros : 17 ≤ zeros := by
    by_contra hfew
    have hunits := units_rankOfPlaces_pow zeros (by omega)
    rw [readsBack_iff.1 hback] at hunits
    omega
  have hsize := size_add_one_eq hlow hhigh hbelow hpower
  rw [← hsize] at hpower hback
  have hread := readsBack_seventeen hlow hhigh (by omega) (nine_mul_pow_le hlow hhigh hpower) hback
  rw [operand_of_long hrank hlong] at hgiven ⊢
  obtain ⟨text, htext⟩ := Option.ne_none_iff_exists'.1 fun hnone => hgiven (congrArg _ hnone)
  refine ⟨text, congrArg _ htext, ?_⟩
  rw [firstFitting_eq_seventeen hlow hhigh hsize hzeros htext,
    evaluate_shortenedText hlow hhigh (by decide) negative (readsBack_iff.1 hread),
    if_pos rank.isLt, Binary64.ofRank, dif_pos rank.isLt]

/-- **Only a number that falls short** has a rounding that fits where the whole text does not, and
evaluates to it. -/
theorem fallsShort_of_evaluate {text : List Char} (hrank : rank.val ≠ 0)
    (hlong : limit < (operandText negative rank).length)
    (htext : operand (some limit) (.finite negative rank) = .ok (some text))
    (hvalue : evaluate text = .ok (.finite negative rank)) :
    FallsShort limit (.finite negative rank) := by
  have hfound := htext
  rw [operand_of_long hrank hlong] at hfound
  obtain ⟨n, hn, -, rfl, hfits, -⟩ := of_firstFitting (Except.ok.inj hfound)
  obtain ⟨size, hlow, hhigh⟩ := exists_size hrank
  have hback : readsBack rank (roundedTo (Decimal.exact rank).coefficient (size + 1 - n)) =
      true := by
    rw [evaluate_shortenedText hlow hhigh hn negative rfl] at hvalue
    split at hvalue
    · exact readsBack_iff.2 (Binary64.rank_of_ofRank (Except.ok.inj hvalue))
    · cases hvalue
  have hwhole := operandText_eq hrank negative
  rw [shortenedText_eq hlow hhigh hn, length_signed] at hfits
  rw [hwhole, length_signed] at hlong
  rcases length_shortest_le hlow hhigh (by omega) rfl hback with hshort | ⟨hbefore, hpower, hshort⟩
  · omega
  · obtain ⟨zeros, hzeros, hpos⟩ : ∃ zeros, size + 1 = zeros + 1074 ∧ 1 ≤ zeros :=
      ⟨size + 1 - 1074, by omega, by omega⟩
    have hlength : ((signed negative (placesText (Decimal.shortest rank).places)).length : Int) =
        limit + 1 := by
      rw [length_signed]
      omega
    rw [hzeros] at hpower hhigh
    rw [coefficient_exact] at hhigh
    have hbelow := (mul_five_pow_lt_iff (m := units rank) (k := 1074)).1 hhigh
    rw [hpower, placesText_pow hpos] at hwhole hlength
    refine ⟨negative, rank, zeros, rfl, hbelow, congrArg (Except.ok ∘ some) hwhole, hlength, ?_⟩
    intro hnone
    cases htext.symm.trans hnone

end FallsShort

end DeskCalculator
