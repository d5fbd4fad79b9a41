import DeskCalculator.Proofs.Binary64.Finite
import DeskCalculator.Proofs.Decimal.Layout
import DeskCalculator.Proofs.Decimal.Significant
import DeskCalculator.Proofs.Operand.PowerOfTen

/-!
# Operands are correctly rounded

* `isRounding_shortenedText` : a shortened text is the plain text of the rounded number;
* `RoundingFits limit x n` : so is the text of `x` rounded to `n` digits, if it fits;
  `roundingFits_iff` : the search for the most digits looks at these;
* `rankOfPlaces_roundedTo_ne_zero`, `rankOfPlaces_roundedTo_lt` : a rounding is not read as zero, nor
  past the finite numbers if it is shorter than the whole text;
* `operand_rounds` : an operand within a limit is the whole text or the rounding to the most digits
  that fits, and evaluates to a number of the same sign.
-/

namespace DeskCalculator

/-- The exact value rounded to `n` significant digits has a plain text within the limit. -/
def RoundingFits (limit : Int) (x : ℚ) (n : Nat) : Prop :=
  ∃ y text, RoundsTo n x y ∧ IsPlainTextOf y text ∧ (text.length : Int) ≤ limit

/-- The plain text of the exact value rounded to significant digits, as many up to seventeen as fit
the limit. -/
def IsLongestRounding (limit : Int) (x : ℚ) (text : List Char) : Prop :=
  ∃ n y, 1 ≤ n ∧ n ≤ 17 ∧ RoundsTo n x y ∧ IsPlainTextOf y text ∧ (text.length : Int) ≤ limit ∧
    ∀ m, n < m → m ≤ 17 → ¬RoundingFits limit x m

section Rounding

variable {rank : Fin finiteRanks} {n : Nat} (hrank : rank.val ≠ 0) (hn : 1 ≤ n) (negative : Bool)

include hrank hn

theorem isRounding_shortenedText :
    ∃ y, RoundsTo n (Binary64.finite negative rank).toRat y ∧
      IsPlainTextOf y (shortenedText negative rank n) := by
  obtain ⟨size, hlow, hhigh⟩ := exists_size hrank
  obtain ⟨hexp, hcoefficient, -⟩ := places_toSignificant hlow hhigh hn
  have hround := Decimal.roundsTo_toSignificant (exact_coefficient_ne_zero hrank) n
  rw [Decimal.toRat_exact] at hround
  exact ⟨_, hround.signed negative, Decimal.isPlainTextOf_positional hexp hcoefficient negative⟩

/-- A rounding has one plain text, which is the shortened one. -/
theorem roundingFits_iff {limit : Int} :
    RoundingFits limit (Binary64.finite negative rank).toRat n ↔
      ((shortenedText negative rank n).length : Int) ≤ limit := by
  obtain ⟨y, hround, htext⟩ := isRounding_shortenedText hrank hn negative
  constructor
  · rintro ⟨y', text, hround', htext', hlength⟩
    obtain rfl := hround.eq hn hround'
    rwa [htext.eq htext' (hround.rounded_ne_zero hn)]
  · exact fun hlength => ⟨y, _, hround, htext, hlength⟩

end Rounding

/-! ## Roundings are read as numbers -/

theorem nearestRank_ne_zero {num den : Nat} (hden : 0 < den) (h : den < 2 * num) :
    nearestRank num den ≠ 0 := by
  unfold nearestRank
  dsimp only
  generalize (num / den).log2 - 52 = block
  intro hzero
  have hblock : block = 0 := by omega
  subst hblock
  have hnear := le_mul_roundHalfEven num (show 0 < den * 2 ^ 0 by omega)
  rw [show roundHalfEven num (den * 2 ^ 0) = 0 by omega] at hnear
  omega

/-- The text of a number with more digits before the point than a bound. -/
theorem lt_length_placesText {n k : Nat} (h : 10 ^ (k + 1074) ≤ n) :
    k < (placesText n).length := by
  have hlength := (Nat.pow_lt_pow_iff_right (by decide)).1
    (Nat.lt_of_le_of_lt h (lt_pow_length_decimalDigits n))
  rw [length_placesText]
  unfold textLength
  rw [if_neg (by omega)]
  split <;> omega

theorem length_placesText_le {n k : Nat} (hne : n ≠ 0) (hdvd : 10 ^ 1074 ∣ n)
    (h : n < 10 ^ (k + 1074)) : (placesText n).length ≤ k := by
  have hlength := (Nat.pow_lt_pow_iff_right (by decide)).1
    (Nat.lt_of_le_of_lt (pow_le_of_ne_zero hne) h)
  have hdigits := significant_add_le hne hdvd
  have hpos := significant_pos hne
  rw [length_placesText]
  unfold textLength
  rw [if_neg (by omega), if_pos (by omega)]
  omega

section Reading

variable {rank size excess : Nat}
  (hlow : 10 ^ size ≤ (Decimal.exact rank).coefficient)
  (hhigh : (Decimal.exact rank).coefficient < 10 ^ (size + 1))

include hlow hhigh

/-- Rounding takes no more than a third off, and half of the smallest magnitude is read as zero. -/
theorem rankOfPlaces_roundedTo_ne_zero (hrank : rank ≠ 0) (hexcess : excess ≤ size) :
    rankOfPlaces (roundedTo (Decimal.exact rank).coefficient excess) ≠ 0 := by
  have hbelow := ((neighbour_roundedTo (Decimal.exact rank).coefficient excess).bounds hexcess hlow
    hhigh).1
  have hnear := (roundedTo_near (Decimal.exact rank).coefficient excess).2
  have hstep : 10 ^ excess ≤ 10 ^ size := Nat.pow_le_pow_right (by decide) hexcess
  have hunit : 5 ^ 1074 ≤ (Decimal.exact rank).coefficient := by
    rw [coefficient_exact]
    refine Nat.le_mul_of_pos_left _ (Nat.pos_of_ne_zero fun hzero => ?_)
    exact hrank (units_strictMono.injective hzero)
  have hpos := five_pow_pos 1074
  exact nearestRank_ne_zero hpos (by omega)

/-- A number of seventeen digits before the point is an integer, and so is its shortest decimal. -/
theorem pow_dvd_shortest (hsize : 16 + 1074 ≤ size) :
    10 ^ 1074 ∣ (Decimal.shortest rank).places := by
  obtain ⟨block, hblock⟩ := exists_block (by omega) hlow
  have hplace : rank % 2 ^ 52 < 2 ^ 52 := Nat.mod_lt _ (by decide)
  have hvalue : (Decimal.exact rank).coefficient =
      (2 ^ 52 + rank % 2 ^ 52) * 2 ^ block * 5 ^ 1074 := by
    rw [coefficient_exact, units_of_block hblock]
  have hreach : 1074 ≤ block := by
    by_contra hsmall
    have hpow : 2 ^ block ≤ 2 ^ 1074 :=
      Nat.pow_le_pow_right (n := 2) (i := block) (j := 1074) (by decide) (by omega)
    have hupper : (Decimal.exact rank).coefficient < 10 ^ (16 + 1074) := by
      rw [hvalue]
      refine (mul_five_pow_lt_iff (n := 16) (k := 1074)).2 ?_
      calc (2 ^ 52 + rank % 2 ^ 52) * 2 ^ block ≤ (2 ^ 52 + rank % 2 ^ 52) * 2 ^ 1074 :=
            Nat.mul_le_mul_left _ hpow
        _ < 10 ^ 16 * 2 ^ 1074 := Nat.mul_lt_mul_of_pos_right (by omega) (Nat.two_pow_pos 1074)
    have hlower := Nat.pow_le_pow_right (n := 10) (by decide) hsize
    omega
  have hdvd : 10 ^ 1074 ∣ (Decimal.exact rank).coefficient := by
    rw [hvalue]
    refine ten_pow_dvd_mul_five_pow (k := 1074) (Nat.dvd_mul_left_of_dvd ?_ _)
    exact Nat.pow_dvd_pow (m := 1074) (n := block) 2 hreach
  have hexact := Decimal.readsBack_exact rank
  rw [Decimal.places_exact] at hexact
  obtain ⟨e, hle, -, hneighbour⟩ := shortest_of_dvd hlow hhigh (by omega) hdvd hexact
  exact Nat.dvd_trans (Nat.pow_dvd_pow (m := 1074) (n := e) 10 hle) hneighbour.dvd

/-- A rounding past the finite numbers has 309 digits before the point, and the whole text has no
more characters than that. -/
theorem rankOfPlaces_roundedTo_lt (hrank : rank ≠ 0) (hrankFinite : rank < finiteRanks)
    (hexcess : excess ≤ size)
    (hshort : (placesText (roundedTo (Decimal.exact rank).coefficient excess)).length <
      (placesText (Decimal.shortest rank).places).length) :
    rankOfPlaces (roundedTo (Decimal.exact rank).coefficient excess) < finiteRanks := by
  have hbounds := (neighbour_roundedTo (Decimal.exact rank).coefficient excess).bounds hexcess hlow
    hhigh
  generalize roundedTo (Decimal.exact rank).coefficient excess = n at hbounds hshort ⊢
  by_contra hover
  have hlarge := pow_lt_of_finiteRanks_le (Nat.not_lt.1 hover)
  have hsize := (Nat.pow_lt_pow_iff_right (by decide)).1 (Nat.lt_of_lt_of_le hlarge hbounds.2)
  have hback := readsBack_iff.1 (Decimal.readsBack_shortest rank).2
  have hbelow : (Decimal.shortest rank).places < 10 ^ (309 + 1074) := by
    by_contra hle
    have hinfinite := finiteRanks_le_rankOfPlaces (Nat.not_lt.1 hle)
    omega
  have hne : (Decimal.shortest rank).places ≠ 0 :=
    Nat.mul_ne_zero (Decimal.shortest_coefficient_ne_zero hrank)
      (Nat.ne_of_gt (Nat.pow_pos (by decide)))
  have hlong := lt_length_placesText (Nat.le_of_lt hlarge)
  have hwhole := length_placesText_le hne (pow_dvd_shortest hlow hhigh (by omega)) hbelow
  omega

end Reading

/-- A rounding that is shorter than the whole text evaluates to a number of the same sign. -/
theorem evaluate_shortenedText_of_short {rank : Fin finiteRanks} {n : Nat} {negative : Bool}
    (hrank : rank.val ≠ 0) (hn : 1 ≤ n)
    (hshort : ((shortenedText negative rank n).length : Int) < (operandText negative rank).length) :
    ∃ w, evaluate (shortenedText negative rank n) = .ok w ∧ w.isFinite = true ∧ w.isZero = false ∧
      w.isNegative = negative := by
  obtain ⟨size, hlow, hhigh⟩ := exists_size hrank
  have hexcess : size + 1 - n ≤ size := by omega
  have hne := rankOfPlaces_roundedTo_ne_zero hlow hhigh hrank hexcess
  rw [shortenedText_eq hlow hhigh hn, operandText_eq hrank, length_signed, length_signed] at hshort
  have hlt := rankOfPlaces_roundedTo_lt hlow hhigh hrank rank.isLt hexcess (by omega)
  refine ⟨.finite negative ⟨_, hlt⟩, ?_, rfl, beq_eq_false_iff_ne.2 hne, rfl⟩
  rw [evaluate_shortenedText hlow hhigh hn negative rfl, if_pos hlt, Binary64.ofRank, dif_pos hlt]

/-- **An operand within a limit is the whole text if that fits, and else the number rounded to the
most significant digits that fit**, up to seventeen; it evaluates to a number of the same sign, not
to zero. None is given only where no rounding fits. -/
theorem operand_rounds {v : Binary64} (hfinite : v.isFinite = true) (hzero : v.isZero = false)
    (limit : Int) :
    ∃ whole given, operand none v = .ok (some whole) ∧ operand (some limit) v = .ok given ∧
      ((whole.length : Int) ≤ limit → given = some whole) ∧
      (∀ text, given = some text → (text.length : Int) ≤ limit ∧
        (limit < whole.length → IsLongestRounding limit v.toRat text) ∧
        ∃ w, evaluate text = .ok w ∧ w.isFinite = true ∧ w.isZero = false ∧
          w.isNegative = v.isNegative) ∧
      (given = none → ∀ n, 1 ≤ n → n ≤ 17 → ¬RoundingFits limit v.toRat n) := by
  obtain ⟨negative, rank, rfl⟩ := Binary64.exists_finite hfinite
  have hrank : rank.val ≠ 0 := by simpa [Binary64.isZero] using hzero
  have hwhole : operand none (.finite negative rank) = .ok (some (operandText negative rank)) := rfl
  rcases le_or_gt ((operandText negative rank).length : Int) limit with hfits | hlong
  · refine ⟨_, _, hwhole, (operand_of_fits (.inr hfits)).trans hwhole, fun _ => rfl, ?_,
      fun hnone => absurd hnone (Option.some_ne_none _)⟩
    rintro text ⟨⟩
    exact ⟨hfits, fun hlong => absurd hlong (Int.not_lt.2 hfits), _,
      evaluate_operandText hrank negative, rfl, hzero, rfl⟩
  · refine ⟨_, _, hwhole, operand_of_long hrank hlong,
      fun hfits => absurd hlong (Int.not_lt.2 hfits), fun text htext => ?_, fun hnone n hn hle => ?_⟩
    · obtain ⟨n, hn, hle, rfl, hfits, hmost⟩ := of_firstFitting htext
      obtain ⟨y, hround, hplain⟩ := isRounding_shortenedText hrank hn negative
      refine ⟨hfits, fun _ => ⟨n, y, hn, hle, hround, hplain, hfits, fun m hm hmle => ?_⟩, ?_⟩
      · rw [roundingFits_iff hrank (by omega)]
        exact Int.not_le.2 (hmost m hm hmle)
      · exact evaluate_shortenedText_of_short hrank hn (Int.lt_of_le_of_lt hfits hlong)
    · rw [roundingFits_iff hrank hn]
      exact Int.not_le.2 (firstFitting_eq_none_iff.1 hnone n hn hle)

/-- A third in ten characters. -/
theorem operand_rounds_third :
    let v := Binary64.finite false ⟨0x3fd5555555555555, by decide⟩
    v.isFinite = true ∧ v.isZero = false ∧
      ∃ text, operand (some 10) v = .ok (some text) ∧ IsLongestRounding 10 v.toRat text := by
  intro v
  have hwhole : operand none v = .ok (some "0.3333333333333333".toList) := by decide +kernel
  have hcut : operand (some 10) v = .ok (some "0.33333333".toList) := by decide +kernel
  obtain ⟨whole, given, hnone, hsome, -, hgiven, -⟩ := operand_rounds (v := v) rfl rfl 10
  obtain rfl := Option.some.inj (Except.ok.inj (hwhole.symm.trans hnone))
  obtain rfl := Except.ok.inj (hcut.symm.trans hsome)
  exact ⟨rfl, rfl, _, hcut, (hgiven _ rfl).2.1 (by decide)⟩

end DeskCalculator
