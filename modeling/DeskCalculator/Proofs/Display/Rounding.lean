import DeskCalculator.Display
import DeskCalculator.Proofs.Binary64.Finite
import DeskCalculator.Proofs.Decimal.Layout
import DeskCalculator.Proofs.Decimal.Significant
import DeskCalculator.Proofs.Operand.Rounded

/-!
# The display is correctly rounded

* `near_exact_rankOfPlaces` : reading a magnitude moves it by a part in `2 ^ 53` at most;
  `places_shortest_rankOfPlaces` : so a decimal of up to fifteen digits comes back from being read;
* `plainText_eq` : so rounding twice is rounding once;
* `IsMillionth` : the two readings of the threshold for tiny magnitudes;
* `denoted?_display` : what is shown is the exact value rounded; `display_rounds` : to eleven digits
  beyond the thresholds and to twelve between them.
-/

namespace DeskCalculator

/-! ## Decimals of few digits -/

/-- Rounding to the nearest magnitude moves a ratio by a part in `2 ^ 53` at most, from the least
normal magnitude on. -/
theorem near_units_nearestRank {num den : Nat} (hden : 0 < den) (h : units (2 ^ 52) * den ≤ num) :
    2 ^ 53 * num ≤ 2 ^ 53 * (units (nearestRank num den) * den) + num ∧
      2 ^ 53 * (units (nearestRank num den) * den) ≤ 2 ^ 53 * num + num := by
  obtain ⟨block, hlow, -, hunits⟩ := exists_block_nearestRank num den
  have hpos := Nat.mul_pos hden (Nat.two_pow_pos block)
  have hstep : 2 ^ 52 * (den * 2 ^ block) ≤ num := by
    rcases hlow with rfl | hplace
    · rwa [Nat.pow_zero, Nat.mul_one]
    · exact (Nat.le_div_iff_mul_le hpos).1 hplace
  have hvalue : units (nearestRank num den) * den =
      den * 2 ^ block * roundHalfEven num (den * 2 ^ block) := by
    rw [hunits, Nat.mul_comm, Nat.mul_comm (roundHalfEven _ _), Nat.mul_assoc]
  have hbelow := mul_roundHalfEven_le num (den * 2 ^ block)
  have habove := le_mul_roundHalfEven num hpos
  rw [hvalue]
  generalize den * 2 ^ block = step at hstep hbelow habove ⊢
  omega

section FewDigits

variable {n excess : Nat}

theorem near_exact_rankOfPlaces (h : (Decimal.exact (2 ^ 52)).coefficient ≤ n) :
    2 ^ 53 * n ≤ 2 ^ 53 * (Decimal.exact (rankOfPlaces n)).coefficient + n ∧
      2 ^ 53 * (Decimal.exact (rankOfPlaces n)).coefficient ≤ 2 ^ 53 * n + n := by
  rw [coefficient_exact] at h ⊢
  exact near_units_nearestRank (five_pow_pos 1074) h

theorem exact_zero : (Decimal.exact 0).coefficient = 0 := by
  rw [coefficient_exact, Nat.mul_eq_zero]
  exact .inl rfl

theorem exact_coefficient_le_iff {a b : Nat} :
    (Decimal.exact a).coefficient ≤ (Decimal.exact b).coefficient ↔ a ≤ b := by
  rw [coefficient_exact, coefficient_exact, Nat.mul_le_mul_right_iff (five_pow_pos 1074),
    units_strictMono.le_iff_le]

/-- A decimal of fifteen digits at most is the shortest one that is read as its nearest number: it is
nearer to that than another decimal of its grid. -/
theorem places_shortest_rankOfPlaces (hdvd : 10 ^ excess ∣ n) (hlow : 10 ^ (excess + 1) ≤ n)
    (hhigh : n ≤ 10 ^ (excess + 15)) (hlarge : 2 * (Decimal.exact (2 ^ 52)).coefficient < n) :
    (Decimal.shortest (rankOfPlaces n)).places = n := by
  have hnear := near_exact_rankOfPlaces (n := n) (by omega)
  have hback : readsBack (rankOfPlaces n) n = true := readsBack_iff.2 rfl
  generalize rankOfPlaces n = rank at hnear hback
  have hgrid : 0 < 10 ^ excess := Nat.pow_pos (by decide)
  rw [Nat.pow_succ] at hlow
  rw [Nat.pow_add] at hhigh
  have hrank : rank ≠ 0 := by
    rintro rfl
    rw [exact_zero] at hnear
    omega
  obtain ⟨size, hlower, hupper⟩ := exists_size hrank
  have hexcess : excess ≤ size := by
    by_contra hlt
    have hpow := Nat.pow_le_pow_right (n := 10) (by decide) (show size + 1 ≤ excess by omega)
    omega
  obtain ⟨e, hle, -, hneighbour⟩ := shortest_of_dvd hlower hupper hexcess hdvd hback
  have hdvd' := Nat.dvd_trans (Nat.pow_dvd_pow 10 hle) hneighbour.dvd
  have hback' := readsBack_iff.1 (Decimal.readsBack_shortest rank).2
  generalize (Decimal.shortest rank).places = m at hdvd' hback'
  have hlarge' : (Decimal.exact (2 ^ 52)).coefficient ≤ m := by
    by_contra hlt
    have hmono := rankOfPlaces_mono (Nat.le_of_not_le hlt)
    rw [rankOfPlaces_exact, hback', ← exact_coefficient_le_iff] at hmono
    omega
  have hnear' := near_exact_rankOfPlaces hlarge'
  rw [hback'] at hnear'
  obtain ⟨a, rfl⟩ := hdvd
  obtain ⟨b, rfl⟩ := hdvd'
  -- different multiples are a whole step of the grid apart
  rcases Nat.lt_trichotomy a b with hlt | rfl | hgt
  · have hstep := Nat.mul_le_mul_left (10 ^ excess) (Nat.succ_le_of_lt hlt)
    rw [Nat.mul_succ] at hstep
    omega
  · rfl
  · have hstep := Nat.mul_le_mul_left (10 ^ excess) (Nat.succ_le_of_lt hgt)
    rw [Nat.mul_succ] at hstep
    omega

end FewDigits

/-! ## Thresholds -/

theorem magnitude_eq (rank : Nat) :
    magnitude rank = (Decimal.exact rank).coefficient / 10 ^ 1074 := by
  rw [← Decimal.toRat_exact, Decimal.toRat_eq (Int.le_refl _), Decimal.places_exact]

theorem zpow_sub_eq (n : Nat) :
    (10 : ℚ) ^ ((n : ℤ) - (1074 : Nat)) = (10 ^ n : Nat) / 10 ^ 1074 := by
  rw [zpow_sub₀ (by norm_num), zpow_natCast, zpow_natCast, Nat.cast_pow, Nat.cast_ofNat]

/-- The number of the upper threshold is the threshold itself; that of the lower one lies below it,
and the next number above. Both are far from the subnormal magnitudes. -/
theorem exact_thresholds :
    (largeRank = 0x426d1a94a2000000 ∧ smallRank = 0x3eb0c6f7a0b5ed8d) ∧
    ((Decimal.exact largeRank).coefficient = 10 ^ 1086 ∧
      10 ^ 1067 ≤ (Decimal.exact smallRank).coefficient ∧
      (Decimal.exact smallRank).coefficient < 10 ^ 1068 ∧
      10 ^ 1068 < (Decimal.exact (smallRank + 1)).coefficient ∧
      2 * (Decimal.exact (2 ^ 52)).coefficient < 10 ^ 1067) ∧
    (Decimal.exact smallRank).toSignificant 11 = ⟨10 ^ 11, -17⟩ ∧
    (Decimal.exact smallRank).toSignificant 12 = ⟨10 ^ 12, -18⟩ := by
  decide +kernel

theorem largeRank_eq : largeRank = 0x426d1a94a2000000 := exact_thresholds.1.1

theorem smallRank_eq : smallRank = 0x3eb0c6f7a0b5ed8d := exact_thresholds.1.2

theorem magnitude_largeRank : magnitude largeRank = 10 ^ (12 : ℤ) := by
  obtain ⟨-, ⟨hlarge, -⟩, -⟩ := exact_thresholds
  rw [magnitude_eq, hlarge, show (12 : ℤ) = (1086 : Nat) - (1074 : Nat) from rfl, zpow_sub_eq]

theorem magnitude_smallRank_lt : magnitude smallRank < 10 ^ (-6 : ℤ) := by
  obtain ⟨-, ⟨-, -, hbelow, -⟩, -⟩ := exact_thresholds
  rw [magnitude_eq, show (-6 : ℤ) = (1068 : Nat) - (1074 : Nat) from rfl, zpow_sub_eq,
    div_lt_div_iff_of_pos_right (by positivity), Nat.cast_lt]
  exact hbelow

theorem lt_magnitude_smallRank_add_one : 10 ^ (-6 : ℤ) < magnitude (smallRank + 1) := by
  obtain ⟨-, ⟨-, -, -, habove, -⟩, -⟩ := exact_thresholds
  rw [magnitude_eq, show (-6 : ℤ) = (1068 : Nat) - (1074 : Nat) from rfl, zpow_sub_eq,
    div_lt_div_iff_of_pos_right (by positivity), Nat.cast_lt]
  exact habove

section Plain

variable {rank : Nat} (hsmall : smallRank ≤ rank) (hlarge : rank < largeRank)

include hsmall hlarge

theorem exists_size_plain : ∃ size, 1067 ≤ size ∧ size < 1086 ∧
    10 ^ size ≤ (Decimal.exact rank).coefficient ∧
      (Decimal.exact rank).coefficient < 10 ^ (size + 1) := by
  obtain ⟨-, ⟨hlast, hfirst, -⟩, -⟩ := exact_thresholds
  have hlower := Nat.le_trans hfirst (exact_coefficient_le_iff.2 hsmall)
  have hupper : (Decimal.exact rank).coefficient < 10 ^ 1086 := by
    rw [← hlast, ← Nat.not_le, exact_coefficient_le_iff]
    omega
  have hrank : rank ≠ 0 := by
    rw [smallRank_eq] at hsmall
    omega
  obtain ⟨size, hlow, hhigh⟩ := exists_size hrank
  have hsize := (Nat.pow_lt_pow_iff_right (by decide)).1 (Nat.lt_of_le_of_lt hlower hhigh)
  have hsize' := (Nat.pow_lt_pow_iff_right (by decide)).1 (Nat.lt_of_le_of_lt hlow hupper)
  exact ⟨size, by omega, hsize', hlow, hhigh⟩

/-- Between the thresholds, twelve digits survive being read as a number again. -/
theorem plainText_eq : plainText rank = positional ((Decimal.exact rank).toSignificant 12).digits
    ((Decimal.exact rank).toSignificant 12).point := by
  obtain ⟨size, hsize, hsize', hlow, hhigh⟩ := exists_size_plain hsmall hlarge
  have hgrid := neighbour_roundedTo (Decimal.exact rank).coefficient (size + 1 - 12)
  obtain ⟨hexp, hcoefficient, hplaces⟩ := places_toSignificant hlow hhigh (n := 12) (by decide)
  rw [← hplaces] at hgrid
  unfold plainText
  generalize (Decimal.exact rank).toSignificant 12 = d at hexp hcoefficient hgrid ⊢
  obtain ⟨hbelow, habove⟩ := hgrid.bounds (by omega) hlow hhigh
  have hback : (Decimal.shortest (rankOfPlaces d.places)).places = d.places := by
    obtain ⟨-, ⟨-, -, -, -, hnormal⟩, -⟩ := exact_thresholds
    have hpow := Nat.pow_le_pow_right (n := 10) (by decide) hsize
    refine places_shortest_rankOfPlaces hgrid.dvd ?_ ?_ ?_
    · exact Nat.le_trans (Nat.pow_le_pow_right (by decide) (by omega)) hbelow
    · exact Nat.le_trans habove (Nat.pow_le_pow_right (by decide) (by omega))
    · exact Nat.lt_of_lt_of_le hnormal (Nat.le_trans hpow hbelow)
  have hread : d.rank = rankOfPlaces d.places := by
    have hpoint := Decimal.length_decimalDigits_places hexp hcoefficient
    have hlength : (decimalDigits d.places).length = size + 1 ∨
        (decimalDigits d.places).length = size + 2 := by
      refine (hgrid.length (by omega) hlow hhigh).2.imp_right fun hcarry => ?_
      rw [hcarry, length_decimalDigits_pow]
    unfold Decimal.point at hpoint
    exact Decimal.rank_within_reach hexp hcoefficient (by omega) (by omega)
  have hshown : (Decimal.shortest (rankOfPlaces d.places)).coefficient ≠ 0 := by
    intro hzero
    have hpos : 0 < 10 ^ size := Nat.pow_pos (by decide)
    rw [Decimal.places, hzero, Nat.zero_mul] at hback
    omega
  dsimp only
  rw [hread, Decimal.positional_eq (Decimal.readsBack_shortest _).1 hshown, hback,
    Decimal.positional_eq hexp hcoefficient]

end Plain

/-! ## What is shown -/

/-- How many significant digits a magnitude is shown with. -/
def digitsShown (rank : Nat) : Nat := if largeRank ≤ rank ∨ rank < smallRank then 11 else 12

/-- The value that is shown for a magnitude. -/
def shownValue (rank : Nat) : ℚ := ((Decimal.exact rank).toSignificant (digitsShown rank)).toRat

section Shown

variable {rank : Nat}

theorem scientificLayout_cutDown (c : Char) (point : Int) :
    scientificLayout true [c] point = c :: '.' :: exponentText 1 (point - 1) := rfl

/-- But for a single digit that was cut down to, the layout is the exponential one. -/
theorem scientificLayout_eq {cutDown : Bool} {digits : List Char}
    (h : ¬((∃ c, digits = [c]) ∧ cutDown = true)) (point : Int) :
    scientificLayout cutDown digits point = exponential 1 digits point := by
  unfold scientificLayout
  split
  · rename_i c
    rw [if_neg fun hcut => h ⟨⟨c, rfl⟩, hcut⟩]
    rfl
  · rfl

theorem shownValue_zero : shownValue 0 = 0 := by
  have hround : ∀ n, roundHalfEven 0 (10 ^ n) = 0 :=
    fun n => roundHalfEven_eq_zero (Nat.pow_pos (by decide))
  unfold shownValue Decimal.toSignificant Decimal.toRat
  dsimp only
  rw [exact_zero, hround, Nat.cast_zero, zero_mul]

theorem roundsTo_shownValue (hrank : rank ≠ 0) :
    RoundsTo (digitsShown rank) (magnitude rank) (shownValue rank) := by
  unfold shownValue
  rw [← Decimal.toRat_exact]
  exact Decimal.roundsTo_toSignificant (exact_coefficient_ne_zero hrank) (digitsShown rank)

/-- The mantissa is told to be cut down if what is shown lies below the exact value. -/
theorem scientificText_eq (hrank : rank ≠ 0) : ∃ cutDown,
    (cutDown = true ↔ ((Decimal.exact rank).toSignificant 11).toRat < magnitude rank) ∧
      scientificText rank = scientificLayout cutDown ((Decimal.exact rank).toSignificant 11).digits
        ((Decimal.exact rank).toSignificant 11).point := by
  obtain ⟨size, hlow, hhigh⟩ := exists_size hrank
  obtain ⟨hexp, -, -⟩ := places_toSignificant hlow hhigh (n := 11) (by decide)
  refine ⟨_, ?_, rfl⟩
  have hexact : -1074 ≤ (Decimal.exact rank).exponent := Int.le_refl _
  rw [decide_eq_true_iff, ← Decimal.toRat_exact, Decimal.toRat_eq hexp, Decimal.toRat_eq hexact,
    div_lt_div_iff_of_pos_right (by positivity), Nat.cast_lt, Decimal.places_exact]
  exact Iff.rfl

theorem denoted?_scientificText (hrank : rank ≠ 0) (negative : Bool) :
    denoted? (signed negative (scientificText rank)) =
      some (if negative then -((Decimal.exact rank).toSignificant 11).toRat
        else ((Decimal.exact rank).toSignificant 11).toRat) := by
  obtain ⟨size, hlow, hhigh⟩ := exists_size hrank
  obtain ⟨-, hcoefficient, -⟩ := places_toSignificant hlow hhigh (n := 11) (by decide)
  obtain ⟨cutDown, -, htext⟩ := scientificText_eq hrank
  obtain ⟨hexponential, hdangling⟩ := Decimal.denoted?_exponential hcoefficient 1 negative
  rw [htext]
  by_cases hdangles : (∃ c, ((Decimal.exact rank).toSignificant 11).digits = [c]) ∧ cutDown = true
  · obtain ⟨⟨c, hdigits⟩, rfl⟩ := hdangles
    rw [hdigits, scientificLayout_cutDown]
    exact hdangling c hdigits
  · rw [scientificLayout_eq hdangles]
    exact hexponential

theorem isPlainTextOf_plainText (hsmall : smallRank ≤ rank) (hlarge : rank < largeRank)
    (negative : Bool) :
    IsPlainTextOf (if negative then -((Decimal.exact rank).toSignificant 12).toRat
        else ((Decimal.exact rank).toSignificant 12).toRat) (signed negative (plainText rank)) := by
  obtain ⟨size, -, -, hlow, hhigh⟩ := exists_size_plain hsmall hlarge
  obtain ⟨hexp, hcoefficient, -⟩ := places_toSignificant hlow hhigh (n := 12) (by decide)
  rw [plainText_eq hsmall hlarge]
  exact Decimal.isPlainTextOf_positional hexp hcoefficient negative

end Shown

section Display

variable {rank : Fin finiteRanks}

theorem display_of_zero (hrank : rank.val = 0) (negative : Bool) :
    display (.finite negative rank) = ['0'] := by
  unfold display
  dsimp only
  rw [if_pos hrank]

theorem display_of_extreme (hrank : rank.val ≠ 0)
    (h : largeRank ≤ rank.val ∨ rank.val < smallRank) (negative : Bool) :
    display (.finite negative rank) = signed negative (scientificText rank) := by
  unfold display
  dsimp only
  rw [if_neg hrank, if_pos h]

theorem display_of_plain (hrank : rank.val ≠ 0)
    (h : ¬(largeRank ≤ rank.val ∨ rank.val < smallRank)) (negative : Bool) :
    display (.finite negative rank) = signed negative (plainText rank) := by
  unfold display
  dsimp only
  rw [if_neg hrank, if_neg h]

/-- The text that is shown denotes the shown value. -/
theorem denoted?_display (negative : Bool) (rank : Fin finiteRanks) :
    denoted? (display (.finite negative rank)) =
      some (if negative then -shownValue rank else shownValue rank) := by
  by_cases hrank : rank.val = 0
  · rw [display_of_zero hrank, denoted?_zero, hrank, shownValue_zero, neg_zero, ite_self]
  · by_cases hextreme : largeRank ≤ rank.val ∨ rank.val < smallRank
    · rw [display_of_extreme hrank hextreme, shownValue, digitsShown, if_pos hextreme]
      exact denoted?_scientificText hrank negative
    · rw [display_of_plain hrank hextreme, shownValue, digitsShown, if_neg hextreme]
      obtain ⟨hlarge, hsmall⟩ := not_or.1 hextreme
      exact (isPlainTextOf_plainText (Nat.not_lt.1 hsmall) (Nat.not_le.1 hlarge) negative).2

end Display

/-! ## Correct rounding -/

/-- Where tiny magnitudes end: at a millionth, or at the number nearest to it. -/
def IsMillionth (small : ℚ) : Prop := small = 10 ^ (-6 : ℤ) ∨ small = magnitude smallRank

section Thresholds

variable {rank : Nat} {small : ℚ}

theorem le_magnitude_iff : 10 ^ (12 : ℤ) ≤ magnitude rank ↔ largeRank ≤ rank := by
  rw [← magnitude_largeRank, magnitude_le_magnitude_iff]

/-- The two readings differ on the number nearest to a millionth only. -/
theorem IsMillionth.rank_le (h : IsMillionth small) (hlt : magnitude rank < small) :
    rank ≤ smallRank := by
  rcases h with rfl | rfl
  · have hnext : magnitude rank < magnitude (smallRank + 1) :=
      lt_trans hlt lt_magnitude_smallRank_add_one
    have hrank := magnitude_lt_magnitude_iff.1 hnext
    omega
  · exact Nat.le_of_lt (magnitude_lt_magnitude_iff.1 hlt)

theorem IsMillionth.le_rank (h : IsMillionth small) (hle : small ≤ magnitude rank) :
    smallRank ≤ rank := by
  rcases h with rfl | rfl
  · exact magnitude_le_magnitude_iff.1 (le_trans (le_of_lt magnitude_smallRank_lt) hle)
  · exact magnitude_le_magnitude_iff.1 hle

/-- And this is rounded to a millionth by eleven digits as by twelve. -/
theorem shownValue_smallRank :
    RoundsTo 11 (magnitude smallRank) (shownValue smallRank) ∧
      shownValue smallRank = 10 ^ (-6 : ℤ) := by
  have hrank : smallRank ≠ 0 := by
    rw [smallRank_eq]
    decide
  have hplain : ¬(largeRank ≤ smallRank ∨ smallRank < smallRank) := by
    rw [largeRank_eq, smallRank_eq]
    decide
  obtain ⟨-, -, heleven, htwelve⟩ := exact_thresholds
  have hround := Decimal.roundsTo_toSignificant (exact_coefficient_ne_zero hrank) 11
  rw [Decimal.toRat_exact, heleven] at hround
  have hvalue : shownValue smallRank = 10 ^ (-6 : ℤ) := by
    rw [shownValue, digitsShown, if_neg hplain, htwelve, Decimal.toRat]
    norm_num
  refine ⟨?_, hvalue⟩
  rw [hvalue]
  convert hround using 1
  rw [Decimal.toRat]
  norm_num

theorem roundsTo_eleven (hrank : rank ≠ 0) (hsmall : IsMillionth small)
    (h : 10 ^ (12 : ℤ) ≤ magnitude rank ∨ magnitude rank < small) :
    RoundsTo 11 (magnitude rank) (shownValue rank) := by
  by_cases heq : rank = smallRank
  · rw [heq]
    exact shownValue_smallRank.1
  · have hround := roundsTo_shownValue hrank
    have hextreme : largeRank ≤ rank ∨ rank < smallRank := by
      refine h.imp le_magnitude_iff.1 fun hlt => ?_
      have hle := hsmall.rank_le hlt
      omega
    rwa [digitsShown, if_pos hextreme] at hround

theorem roundsTo_twelve (hrank : rank ≠ 0) (hlow : smallRank ≤ rank) (hhigh : rank < largeRank) :
    RoundsTo 12 (magnitude rank) (shownValue rank) := by
  have hround := roundsTo_shownValue hrank
  rwa [digitsShown, if_neg (by omega)] at hround

end Thresholds

theorem Binary64.toRat_finite (negative : Bool) (rank : Fin finiteRanks) :
    toRat (.finite negative rank) = if negative then -magnitude rank else magnitude rank := rfl

/-- **The display is the exact value rounded**, to eleven significant digits from `10 ^ 12` on and
below a millionth, and to twelve between, where it is the plain text of the rounded number. -/
theorem display_rounds {v : Binary64} (hfinite : v.isFinite = true) (hzero : v.isZero = false) :
    ∃ y, denoted? (display v) = some y ∧ ∀ small, IsMillionth small →
      (10 ^ (12 : ℤ) ≤ |v.toRat| ∨ |v.toRat| < small → RoundsTo 11 v.toRat y) ∧
      (|v.toRat| < 10 ^ (12 : ℤ) → small ≤ |v.toRat| →
        RoundsTo 12 v.toRat y ∧ IsPlainTextOf y (display v)) := by
  obtain ⟨negative, rank, rfl⟩ := Binary64.exists_finite hfinite
  have hrank : rank.val ≠ 0 := by simpa [Binary64.isZero] using hzero
  have hdenoted := denoted?_display negative rank
  refine ⟨_, hdenoted, fun small hsmall => ?_⟩
  rw [Binary64.abs_toRat, Binary64.toRat_finite]
  refine ⟨fun hextreme => (roundsTo_eleven hrank hsmall hextreme).signed negative,
    fun hbelow hle => ?_⟩
  have hlow := hsmall.le_rank hle
  have hhigh : rank.val < largeRank := by
    rw [← Nat.not_le, ← le_magnitude_iff]
    exact not_le.2 hbelow
  refine ⟨(roundsTo_twelve hrank hlow hhigh).signed negative, ?_, hdenoted⟩
  rw [display_of_plain hrank (by omega)]
  exact (isPlainTextOf_plainText hlow hhigh negative).1

/-- The number that a tenth and two tenths add up to is not the one nearest to three tenths. -/
theorem display_rounds_sum :
    let v := Binary64.finite false ⟨0x3fd3333333333334, by decide⟩
    v.isFinite = true ∧ v.isZero = false ∧ display v = "0.3".toList ∧
      RoundsTo 12 v.toRat (3 / 10) := by
  intro v
  obtain ⟨hshown, hvalue⟩ : display v = "0.3".toList ∧ denoted? "0.3".toList = some (3 / 10) := by
    decide +kernel
  obtain ⟨y, hy, hround⟩ := display_rounds (v := v) rfl rfl
  obtain rfl := Option.some.inj (hvalue.symm.trans (hshown ▸ hy))
  have hbelow : |v.toRat| < 10 ^ (12 : ℤ) := by
    rw [Binary64.abs_toRat, ← not_le, le_magnitude_iff, largeRank_eq]
    decide
  have hle : magnitude smallRank ≤ |v.toRat| := by
    rw [Binary64.abs_toRat, magnitude_le_magnitude_iff, smallRank_eq]
    decide
  exact ⟨rfl, rfl, hshown, ((hround _ (.inr rfl)).2 hbelow hle).1⟩

end DeskCalculator
