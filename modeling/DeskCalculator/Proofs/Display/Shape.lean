import DeskCalculator.Proofs.Display.Order

/-!
# The shape of the display

A number in the display has no zero at the end of its fraction, no padded exponent, and no point
without a fraction but for one that is left dangling.

* `WellShaped` : a word, zero, or a numeral in one of the two shapes;
* `CutToOneDigit` : eleven digits are one digit and zeros, and something above is cut off;
  `cutToOneDigit_iff` : the mantissa is the one digit and lies below the exact value;
* `display_shape` : the point dangles behind the numbers of extreme magnitude that this holds of, and
  every other number is shown in shape; `exists_dangling_display` : one of the former.
-/

namespace DeskCalculator

open Pattern

/-- A word, zero, or a numeral in plain or in scientific shape. -/
def WellShaped (text : List Char) : Prop :=
  text ∈ ["NaN".toList, "Infinity".toList, "-Infinity".toList, "0".toList] ∨
    text ∈ plain.matches' ∨ text ∈ scientific.matches'

/-- Rounding to eleven significant digits leaves one digit and zeros, and takes something off. -/
def CutToOneDigit (x : ℚ) : Prop :=
  ∃ (digit : ℕ) (power : ℤ), 1 ≤ digit ∧ digit ≤ 9 ∧ digit * 10 ^ power < x ∧
    RoundsTo 11 x (digit * 10 ^ power)

/-- The number is shown with a power of ten, and its mantissa is cut down to a single digit. -/
def PointDangles (v : Binary64) : Prop :=
  (10 ^ (12 : ℤ) ≤ |v.toRat| ∨ |v.toRat| < magnitude smallRank) ∧ CutToOneDigit |v.toRat|

theorem CutToOneDigit.pos {x : ℚ} (h : CutToOneDigit x) : 0 < x := by
  obtain ⟨digit, power, -, -, hlt, -⟩ := h
  exact lt_of_le_of_lt (by positivity) hlt

theorem digits_of_one_digit :
    ∀ digit < 10, digit ≠ 0 → trimZeros (decimalDigits digit) = [Nat.digitChar digit] := by
  decide

section Extreme

variable {rank : Nat} (hrank : rank ≠ 0)

include hrank

theorem cutToOneDigit_iff : CutToOneDigit (magnitude rank) ↔
    (∃ c, ((Decimal.exact rank).toSignificant 11).digits = [c]) ∧
      ((Decimal.exact rank).toSignificant 11).toRat < magnitude rank := by
  obtain ⟨size, hlow, hhigh⟩ := exists_size hrank
  obtain ⟨-, hcoefficient, -⟩ := places_toSignificant hlow hhigh (n := 11) (by decide)
  have hround := Decimal.roundsTo_toSignificant (exact_coefficient_ne_zero hrank) 11
  rw [Decimal.toRat_exact] at hround
  generalize (Decimal.exact rank).toSignificant 11 = d at hcoefficient hround ⊢
  constructor
  · rintro ⟨digit, power, hpos, hle, hlt, hround'⟩
    have hvalue : d.toRat = (⟨digit, power⟩ : Decimal).toRat := hround.eq (by decide) hround'
    have hdigit : digit ≠ 0 := by omega
    refine ⟨⟨Nat.digitChar digit, ?_⟩, hvalue.trans_lt hlt⟩
    rw [(Decimal.layout_eq hcoefficient hdigit hvalue).1]
    exact digits_of_one_digit digit (by omega) hdigit
  · rintro ⟨⟨c, hdigits⟩, hlt⟩
    have hc : ∀ a ∈ [c], isDigit a = true := hdigits ▸ fun a => d.isDigit_of_mem_digits
    have hvalue : (Nat.ofDigitChars 10 [c] 0 : ℚ) * 10 ^ (d.point - 1) = d.toRat := by
      have hvalue := d.toRat_digits
      rwa [hdigits] at hvalue
    rw [← hvalue] at hround hlt
    refine ⟨_, _, ?_, Nat.le_of_lt_succ (ofDigitChars_lt hc), hlt, hround⟩
    refine Nat.pos_of_ne_zero fun hzero => ?_
    have hpos := Decimal.toRat_pos hcoefficient
    rw [← hvalue, hzero, Nat.cast_zero, zero_mul] at hpos
    exact lt_irrefl 0 hpos

/-- The mantissa of an extreme magnitude has a power of ten other than one. -/
theorem point_ne_one (h : largeRank ≤ rank ∨ rank < smallRank) :
    ((Decimal.exact rank).toSignificant 11).point ≠ 1 := by
  obtain ⟨size, hlow, hhigh⟩ := exists_size hrank
  obtain ⟨-, hcoefficient, -⟩ := places_toSignificant hlow hhigh (n := 11) (by decide)
  have hshown : shownValue rank = ((Decimal.exact rank).toSignificant 11).toRat := by
    rw [shownValue, digitsShown, if_pos h]
  have hbelow : largeRank ≤ rank → _ := trillion_le_shownValue hrank
  have habove : rank < smallRank → _ := shownValue_le_millionth hrank
  rw [hshown] at hbelow habove
  generalize (Decimal.exact rank).toSignificant 11 = d at hcoefficient hbelow habove ⊢
  intro hpoint
  have hlower := Decimal.pow_le_toRat hcoefficient
  have hupper := d.toRat_lt_pow
  have hexp : d.exponent + (decimalDigits d.coefficient).length = 1 := by
    unfold Decimal.point at hpoint
    omega
  rw [hexp] at hlower hupper
  rcases h with hlarge | hsmall
  · have hlt := zpow_ten_lt_iff.1 (lt_of_le_of_lt (hbelow hlarge) hupper)
    omega
  · exact not_lt.2 (le_trans hlower (habove hsmall)) (zpow_ten_lt_iff.2 (by decide))

/-- An extreme magnitude is shown in scientific shape, or its point dangles. -/
theorem shape_of_extreme (h : largeRank ≤ rank ∨ rank < smallRank) (negative : Bool) :
    (signed negative (scientificText rank) ∈ dangling.matches' ↔ CutToOneDigit (magnitude rank)) ∧
      (signed negative (scientificText rank) ∈ scientific.matches' ↔
        ¬CutToOneDigit (magnitude rank)) := by
  obtain ⟨size, hlow, hhigh⟩ := exists_size hrank
  obtain ⟨-, hcoefficient, -⟩ := places_toSignificant hlow hhigh (n := 11) (by decide)
  obtain ⟨cutDown, hcut, htext⟩ := scientificText_eq hrank
  have hpoint := point_ne_one hrank h
  rw [cutToOneDigit_iff hrank, ← hcut, htext]
  generalize (Decimal.exact rank).toSignificant 11 = d at hcoefficient hpoint ⊢
  have hdigits : ∀ c ∈ d.digits, isDigit c = true := fun c => d.isDigit_of_mem_digits
  have hne := Decimal.digits_ne_nil hcoefficient
  have hhead := Decimal.head?_digits_ne hcoefficient
  have hlast : d.digits.getLast? ≠ some '0' := getLast?_trimZeros_ne _
  by_cases hdangles : (∃ c, d.digits = [c]) ∧ cutDown = true
  · obtain ⟨⟨c, hc⟩, rfl⟩ := hdangles
    have hmem := dangling_exponential hdigits hhead hc hpoint negative
    rw [hc, scientificLayout_cutDown]
    exact ⟨iff_of_true hmem ⟨⟨c, rfl⟩, rfl⟩, iff_of_false (not_mem_scientific_of_dangling hmem)
      fun hnot => hnot ⟨⟨c, rfl⟩, rfl⟩⟩
  · have hmem := scientific_exponential hdigits hne hhead hlast hpoint negative
    rw [scientificLayout_eq hdangles]
    exact ⟨iff_of_false (fun hmem' => not_mem_scientific_of_dangling hmem' hmem) hdangles,
      iff_of_true hmem hdangles⟩

end Extreme

/-! ## Every number -/

theorem not_wellShaped_of_dangling {text : List Char} (h : text ∈ dangling.matches') :
    ¬WellShaped text := by
  have hwords : ["NaN".toList, "Infinity".toList, "-Infinity".toList, "0".toList].all
      (!·.contains '.') = true := by decide
  rintro (hword | hplain | hscientific)
  · obtain ⟨negative, c, tail, -, -, -, rfl⟩ := mem_dangling_iff.1 h
    have hpoint := List.all_eq_true.1 hwords _ hword
    cases negative <;> simp [signed] at hpoint
  · exact not_mem_plain_of_dangling h hplain
  · exact not_mem_scientific_of_dangling h hscientific

theorem pointDangles_finite_iff {negative : Bool} {rank : Fin finiteRanks} :
    PointDangles (.finite negative rank) ↔
      (largeRank ≤ rank.val ∨ rank.val < smallRank) ∧ CutToOneDigit (magnitude rank) := by
  rw [PointDangles, Binary64.abs_toRat, le_magnitude_iff, magnitude_lt_magnitude_iff]

theorem shape_of_finite {negative : Bool} {rank : Fin finiteRanks} :
    (PointDangles (.finite negative rank) → display (.finite negative rank) ∈ dangling.matches') ∧
      (¬PointDangles (.finite negative rank) → WellShaped (display (.finite negative rank))) := by
  rw [pointDangles_finite_iff]
  by_cases hrank : rank.val = 0
  · refine ⟨fun hdangles => ?_, fun _ => .inl ?_⟩
    · have hpos := hdangles.2.pos
      rw [hrank, magnitude_zero] at hpos
      exact absurd hpos (lt_irrefl 0)
    · rw [display_of_zero hrank]
      decide
  · by_cases hextreme : largeRank ≤ rank.val ∨ rank.val < smallRank
    · obtain ⟨hdangling, hscientific⟩ := shape_of_extreme hrank hextreme negative
      rw [display_of_extreme hrank hextreme]
      exact ⟨fun hdangles => hdangling.2 hdangles.2,
        fun hnot => .inr (.inr (hscientific.2 fun hcut => hnot ⟨hextreme, hcut⟩))⟩
    · obtain ⟨hlarge, hsmall⟩ := not_or.1 hextreme
      have hplain := isPlainTextOf_plainText (Nat.not_lt.1 hsmall) (Nat.not_le.1 hlarge) negative
      rw [display_of_plain hrank hextreme]
      exact ⟨fun hdangles => absurd hdangles.1 hextreme, fun _ => .inr (.inl hplain.1)⟩

/-- **Every number is shown in shape, but for those of extreme magnitude that are cut to one digit**:
their point is left dangling. -/
theorem display_shape (v : Binary64) :
    (WellShaped (display v) ↔ ¬PointDangles v) ∧
      (display v ∈ dangling.matches' ↔ PointDangles v) := by
  suffices h : (PointDangles v → display v ∈ dangling.matches') ∧
      (¬PointDangles v → WellShaped (display v)) by
    refine ⟨⟨fun hshape hdangles => ?_, h.2⟩, ⟨fun hdangling => ?_, h.1⟩⟩
    · exact not_wellShaped_of_dangling (h.1 hdangles) hshape
    · by_contra hnot
      exact not_wellShaped_of_dangling hdangling (h.2 hnot)
  have hzero : v.toRat = 0 → ¬PointDangles v := by
    rintro heq ⟨-, hcut⟩
    rw [heq, abs_zero] at hcut
    exact lt_irrefl 0 hcut.pos
  cases v with
  | nan => exact ⟨fun hdangles => absurd hdangles (hzero rfl), fun _ => .inl (by decide)⟩
  | infinite negative =>
    refine ⟨fun hdangles => absurd hdangles (hzero rfl), fun _ => .inl ?_⟩
    cases negative <;> decide
  | finite negative rank => exact shape_of_finite

/-- The number nearest to `10 ^ 300` lies above it, by less than the eleventh digit counts. -/
theorem exists_dangling_display :
    ∃ v : Binary64, v.isFinite = true ∧ display v = "1.e+300".toList ∧ ¬WellShaped (display v) := by
  obtain ⟨hshown, hdangling⟩ :
      display (.finite false ⟨0x7e37e43c8800759c, by decide⟩) = "1.e+300".toList ∧
        "1.e+300".toList ∈ dangling.matches' := by decide +kernel
  refine ⟨_, rfl, hshown, ?_⟩
  rw [hshown]
  exact not_wellShaped_of_dangling hdangling

end DeskCalculator
