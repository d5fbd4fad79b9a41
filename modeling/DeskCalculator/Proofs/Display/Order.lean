import DeskCalculator.Proofs.Display.Rounding

/-!
# The display keeps the order

* `shownValue_le_millionth`, `millionth_le_shownValue`, `shownValue_le_trillion`,
  `trillion_le_shownValue` : rounding passes neither threshold;
* `shownValue_mono` : so the shown values are in the order of the ranks, in whichever layout;
* `display_mono` : and so are the displays of numbers; that of a negative number is that of its
  magnitude behind a minus sign.
-/

namespace DeskCalculator

/-! ## Thresholds are not passed -/

section Thresholds

variable {rank : Nat}

theorem roundsTo_of_tiny (hrank : rank ≠ 0) (h : rank < smallRank) :
    RoundsTo 11 (magnitude rank) (shownValue rank) :=
  roundsTo_eleven hrank (.inr rfl) (.inr (magnitude_lt_magnitude_iff.2 h))

theorem roundsTo_of_large (hrank : rank ≠ 0) (h : largeRank ≤ rank) :
    RoundsTo 11 (magnitude rank) (shownValue rank) :=
  roundsTo_eleven hrank (.inr rfl) (.inl (le_magnitude_iff.2 h))

theorem shownValue_le_millionth (hrank : rank ≠ 0) (h : rank < smallRank) :
    shownValue rank ≤ 10 ^ (-6 : ℤ) := by
  have hbelow : magnitude rank < magnitude smallRank := magnitude_lt_magnitude_iff.2 h
  exact (roundsTo_of_tiny hrank h).le (by decide) (roundsTo_pow (by decide) (-6))
    (le_of_lt (lt_trans hbelow magnitude_smallRank_lt))

theorem shownValue_le_trillion (hrank : rank ≠ 0) (hlow : smallRank ≤ rank)
    (hhigh : rank < largeRank) :
    shownValue rank ≤ 10 ^ (12 : ℤ) := by
  have hbelow : magnitude rank ≤ 10 ^ (12 : ℤ) := by
    rw [← magnitude_largeRank, magnitude_le_magnitude_iff]
    exact Nat.le_of_lt hhigh
  exact (roundsTo_twelve hrank hlow hhigh).le (by decide) (roundsTo_pow (by decide) 12) hbelow

theorem trillion_le_shownValue (hrank : rank ≠ 0) (h : largeRank ≤ rank) :
    10 ^ (12 : ℤ) ≤ shownValue rank :=
  (roundsTo_pow (by decide) 12).le (by decide) (roundsTo_of_large hrank h) (le_magnitude_iff.2 h)

theorem millionth_le_shownValue (hrank : rank ≠ 0) (h : smallRank ≤ rank) :
    10 ^ (-6 : ℤ) ≤ shownValue rank := by
  rcases Nat.lt_or_ge rank largeRank with hplain | hlarge
  · have hfirst : smallRank ≠ 0 := by
      rw [smallRank_eq]
      decide
    rw [← shownValue_smallRank.2]
    exact (roundsTo_twelve hfirst (Nat.le_refl _) (Nat.lt_of_le_of_lt h hplain)).le (by decide)
      (roundsTo_twelve hrank h hplain) (magnitude_le_magnitude_iff.2 h)
  · exact le_trans (zpow_ten_le (by decide)) (trillion_le_shownValue hrank hlarge)

end Thresholds

/-- **The shown values are in the order of the ranks.** Within a range the same number of digits is
kept; the threshold between two ranges lies between what is shown of either. -/
theorem shownValue_mono {a b : Nat} (h : a ≤ b) : shownValue a ≤ shownValue b := by
  have hmagnitude := magnitude_le_magnitude_iff.2 h
  by_cases ha : a = 0
  · rw [ha, shownValue_zero]
    exact Decimal.toRat_nonneg _
  have hb : b ≠ 0 := by omega
  rcases Nat.lt_or_ge a smallRank with htiny | hsmall
  · rcases Nat.lt_or_ge b smallRank with htiny' | hsmall'
    · exact (roundsTo_of_tiny ha htiny).le (by decide) (roundsTo_of_tiny hb htiny') hmagnitude
    · exact le_trans (shownValue_le_millionth ha htiny) (millionth_le_shownValue hb hsmall')
  · rcases Nat.lt_or_ge b largeRank with hplain | hlarge
    · exact (roundsTo_twelve ha hsmall (by omega)).le (by decide)
        (roundsTo_twelve hb (by omega) hplain) hmagnitude
    · rcases Nat.lt_or_ge a largeRank with hplain' | hlarge'
      · exact le_trans (shownValue_le_trillion ha hsmall hplain') (trillion_le_shownValue hb hlarge)
      · exact (roundsTo_of_large ha hlarge').le (by decide) (roundsTo_of_large hb hlarge) hmagnitude

/-! ## Numbers -/

theorem signed_true_eq (text : List Char) : signed true text = '-' :: signed false text := rfl

theorem display_neg {v : Binary64} (hnan : v ≠ .nan) (hsign : v.isNegative = false)
    (hzero : v.isZero = false) : display v.neg = '-' :: display v := by
  cases v with
  | nan => exact absurd rfl hnan
  | infinite negative =>
    obtain rfl : negative = false := hsign
    rfl
  | finite negative rank =>
    obtain rfl : negative = false := hsign
    have hrank : rank.val ≠ 0 := by simpa [Binary64.isZero] using hzero
    unfold Binary64.neg
    dsimp only
    rw [Bool.not_false]
    by_cases hextreme : largeRank ≤ rank.val ∨ rank.val < smallRank
    · rw [display_of_extreme hrank hextreme, display_of_extreme hrank hextreme, signed_true_eq]
    · rw [display_of_plain hrank hextreme, display_of_plain hrank hextreme, signed_true_eq]

/-- What is shown of a number with its sign. -/
theorem signed_shownValue_mono {s t : Bool} {a b : Nat}
    (h : (if s then -magnitude a else magnitude a) ≤ if t then -magnitude b else magnitude b) :
    (if s then -shownValue a else shownValue a) ≤ if t then -shownValue b else shownValue b := by
  have ha := magnitude_nonneg a
  have hb := magnitude_nonneg b
  have hshown : ∀ rank, 0 ≤ shownValue rank := fun _ => Decimal.toRat_nonneg _
  cases s <;> cases t
  · exact shownValue_mono (magnitude_le_magnitude_iff.1 h)
  · -- only a negative zero is not below a number that is not negative
    rw [if_neg Bool.false_ne_true, if_pos rfl] at h
    have hzero : ∀ rank, magnitude rank ≤ 0 → rank = 0 := fun rank hle =>
      Decidable.byContradiction fun hne => not_le.2 (magnitude_pos hne) hle
    rw [hzero a (by linarith), hzero b (by linarith), shownValue_zero, neg_zero, ite_self, ite_self]
  · exact le_trans (neg_nonpos.2 (hshown a)) (hshown b)
  · exact neg_le_neg (shownValue_mono (magnitude_le_magnitude_iff.1 (neg_le_neg_iff.1 h)))

/-- **The display keeps the order of finite numbers**, and the display of a negative number is that of
its magnitude behind a minus sign. -/
theorem display_mono :
    (∀ v w : Binary64, v.isFinite = true → w.isFinite = true → v.toRat ≤ w.toRat →
      ∃ x y, denoted? (display v) = some x ∧ denoted? (display w) = some y ∧ x ≤ y) ∧
    ∀ v : Binary64, v ≠ .nan → v.isNegative = false → v.isZero = false →
      display v.neg = '-' :: display v := by
  refine ⟨fun v w hv hw hle => ?_, fun v => display_neg⟩
  obtain ⟨s, a, rfl⟩ := Binary64.exists_finite hv
  obtain ⟨t, b, rfl⟩ := Binary64.exists_finite hw
  exact ⟨_, _, denoted?_display s a, denoted?_display t b, signed_shownValue_mono hle⟩

/-- Below `10 ^ 12` in positional layout, above it with a power of ten, and the same number. -/
theorem display_mono_trillion :
    let v := Binary64.finite false ⟨0x426d1a94a1ffffff, by decide⟩
    let w := Binary64.finite false ⟨0x426d1a94a2001000, by decide⟩
    v.isFinite = true ∧ w.isFinite = true ∧ v.toRat ≤ w.toRat ∧
      display v = "1000000000000".toList ∧ display w = "1.e+12".toList ∧
      (∃ x y, denoted? (display v) = some x ∧ denoted? (display w) = some y ∧ x ≤ y) ∧
      v ≠ .nan ∧ v.isNegative = false ∧ v.isZero = false ∧ display v.neg = '-' :: display v := by
  intro v w
  have hle : v.toRat ≤ w.toRat := by
    rw [Binary64.toRat_finite, Binary64.toRat_finite, if_neg Bool.false_ne_true,
      if_neg Bool.false_ne_true, magnitude_le_magnitude_iff]
    decide
  have hnan : v ≠ .nan := by decide
  exact ⟨rfl, rfl, hle, by decide +kernel, by decide +kernel, display_mono.1 v w rfl rfl hle, hnan,
    rfl, rfl, display_mono.2 v hnan rfl rfl⟩

end DeskCalculator
