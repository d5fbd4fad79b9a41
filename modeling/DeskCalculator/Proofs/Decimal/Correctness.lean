import DeskCalculator.Proofs.Binary64.Correctness
import DeskCalculator.Proofs.Decimal.Reading
import Mathlib.Algebra.Order.Field.Power

/-!
# Decimals are read correctly rounded

* `Decimal.toRat` : the exact value of a decimal; `Decimal.pow_le_toRat`, `Decimal.toRat_lt_pow` :
  how the number of digits brackets it;
* `Decimal.isNearestRank_or_finiteRanks_le` : the rank of a decimal is the nearest one to its exact
  value, or both are past the finite ones;
* `Binary64.IsRounded`, `Decimal.isRounded_toBinary64` : so a decimal is read correctly rounded;
  `Decimal.isFinite_toBinary64_iff` : and as a finite number exactly below `2 ^ 1024 - 2 ^ 970`.
-/

namespace DeskCalculator

/-- Less than half of the smallest magnitude is nearest to zero. -/
theorem isNearestRank_zero {x : ℚ} (hzero : 0 ≤ x) (h : 2 * x < magnitude 1) :
    IsNearestRank x 0 := by
  have hstrict : ∀ other, other ≠ 0 → |x - magnitude 0| < |x - magnitude other| := by
    intro other hother
    have hle : magnitude 1 ≤ magnitude other := magnitude_le_magnitude_iff.2 (by omega)
    rw [magnitude_zero, sub_zero, abs_of_nonneg hzero, abs_sub_comm]
    exact lt_of_lt_of_le (by linarith) (le_abs_self _)
  constructor
  · intro other
    by_cases hother : other = 0
    · rw [hother]
    · exact le_of_lt (hstrict other hother)
  · intro other hother htie
    exact absurd htie (ne_of_gt (hstrict other hother))

theorem two_pow_le_ten_pow {m n : Nat} (h : 2 ^ m ≤ 10 ^ n) : (2 : ℚ) ^ m ≤ 10 ^ n := by
  exact_mod_cast h

namespace Decimal

variable {d : Decimal}

/-- The exact value of a decimal. -/
def toRat (d : Decimal) : ℚ := d.coefficient * 10 ^ d.exponent

theorem pow_le_toRat (hd : d.coefficient ≠ 0) :
    (10 : ℚ) ^ (d.exponent + (decimalDigits d.coefficient).length - 1) ≤ d.toRat := by
  have hlength : 0 < (decimalDigits d.coefficient).length := Nat.length_toDigits_pos
  have hle : (10 : ℚ) ^ ((decimalDigits d.coefficient).length - 1) ≤ d.coefficient := by
    exact_mod_cast pow_le_of_ne_zero hd
  calc (10 : ℚ) ^ (d.exponent + (decimalDigits d.coefficient).length - 1)
      = 10 ^ ((decimalDigits d.coefficient).length - 1) * 10 ^ d.exponent := by
        rw [← zpow_natCast, ← zpow_add₀ (by norm_num)]
        congr 1
        omega
    _ ≤ d.toRat := mul_le_mul_of_nonneg_right hle (by positivity)

theorem toRat_lt_pow (d : Decimal) :
    d.toRat < (10 : ℚ) ^ (d.exponent + (decimalDigits d.coefficient).length) := by
  have hlt : (d.coefficient : ℚ) < 10 ^ (decimalDigits d.coefficient).length := by
    exact_mod_cast lt_pow_length_decimalDigits d.coefficient
  calc d.toRat < 10 ^ (decimalDigits d.coefficient).length * 10 ^ d.exponent :=
        mul_lt_mul_of_pos_right hlt (by positivity)
    _ = (10 : ℚ) ^ (d.exponent + (decimalDigits d.coefficient).length) := by
        rw [← zpow_natCast, ← zpow_add₀ (by norm_num), Int.add_comm]

theorem toRat_pos (hd : d.coefficient ≠ 0) : 0 < d.toRat :=
  lt_of_lt_of_le (by positivity) (pow_le_toRat hd)

theorem toRat_nonneg (d : Decimal) : 0 ≤ d.toRat := by
  unfold toRat
  positivity

/-- What counting digits settles lies past every magnitude or within half of the smallest one. -/
theorem two_pow_le_toRat (hd : d.coefficient ≠ 0)
    (hlarge : 310 < d.exponent + (decimalDigits d.coefficient).length) : 2 ^ 1024 ≤ d.toRat := by
  calc (2 : ℚ) ^ 1024 ≤ 10 ^ 310 := two_pow_le_ten_pow (by decide +kernel)
    _ ≤ (10 : ℚ) ^ (d.exponent + (decimalDigits d.coefficient).length - 1) := by
        rw [← zpow_natCast]
        exact zpow_le_zpow_right₀ (by norm_num) (by omega)
    _ ≤ d.toRat := pow_le_toRat hd

theorem two_mul_toRat_lt (hsmall : d.exponent + (decimalDigits d.coefficient).length < -330) :
    2 * d.toRat < magnitude 1 := by
  calc 2 * d.toRat < 2 * (10 : ℚ) ^ (d.exponent + (decimalDigits d.coefficient).length) :=
        mul_lt_mul_of_pos_left d.toRat_lt_pow (by norm_num)
    _ ≤ 2 * (10 : ℚ) ^ (-(330 : Nat) : Int) :=
        mul_le_mul_of_nonneg_left (zpow_le_zpow_right₀ (by norm_num) (by omega)) (by norm_num)
    _ = 2 / 10 ^ 330 := by rw [zpow_neg, zpow_natCast, div_eq_mul_inv]
    _ ≤ magnitude 1 := by
        rw [magnitude, show units 1 = 1 from rfl, Nat.cast_one,
          div_le_div_iff₀ (by positivity) (by positivity), one_mul, ← pow_succ']
        exact two_pow_le_ten_pow (by decide +kernel)

/-- Within reach, the rank is that of the exact value as a ratio of units. -/
theorem isNearestRank_within_reach (hd : d.coefficient ≠ 0)
    (hlarge : ¬310 < d.exponent + (decimalDigits d.coefficient).length)
    (hsmall : ¬d.exponent + (decimalDigits d.coefficient).length < -330) :
    IsNearestRank d.toRat d.rank := by
  have hunit : (2 : ℚ) ^ 1074 ≠ 0 := by positivity
  unfold rank
  dsimp only
  rw [if_neg hd, if_neg hlarge, if_neg hsmall]
  split
  · rename_i hwhole
    obtain ⟨n, hn⟩ := Int.eq_ofNat_of_zero_le hwhole
    have hvalue : d.toRat =
        ((d.coefficient * 10 ^ n * 2 ^ 1074 : Nat) : ℚ) / (1 : Nat) / 2 ^ 1074 := by
      rw [toRat, hn, zpow_natCast, Nat.cast_one, div_one, Nat.cast_mul, Nat.cast_mul]
      simp only [Nat.cast_pow, Nat.cast_ofNat]
      rw [mul_div_cancel_right₀ _ hunit]
    rw [hvalue, hn, Int.toNat_natCast]
    exact isNearestRank_nearestRank _ Nat.one_pos
  · obtain ⟨n, hn⟩ : ∃ n : Nat, d.exponent = -(n : Int) := ⟨(-d.exponent).toNat, by omega⟩
    have hvalue : d.toRat =
        ((d.coefficient * 2 ^ 1074 : Nat) : ℚ) / (10 ^ n : Nat) / 2 ^ 1074 := by
      rw [toRat, hn, zpow_neg, zpow_natCast, Nat.cast_mul]
      simp only [Nat.cast_pow, Nat.cast_ofNat]
      rw [div_right_comm, mul_div_cancel_right₀ _ hunit, div_eq_mul_inv]
    rw [hvalue, hn, Int.neg_neg, Int.toNat_natCast]
    exact isNearestRank_nearestRank _ (Nat.pow_pos (by decide))

/-- The rank of a decimal is the nearest to its exact value, or both are past the finite ones. -/
theorem isNearestRank_or_finiteRanks_le (d : Decimal) :
    IsNearestRank d.toRat d.rank ∨ finiteRanks ≤ d.rank ∧ 2 ^ 1024 ≤ d.toRat := by
  by_cases hd : d.coefficient = 0
  · left
    have hzero : d.toRat = 0 := by rw [toRat, hd, Nat.cast_zero, zero_mul]
    rw [rank_of_coefficient_eq_zero hd, hzero]
    refine isNearestRank_zero (le_refl _) ?_
    rw [mul_zero]
    exact lt_of_le_of_lt (magnitude_nonneg 0) (magnitude_lt_magnitude_iff.2 Nat.one_pos)
  · by_cases hlarge : 310 < d.exponent + (decimalDigits d.coefficient).length
    · exact .inr ⟨Nat.le_of_eq (rank_of_large hd hlarge).symm, two_pow_le_toRat hd hlarge⟩
    · left
      by_cases hsmall : d.exponent + (decimalDigits d.coefficient).length < -330
      · rw [rank_of_small hsmall]
        exact isNearestRank_zero d.toRat_nonneg (two_mul_toRat_lt hsmall)
      · exact isNearestRank_within_reach hd hlarge hsmall

theorem isNearestRank_of_lt (h : d.rank < finiteRanks) : IsNearestRank d.toRat d.rank :=
  d.isNearestRank_or_finiteRanks_le.resolve_right fun hover => Nat.not_le.2 h hover.1

theorem rank_lt_finiteRanks_iff (d : Decimal) :
    d.rank < finiteRanks ↔ d.toRat < 2 ^ 1024 - 2 ^ 970 := by
  rcases d.isNearestRank_or_finiteRanks_le with hnear | ⟨hrank, hvalue⟩
  · exact hnear.lt_finiteRanks_iff
  · have hbound : (2 ^ 1024 - 2 ^ 970 : ℚ) ≤ d.toRat :=
      le_trans (sub_le_self _ (by positivity)) hvalue
    exact iff_of_false (Nat.not_lt.2 hrank) (not_lt.2 hbound)

end Decimal

/-! ## Numbers -/

/-- The number is `x` correctly rounded, with a clear sign. -/
def Binary64.IsRounded (x : ℚ) : Binary64 → Prop
  | .finite negative rank => negative = false ∧ IsNearestRank x rank
  | _ => False

theorem Binary64.IsRounded.eq {x : ℚ} {v w : Binary64} (hv : v.IsRounded x) (hw : w.IsRounded x) :
    v = w := by
  cases v with
  | finite s a =>
    cases w with
    | finite t b =>
      obtain ⟨rfl, ha⟩ := hv
      obtain ⟨rfl, hb⟩ := hw
      rw [Fin.ext (ha.eq hb)]
    | _ => cases hw
  | _ => cases hv

namespace Decimal

variable {d : Decimal}

theorem isFinite_toBinary64_iff (negative : Bool) :
    (d.toBinary64 negative).isFinite = true ↔ d.toRat < 2 ^ 1024 - 2 ^ 970 := by
  rw [← rank_lt_finiteRanks_iff, toBinary64, Binary64.ofRank]
  split
  · rename_i hlt
    exact iff_of_true rfl hlt
  · rename_i hge
    exact iff_of_false Bool.false_ne_true hge

example : ((⟨2 ^ 1024 - 2 ^ 970, 0⟩ : Decimal).toBinary64 false).isFinite = false := by
  decide +kernel

/-- A decimal below the bound is read correctly rounded. -/
theorem isRounded_toBinary64 (h : d.toRat < 2 ^ 1024 - 2 ^ 970) :
    (d.toBinary64 false).IsRounded d.toRat := by
  have hlt := d.rank_lt_finiteRanks_iff.2 h
  rw [toBinary64, Binary64.ofRank, dif_pos hlt]
  exact ⟨rfl, isNearestRank_of_lt hlt⟩

end Decimal

end DeskCalculator
