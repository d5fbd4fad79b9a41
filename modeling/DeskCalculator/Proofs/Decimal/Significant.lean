import DeskCalculator.Proofs.Decimal.Correctness

/-!
# Rounding to significant digits

* `IsNearestMultiple step x k` : no multiple of the step is nearer to `x` than the `k`th, and of two
  that are equally near `k` is the even one; `IsNearestMultiple.le` : the order is kept;
* `RoundsTo n x y` : `y` is `x` rounded to `n` significant digits; `RoundsTo.le`, `RoundsTo.eq` : the
  order is kept, so there is one such `y` at most; `roundsTo_pow` : a power of ten stays itself;
* `Decimal.roundsTo_toSignificant` : the decimal that is computed is such a one.
-/

namespace DeskCalculator

/-! ## The nearest multiple -/

/-- No multiple of the step is nearer to `x` than the `k`th, and of two that are equally near it is
the even one. -/
structure IsNearestMultiple (step x : ℚ) (k : ℤ) : Prop where
  nearest : ∀ j : ℤ, |x - k * step| ≤ |x - j * step|
  even : ∀ j : ℤ, j ≠ k → |x - j * step| = |x - k * step| → k % 2 = 0

section Multiple

variable {step x x' : ℚ} {j k k' : ℤ}

theorem mul_step_lt (hstep : 0 < step) (h : j < k) : j * step < k * step :=
  mul_lt_mul_of_pos_right (by exact_mod_cast h) hstep

theorem isNearestMultiple_mul (hstep : 0 < step) (k : ℤ) : IsNearestMultiple step (k * step) k := by
  constructor
  · intro j
    rw [sub_self, abs_zero]
    exact abs_nonneg _
  · intro j hj htie
    rw [sub_self, abs_zero, abs_eq_zero, ← sub_mul] at htie
    rcases mul_eq_zero.1 htie with hzero | hzero
    · rw [sub_eq_zero, Int.cast_inj] at hzero
      exact absurd hzero.symm hj
    · exact absurd hzero (ne_of_gt hstep)

theorem IsNearestMultiple.neg (h : IsNearestMultiple step x k) :
    IsNearestMultiple step (-x) (-k) := by
  have hflip : ∀ i : ℤ, |(-x) - ((-i : ℤ) : ℚ) * step| = |x - i * step| := by
    intro i
    rw [Int.cast_neg, neg_mul, sub_neg_eq_add, ← abs_neg]
    ring_nf
  constructor
  · intro j
    rw [hflip, ← neg_neg j, hflip]
    exact h.nearest (-j)
  · intro j hj htie
    rw [hflip, ← neg_neg j, hflip] at htie
    have heven := h.even (-j) (by omega) htie
    omega

/-- **Rounding keeps the order.** If it did not, both numbers would lie halfway between two even
multiples, and the one between these is nearer. -/
theorem IsNearestMultiple.le (hstep : 0 < step) (h : IsNearestMultiple step x k)
    (h' : IsNearestMultiple step x' k') (hx : x ≤ x') : k ≤ k' := by
  by_contra hlt
  have hsteps := mul_step_lt hstep (Int.not_le.1 hlt)
  have hlow := (abs_sub_le_abs_sub_iff' hsteps).1 (h.nearest k')
  have hhigh := (abs_sub_le_abs_sub_iff hsteps).1 (h'.nearest k)
  obtain rfl : x = x' := le_antisymm hx (by linarith)
  have htie := le_antisymm (h.nearest k') (h'.nearest k)
  have heven := h.even k' (by omega) htie.symm
  have heven' := h'.even k (by omega) htie
  have hbetween := (abs_sub_le_abs_sub_iff' (mul_step_lt hstep (show k' + 1 < k by omega))).1
    (h.nearest (k' + 1))
  have hnext := mul_step_lt hstep (show k' < k' + 1 by omega)
  linarith

theorem isNearestMultiple_roundHalfEven (hstep : 0 < step) (num : Nat) {den : Nat} (hden : 0 < den) :
    IsNearestMultiple step (num / den * step) (roundHalfEven num den) := by
  have hscale : ∀ i : ℤ, |(num : ℚ) / den * step - i * step| = |(num : ℚ) / den - i| * step := by
    intro i
    rw [← sub_mul, abs_mul, abs_of_pos hstep]
  have hnonneg : (0 : ℚ) ≤ num / den := by positivity
  have hzero : |(num : ℚ) / den - roundHalfEven num den| ≤ |(num : ℚ) / den - (0 : ℕ)| :=
    roundHalfEven_nearest hden 0
  rw [Nat.cast_zero, sub_zero, abs_of_nonneg hnonneg] at hzero
  -- below zero there is no multiple that is as near as zero
  have hbelow : ∀ i : ℕ, |(num : ℚ) / den - roundHalfEven num den| <
      |(num : ℚ) / den - (Int.negSucc i : ℤ)| := by
    intro i
    have hi : ((Int.negSucc i : ℤ) : ℚ) < 0 := by exact_mod_cast Int.negSucc_lt_zero i
    calc |(num : ℚ) / den - roundHalfEven num den| ≤ num / den := hzero
      _ < num / den - (Int.negSucc i : ℤ) := by linarith
      _ ≤ _ := le_abs_self _
  constructor
  · intro j
    rw [hscale, hscale, Int.cast_natCast]
    refine mul_le_mul_of_nonneg_right ?_ (le_of_lt hstep)
    cases j with
    | ofNat i => exact roundHalfEven_nearest hden i
    | negSucc i => exact le_of_lt (hbelow i)
  · intro j hj htie
    rw [hscale, hscale, mul_left_inj' (ne_of_gt hstep), Int.cast_natCast] at htie
    cases j with
    | ofNat i =>
      have heven := roundHalfEven_even_of_tie hden (k := i) (fun heq => hj (by rw [heq]; rfl)) htie
      omega
    | negSucc i => exact absurd htie (ne_of_gt (hbelow i))

end Multiple

/-! ## Significant digits -/

theorem zpow_ten_pos (power : ℤ) : (0 : ℚ) < 10 ^ power := zpow_pos (by norm_num) power

theorem zpow_ten_le {m n : ℤ} (h : m ≤ n) : (10 : ℚ) ^ m ≤ 10 ^ n :=
  zpow_le_zpow_right₀ (by norm_num) h

theorem zpow_ten_lt_iff {m n : ℤ} : (10 : ℚ) ^ m < 10 ^ n ↔ m < n :=
  zpow_lt_zpow_iff_right₀ (by norm_num)

theorem natCast_ten_pow_mul (n : Nat) (power : ℤ) :
    ((10 ^ n : Nat) : ℤ) * (10 : ℚ) ^ power = 10 ^ (power + n) := by
  rw [Int.cast_natCast, Nat.cast_pow, Nat.cast_ofNat, ← zpow_natCast, ← zpow_add₀ (by norm_num),
    Int.add_comm]

/-- `y` is `x` rounded to `n` significant digits: the multiple of a power of ten that is nearest to
`x`, or the even one of two, where `x` is at least `10 ^ (n - 1)` and less than `10 ^ n` of these
powers away from zero. -/
def RoundsTo (n : Nat) (x y : ℚ) : Prop :=
  ∃ power k : ℤ, 10 ^ (power + n - 1) ≤ |x| ∧ |x| < 10 ^ (power + n) ∧
    IsNearestMultiple (10 ^ power) x k ∧ y = k * 10 ^ power

namespace RoundsTo

variable {n : Nat} {x x' y y' : ℚ}

theorem neg (h : RoundsTo n x y) : RoundsTo n (-x) (-y) := by
  obtain ⟨power, k, hlow, hhigh, hk, rfl⟩ := h
  refine ⟨power, -k, ?_, ?_, hk.neg, ?_⟩
  · rwa [abs_neg]
  · rwa [abs_neg]
  · rw [Int.cast_neg, neg_mul]

theorem ne_zero (h : RoundsTo n x y) : x ≠ 0 := by
  obtain ⟨power, k, hlow, -⟩ := h
  rintro rfl
  rw [abs_zero] at hlow
  exact absurd (zpow_ten_pos _) (not_lt.2 hlow)

theorem signed (negative : Bool) (h : RoundsTo n x y) :
    RoundsTo n (if negative then -x else x) (if negative then -y else y) := by
  cases negative
  · exact h
  · exact h.neg

section Positive

variable (hn : 1 ≤ n)
include hn

/-- A rounded number stays between the powers of ten that the number is between. -/
theorem bounds (hx : 0 < x) (h : RoundsTo n x y) : ∃ power k : ℤ,
    10 ^ (power + n - 1) ≤ x ∧ x < 10 ^ (power + n) ∧ IsNearestMultiple (10 ^ power) x k ∧
      y = k * 10 ^ power ∧ 10 ^ (power + n - 1) ≤ y ∧ y ≤ 10 ^ (power + n) := by
  obtain ⟨power, k, hlow, hhigh, hk, rfl⟩ := h
  rw [abs_of_pos hx] at hlow hhigh
  have hstep := zpow_ten_pos power
  have hfirst : power + n - 1 = power + (n - 1 : Nat) := by omega
  refine ⟨power, k, hlow, hhigh, hk, rfl, ?_, ?_⟩
  · rw [hfirst, ← natCast_ten_pow_mul] at hlow ⊢
    refine mul_le_mul_of_nonneg_right ?_ (le_of_lt hstep)
    exact_mod_cast (isNearestMultiple_mul hstep _).le hstep hk hlow
  · rw [← natCast_ten_pow_mul] at hhigh ⊢
    refine mul_le_mul_of_nonneg_right ?_ (le_of_lt hstep)
    exact_mod_cast hk.le hstep (isNearestMultiple_mul hstep _) (le_of_lt hhigh)

theorem pos (hx : 0 < x) (h : RoundsTo n x y) : 0 < y := by
  obtain ⟨power, -, -, -, -, -, hlow, -⟩ := h.bounds hn hx
  exact lt_of_lt_of_le (zpow_ten_pos _) hlow

theorem rounded_ne_zero (h : RoundsTo n x y) : y ≠ 0 := by
  rcases lt_or_gt_of_ne h.ne_zero with hneg | hpos
  · exact neg_ne_zero.1 (ne_of_gt (h.neg.pos hn (neg_pos.2 hneg)))
  · exact ne_of_gt (h.pos hn hpos)

theorem le_of_pos (hx : 0 < x) (h : RoundsTo n x y) (h' : RoundsTo n x' y') (hle : x ≤ x') :
    y ≤ y' := by
  obtain ⟨power, k, hlow, hhigh, hk, hy, -, habove⟩ := h.bounds hn hx
  obtain ⟨power', k', hlow', hhigh', hk', hy', hbelow, -⟩ := h'.bounds hn (lt_of_lt_of_le hx hle)
  rcases lt_trichotomy power power' with hlt | rfl | hgt
  · calc y ≤ 10 ^ (power + n) := habove
      _ ≤ 10 ^ (power' + n - 1) := zpow_ten_le (by omega)
      _ ≤ y' := hbelow
  · rw [hy, hy']
    refine mul_le_mul_of_nonneg_right ?_ (le_of_lt (zpow_ten_pos power))
    exact_mod_cast hk.le (zpow_ten_pos power) hk' hle
  · exfalso
    have hpow : (10 : ℚ) ^ (power' + n) ≤ 10 ^ (power + n - 1) := zpow_ten_le (by omega)
    linarith

/-- **Rounding to significant digits keeps the order**, also across powers of ten and zero. -/
theorem le (h : RoundsTo n x y) (h' : RoundsTo n x' y') (hle : x ≤ x') : y ≤ y' := by
  rcases lt_or_gt_of_ne h.ne_zero with hneg | hpos
  · rcases lt_or_gt_of_ne h'.ne_zero with hneg' | hpos'
    · exact neg_le_neg_iff.1 (h'.neg.le_of_pos hn (neg_pos.2 hneg') h.neg (neg_le_neg hle))
    · have hy := h.neg.pos hn (neg_pos.2 hneg)
      have hy' := h'.pos hn hpos'
      linarith
  · exact h.le_of_pos hn hpos h' hle

theorem eq (h : RoundsTo n x y) (h' : RoundsTo n x y') : y = y' :=
  le_antisymm (h.le hn h' (le_refl x)) (h'.le hn h (le_refl x))

end Positive

end RoundsTo

theorem roundsTo_pow {n : Nat} (hn : 1 ≤ n) (m : ℤ) : RoundsTo n (10 ^ m) (10 ^ m) := by
  have hm : (10 : ℚ) ^ m = ((10 ^ (n - 1) : Nat) : ℤ) * 10 ^ (m + 1 - n) := by
    rw [natCast_ten_pow_mul]
    congr 1
    omega
  refine ⟨m + 1 - n, (10 ^ (n - 1) : Nat), ?_, ?_, ?_, hm⟩
  · rw [abs_of_pos (zpow_ten_pos m)]
    exact zpow_ten_le (by omega)
  · rw [abs_of_pos (zpow_ten_pos m), zpow_ten_lt_iff]
    omega
  · rw [hm]
    exact isNearestMultiple_mul (zpow_ten_pos _) _

/-! ## Decimals -/

namespace Decimal

variable {d : Decimal}

/-- A decimal rounded to fewer digits than it has, and one that has no more, which stays. -/
theorem roundsTo_toSignificant (hd : d.coefficient ≠ 0) (n : Nat) :
    RoundsTo n d.toRat (d.toSignificant n).toRat := by
  have hlow := pow_le_toRat hd
  have hhigh := d.toRat_lt_pow
  generalize hsize : (decimalDigits d.coefficient).length = size at hlow hhigh
  have hpower : d.exponent + size - n + n = d.exponent + size := by omega
  rcases Nat.le_total n size with hle | hge
  · have hvalue : d.toRat = (d.coefficient : ℚ) / (10 ^ (size - n) : Nat) *
        10 ^ (d.exponent + (size - n : Nat)) := by
      rw [zpow_add₀ (by norm_num), zpow_natCast, Nat.cast_pow, Nat.cast_ofNat, toRat]
      field_simp
    refine ⟨d.exponent + (size - n : Nat), roundHalfEven d.coefficient (10 ^ (size - n)), ?_, ?_,
      ?_, ?_⟩
    · rw [abs_of_pos (toRat_pos hd), show d.exponent + (size - n : Nat) + n - 1 =
        d.exponent + size - 1 by omega]
      exact hlow
    · rw [abs_of_pos (toRat_pos hd), show d.exponent + (size - n : Nat) + n =
        d.exponent + size by omega]
      exact hhigh
    · rw [hvalue]
      exact isNearestMultiple_roundHalfEven (zpow_ten_pos _) _ (Nat.pow_pos (by decide))
    · rw [toSignificant, toRat, hsize]
      rfl
  · have hsame : (d.toSignificant n).toRat = d.toRat := by
      rw [toSignificant, hsize, Nat.sub_eq_zero_of_le hge]
      simp [toRat]
    have hvalue : d.toRat = ((d.coefficient * 10 ^ (n - size) : Nat) : ℤ) *
        10 ^ (d.exponent + size - n) := by
      rw [Int.cast_natCast, Nat.cast_mul, Nat.cast_pow, Nat.cast_ofNat, mul_assoc, ← zpow_natCast,
        ← zpow_add₀ (by norm_num), toRat]
      congr 2
      omega
    refine ⟨d.exponent + size - n, _, ?_, ?_, ?_, hsame.trans hvalue⟩
    · rwa [abs_of_pos (toRat_pos hd), hpower]
    · rwa [abs_of_pos (toRat_pos hd), hpower]
    · rw [hvalue]
      exact isNearestMultiple_mul (zpow_ten_pos _) _

end Decimal

end DeskCalculator
