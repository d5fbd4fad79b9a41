import DeskCalculator.Decimal.Shortest
import DeskCalculator.Proofs.Binary64.Nearest
import DeskCalculator.Proofs.Decimal.Digits

/-!
# Reading decimals

* `rankOfPlaces` : the rank nearest to a magnitude counted in the 1074th decimal place, the last one
  of any binary64 magnitude; `readsBack_iff` : what reads back is what has the rank as that;
  `readsBack_of_le_of_le` : these magnitudes have no gaps;
* `rankOfPlaces_eq_zero`, `finiteRanks_le_rankOfPlaces`, `pow_lt_of_finiteRanks_le` : which magnitudes
  are read as zero, and which are past the finite ones;
* `Decimal.places` : a decimal counted in that place;
* `Decimal.toBinary64_eq` : a decimal is read as the number nearest to its exact value, also where
  counting its digits settles the matter.
-/

namespace DeskCalculator

/-! ## Powers of ten -/

theorem ten_pow (n : Nat) : 10 ^ n = 2 ^ n * 5 ^ n := by
  rw [← Nat.mul_pow]

theorem five_pow_pos (n : Nat) : 0 < 5 ^ n := Nat.pow_pos (by decide)

theorem mul_five_pow_lt_iff {m n k : Nat} : m * 5 ^ k < 10 ^ (n + k) ↔ m < 10 ^ n * 2 ^ k := by
  rw [Nat.pow_add, ten_pow k, ← Nat.mul_assoc]
  exact Nat.mul_lt_mul_right (five_pow_pos k)

theorem two_pow_le_of_ten_pow_le {m n k : Nat} (hk : k ≤ n) (h : 10 ^ n ≤ m * 5 ^ k) : 2 ^ k ≤ m := by
  refine Nat.le_of_mul_le_mul_right ?_ (five_pow_pos k)
  calc 2 ^ k * 5 ^ k = 10 ^ k := (ten_pow k).symm
    _ ≤ 10 ^ n := Nat.pow_le_pow_right (by decide) hk
    _ ≤ m * 5 ^ k := h

theorem ten_pow_dvd_mul_five_pow {m k : Nat} (h : 2 ^ k ∣ m) : 10 ^ k ∣ m * 5 ^ k := by
  rw [ten_pow]
  exact Nat.mul_dvd_mul_right h _

theorem nearestRank_scaled_up (c n m : Nat) :
    nearestRank (c * 10 ^ n * 2 ^ m) 1 = nearestRank (c * 10 ^ (n + m)) (5 ^ m) := by
  refine nearestRank_congr Nat.one_pos (five_pow_pos m) ?_
  rw [Nat.mul_one, Nat.pow_add, ten_pow m]
  simp only [Nat.mul_assoc]

theorem nearestRank_scaled_down (c n m : Nat) :
    nearestRank (c * 2 ^ (m + n)) (10 ^ n) = nearestRank (c * 10 ^ m) (5 ^ (m + n)) := by
  refine nearestRank_congr (Nat.pow_pos (by decide)) (five_pow_pos _) ?_
  rw [Nat.mul_assoc, Nat.mul_assoc, ← ten_pow, ← Nat.pow_add]

theorem Binary64.ofRank_of_le {rank : Nat} (h : finiteRanks ≤ rank) (negative : Bool) :
    ofRank negative rank = .infinite negative :=
  dif_neg (Nat.not_lt.2 h)

/-! ## The 1074th decimal place -/

/-- The rank nearest to a magnitude counted in the 1074th decimal place. -/
def rankOfPlaces (magnitude : Nat) : Nat := nearestRank magnitude (5 ^ 1074)

theorem readsBack_iff {rank magnitude : Nat} :
    readsBack rank magnitude = true ↔ rankOfPlaces magnitude = rank := beq_iff_eq

theorem rankOfPlaces_zero : rankOfPlaces 0 = 0 :=
  nearestRank_eq_zero (by rw [Nat.mul_zero]; exact five_pow_pos 1074)

theorem rankOfPlaces_exact (rank : Nat) : rankOfPlaces (Decimal.exact rank).coefficient = rank :=
  nearestRank_units_mul rank (five_pow_pos 1074)

theorem rankOfPlaces_mono {a b : Nat} (h : a ≤ b) : rankOfPlaces a ≤ rankOfPlaces b :=
  nearestRank_mono (five_pow_pos 1074) h

/-- What lies between two magnitudes that read back does so too. -/
theorem readsBack_of_le_of_le {rank a b c : Nat} (ha : readsBack rank a = true)
    (hc : readsBack rank c = true) (hab : a ≤ b) (hbc : b ≤ c) : readsBack rank b = true := by
  rw [readsBack_iff] at ha hc ⊢
  have hlow := rankOfPlaces_mono hab
  have hhigh := rankOfPlaces_mono hbc
  omega

/-- Less than half of the smallest magnitude is read as zero. -/
theorem rankOfPlaces_eq_zero {magnitude : Nat} (h : magnitude < 10 ^ 743) :
    rankOfPlaces magnitude = 0 := by
  have hhalf : 2 * 10 ^ 743 < 5 ^ 1074 := by decide +kernel
  exact nearestRank_eq_zero (Nat.lt_trans (Nat.mul_lt_mul_of_pos_left h (by decide)) hhalf)

/-- A magnitude of 310 digits before the point is past the finite ones. -/
theorem finiteRanks_le_rankOfPlaces {magnitude : Nat} (h : 10 ^ (309 + 1074) ≤ magnitude) :
    finiteRanks ≤ rankOfPlaces magnitude := by
  have hreach : 2 ^ (2046 + 52) * 5 ^ 1074 ≤ 10 ^ (309 + 1074) := by decide +kernel
  exact block_le_nearestRank (five_pow_pos 1074) (Nat.le_trans hreach h)

/-- And one past the finite ones has 309. -/
theorem pow_lt_of_finiteRanks_le {magnitude : Nat} (h : finiteRanks ≤ rankOfPlaces magnitude) :
    10 ^ (308 + 1074) < magnitude := by
  by_contra hle
  have hfinite : rankOfPlaces (10 ^ (308 + 1074)) < finiteRanks := by decide +kernel
  have hmono := rankOfPlaces_mono (Nat.not_lt.1 hle)
  omega

/-- Up to sixteen zeros, a power of ten is a number itself. -/
theorem units_rankOfPlaces_pow :
    ∀ zeros < 17, units (rankOfPlaces (10 ^ (zeros + 1074))) = 10 ^ zeros * 2 ^ 1074 := by
  decide +kernel

namespace Decimal

/-- The decimal counted in the 1074th decimal place, if it has no digits after that. -/
def places (d : Decimal) : Nat := d.coefficient * 10 ^ (d.exponent + 1074).toNat

variable {d : Decimal}

theorem pow_le_places (hd : d.coefficient ≠ 0) {n : Nat}
    (h : (n : Int) < d.exponent + (decimalDigits d.coefficient).length) :
    10 ^ (n + 1074) ≤ d.places := by
  have hlength : 0 < (decimalDigits d.coefficient).length := Nat.length_toDigits_pos
  calc 10 ^ (n + 1074)
      ≤ 10 ^ ((decimalDigits d.coefficient).length - 1 + (d.exponent + 1074).toNat) :=
        Nat.pow_le_pow_right (by decide) (by omega)
    _ = 10 ^ ((decimalDigits d.coefficient).length - 1) * 10 ^ (d.exponent + 1074).toNat :=
        Nat.pow_add _ _ _
    _ ≤ d.places := Nat.mul_le_mul_right _ (pow_le_of_ne_zero hd)

theorem places_lt_pow (hexp : -1074 ≤ d.exponent) {n : Nat}
    (h : d.exponent + (decimalDigits d.coefficient).length + 1074 ≤ n) : d.places < 10 ^ n := by
  calc d.places
      < 10 ^ (decimalDigits d.coefficient).length * 10 ^ (d.exponent + 1074).toNat :=
        Nat.mul_lt_mul_of_pos_right (lt_pow_length_decimalDigits _) (Nat.pow_pos (by decide))
    _ = 10 ^ ((decimalDigits d.coefficient).length + (d.exponent + 1074).toNat) :=
        (Nat.pow_add _ _ _).symm
    _ ≤ 10 ^ n := Nat.pow_le_pow_right (by decide) (by omega)

theorem rank_of_coefficient_eq_zero (hd : d.coefficient = 0) : d.rank = 0 := by
  unfold rank
  exact if_pos hd

theorem rank_of_large (hd : d.coefficient ≠ 0)
    (hlarge : 310 < d.exponent + (decimalDigits d.coefficient).length) : d.rank = finiteRanks := by
  unfold rank
  dsimp only
  rw [if_neg hd, if_pos hlarge]

theorem rank_of_small (hsmall : d.exponent + (decimalDigits d.coefficient).length < -330) :
    d.rank = 0 := by
  unfold rank
  dsimp only
  rw [if_neg (show ¬310 < d.exponent + _ by omega), if_pos hsmall, ite_self]

theorem rank_within_reach (hexp : -1074 ≤ d.exponent) (hd : d.coefficient ≠ 0)
    (hlarge : d.exponent + (decimalDigits d.coefficient).length ≤ 310)
    (hsmall : -330 ≤ d.exponent + (decimalDigits d.coefficient).length) :
    d.rank = rankOfPlaces d.places := by
  unfold rank places rankOfPlaces
  dsimp only
  rw [if_neg hd, if_neg (by omega), if_neg (by omega)]
  split
  · rename_i hwhole
    obtain ⟨n, hn⟩ := Int.eq_ofNat_of_zero_le hwhole
    rw [hn, Int.toNat_natCast, show ((n : Int) + 1074).toNat = n + 1074 by omega]
    exact nearestRank_scaled_up d.coefficient n 1074
  · obtain ⟨n, hn⟩ : ∃ n : Nat, d.exponent = -(n : Int) := ⟨(-d.exponent).toNat, by omega⟩
    obtain ⟨m, hm⟩ : ∃ m : Nat, 1074 = m + n := ⟨1074 - n, by omega⟩
    rw [hn, Int.neg_neg, Int.toNat_natCast, show (-(n : Int) + 1074).toNat = m by omega, hm]
    exact nearestRank_scaled_down d.coefficient n m

/-- A decimal is read as the number nearest to its exact value. -/
theorem toBinary64_eq (hexp : -1074 ≤ d.exponent) (negative : Bool) :
    d.toBinary64 negative = .ofRank negative (rankOfPlaces d.places) := by
  unfold toBinary64
  by_cases hd : d.coefficient = 0
  · rw [rank_of_coefficient_eq_zero hd, places, hd, Nat.zero_mul, rankOfPlaces_zero]
  · by_cases hlarge : 310 < d.exponent + (decimalDigits d.coefficient).length
    · have hreach := finiteRanks_le_rankOfPlaces (pow_le_places (n := 309) hd (by omega))
      rw [rank_of_large hd hlarge, Binary64.ofRank_of_le (Nat.le_refl _),
        Binary64.ofRank_of_le hreach]
    · by_cases hsmall : d.exponent + (decimalDigits d.coefficient).length < -330
      · have hplaces := places_lt_pow (n := 743) hexp (by omega)
        rw [rank_of_small hsmall, rankOfPlaces_eq_zero hplaces]
      · rw [rank_within_reach hexp hd (Int.not_lt.1 hlarge) (Int.not_lt.1 hsmall)]

end Decimal

end DeskCalculator
