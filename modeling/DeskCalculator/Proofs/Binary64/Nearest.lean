import DeskCalculator.Binary64.Rounding

/-!
# The nearest rank

* `roundHalfEven_mul_right`, `nearestRank_mul_right`, `nearestRank_congr` : the nearest rank is that
  of a ratio, not of its terms;
* `nearestRank_units`, `nearestRank_units_mul` : the nearest rank of a magnitude is its own;
* `nearestRank_eq_zero`, `block_le_nearestRank` : what is nearest to zero, and what reaches a block
  of ranks; `place_lt`, `le_place` : the place in a block;
* `roundHalfEven_mono`, `nearestRank_mono` : rounding keeps the order;
* `nearestRank_of_near` : what is close enough below a magnitude has its rank.
-/

namespace DeskCalculator

/-! ## Rounding -/

theorem roundHalfEven_mul_right (num den : Nat) {m : Nat} (hm : 0 < m) :
    roundHalfEven (num * m) (den * m) = roundHalfEven num den := by
  have hquot : num * m / (den * m) = num / den := Nat.mul_div_mul_right num den hm
  have hrem : 2 * (num * m % (den * m)) = 2 * (num % den) * m := by
    rw [Nat.mul_mod_mul_right, Nat.mul_assoc]
  unfold roundHalfEven
  simp only [hquot, hrem, Nat.mul_lt_mul_right hm, Nat.mul_left_inj (Nat.ne_of_gt hm)]

theorem roundHalfEven_mul_self (n : Nat) {m : Nat} (hm : 0 < m) : roundHalfEven (n * m) m = n := by
  have h := roundHalfEven_mul_right n 1 hm
  rwa [Nat.one_mul, roundHalfEven_one] at h

theorem roundHalfEven_eq_zero {num den : Nat} (h : 2 * num < den) : roundHalfEven num den = 0 := by
  have hlt : num < den := by omega
  unfold roundHalfEven
  simp only [Nat.div_eq_of_lt hlt, Nat.mod_eq_of_lt hlt, h, true_or, if_true]

/-! ## Ratios -/

theorem nearestRank_mul_right (num den : Nat) {m : Nat} (hm : 0 < m) :
    nearestRank (num * m) (den * m) = nearestRank num den := by
  unfold nearestRank
  dsimp only
  rw [Nat.mul_div_mul_right num den hm, Nat.mul_right_comm den m, roundHalfEven_mul_right _ _ hm]

theorem nearestRank_congr {a b c d : Nat} (hb : 0 < b) (hd : 0 < d) (h : a * d = c * b) :
    nearestRank a b = nearestRank c d := by
  rw [← nearestRank_mul_right a b hd, h, Nat.mul_comm b d, nearestRank_mul_right c d hb]

theorem nearestRank_eq_zero {num den : Nat} (h : 2 * num < den) : nearestRank num den = 0 := by
  have hlt : num < den := by omega
  unfold nearestRank
  dsimp only
  rw [Nat.div_eq_of_lt hlt, show (0 : Nat).log2 - 52 = 0 by decide, Nat.pow_zero, Nat.mul_one,
    Nat.zero_mul, roundHalfEven_eq_zero h]

/-- Where a ratio falls in the block that its rank is computed in. -/
theorem place_lt (num den : Nat) : num / (den * 2 ^ ((num / den).log2 - 52)) < 2 ^ 53 := by
  rw [← Nat.div_div_eq_div_mul, Nat.div_lt_iff_lt_mul (Nat.two_pow_pos _), ← Nat.pow_add]
  exact Nat.lt_of_lt_of_le Nat.lt_log2_self (Nat.pow_le_pow_right (by decide) (by omega))

theorem le_place (num den : Nat) (h : 52 ≤ (num / den).log2) :
    2 ^ 52 ≤ num / (den * 2 ^ ((num / den).log2 - 52)) := by
  have hne : num / den ≠ 0 := by
    intro hzero
    rw [hzero, Nat.log2_zero] at h
    omega
  rw [← Nat.div_div_eq_div_mul, Nat.le_div_iff_mul_le (Nat.two_pow_pos _), ← Nat.pow_add,
    Nat.add_sub_cancel' h]
  exact Nat.log2_self_le hne

theorem block_le_nearestRank {num den block : Nat} (hden : 0 < den)
    (h : 2 ^ (block + 52) * den ≤ num) : (block + 1) * 2 ^ 52 ≤ nearestRank num den := by
  have hquot : 2 ^ (block + 52) ≤ num / den := (Nat.le_div_iff_mul_le hden).2 h
  have hne : num / den ≠ 0 := Nat.ne_of_gt (Nat.lt_of_lt_of_le (Nat.two_pow_pos _) hquot)
  have hlog : block + 52 ≤ (num / den).log2 := (Nat.le_log2 hne).2 hquot
  have hplace := le_place num den (by omega)
  have hround := div_le_roundHalfEven num (den * 2 ^ ((num / den).log2 - 52))
  unfold nearestRank
  dsimp only
  omega

/-! ## Magnitudes -/

theorem nearestRank_units (rank : Nat) : nearestRank (units rank) 1 = rank := by
  unfold nearestRank units
  dsimp only
  rw [Nat.div_one, Nat.one_mul]
  split
  · rename_i hsmall
    have hlog : rank.log2 - 52 = 0 := by
      rcases Nat.eq_zero_or_pos rank with rfl | hpos
      · rfl
      · have hlt := (Nat.log2_lt (Nat.ne_of_gt hpos)).2 hsmall
        omega
    rw [hlog, Nat.pow_zero, roundHalfEven_one, Nat.zero_mul, Nat.zero_add]
  · rename_i hlarge
    -- the rank's block and its place in the block
    obtain ⟨block, hblock⟩ : ∃ block, rank / 2 ^ 52 = block + 1 := ⟨rank / 2 ^ 52 - 1, by omega⟩
    have hplace : rank % 2 ^ 52 < 2 ^ 52 := Nat.mod_lt _ (by decide)
    have hlog : ((2 ^ 52 + rank % 2 ^ 52) * 2 ^ block).log2 = 52 + block := by
      have hpow := Nat.two_pow_pos block
      rw [Nat.log2_eq_iff (Nat.ne_of_gt (Nat.mul_pos (by omega) hpow)),
        show 52 + block + 1 = 53 + block by omega, Nat.pow_add, Nat.pow_add]
      exact ⟨Nat.mul_le_mul_right _ (by omega), Nat.mul_lt_mul_of_pos_right (by omega) hpow⟩
    rw [hblock, Nat.add_sub_cancel, hlog, Nat.add_sub_cancel_left,
      roundHalfEven_mul_self _ (Nat.two_pow_pos block)]
    omega

theorem nearestRank_units_mul (rank : Nat) {m : Nat} (hm : 0 < m) :
    nearestRank (units rank * m) m = rank := by
  have h := nearestRank_mul_right (units rank) 1 hm
  rwa [Nat.one_mul, nearestRank_units] at h

/-! ## Order -/

/-- What is rounded lies at most half a step off. -/
theorem mul_roundHalfEven_le (num den : Nat) : 2 * (den * roundHalfEven num den) ≤ 2 * num + den := by
  have hdiv := Nat.div_add_mod num den
  unfold roundHalfEven
  dsimp only
  split
  · omega
  · rw [Nat.mul_add, Nat.mul_one]
    omega

theorem le_mul_roundHalfEven (num : Nat) {den : Nat} (hden : 0 < den) :
    2 * num ≤ 2 * (den * roundHalfEven num den) + den := by
  have hdiv := Nat.div_add_mod num den
  have hmod := Nat.mod_lt num hden
  unfold roundHalfEven
  dsimp only
  split
  · omega
  · rw [Nat.mul_add, Nat.mul_one]
    omega

theorem roundHalfEven_mono {a b : Nat} (h : a ≤ b) (den : Nat) :
    roundHalfEven a den ≤ roundHalfEven b den := by
  rcases Nat.lt_or_eq_of_le (Nat.div_le_div_right h : a / den ≤ b / den) with hlt | heq
  · calc roundHalfEven a den ≤ a / den + 1 := roundHalfEven_le_div_add_one a den
      _ ≤ b / den := hlt
      _ ≤ roundHalfEven b den := div_le_roundHalfEven b den
  · have ha := Nat.div_add_mod a den
    have hb := Nat.div_add_mod b den
    rw [heq] at ha
    unfold roundHalfEven
    dsimp only
    rw [heq]
    split <;> split <;> omega

/-- Within a block the rank does not pass the first of the next block but one. -/
theorem nearestRank_le_block (num den : Nat) :
    nearestRank num den ≤ ((num / den).log2 - 52 + 2) * 2 ^ 52 := by
  have hplace := place_lt num den
  have hround := roundHalfEven_le_div_add_one num (den * 2 ^ ((num / den).log2 - 52))
  unfold nearestRank
  dsimp only
  omega

theorem nearestRank_mono {a b den : Nat} (hden : 0 < den) (h : a ≤ b) :
    nearestRank a den ≤ nearestRank b den := by
  have hquot : a / den ≤ b / den := Nat.div_le_div_right h
  rcases Nat.lt_or_ge ((a / den).log2 - 52) ((b / den).log2 - 52) with hlt | hge
  · have hne : b / den ≠ 0 := by
      intro hzero
      rw [hzero, Nat.log2_zero] at hlt
      omega
    have hreach : 2 ^ ((b / den).log2 - 52 + 52) * den ≤ b := by
      rw [Nat.sub_add_cancel (by omega)]
      exact (Nat.le_div_iff_mul_le hden).1 (Nat.log2_self_le hne)
    calc nearestRank a den ≤ ((a / den).log2 - 52 + 2) * 2 ^ 52 := nearestRank_le_block a den
      _ ≤ ((b / den).log2 - 52 + 1) * 2 ^ 52 := Nat.mul_le_mul_right _ (by omega)
      _ ≤ nearestRank b den := block_le_nearestRank hden hreach
  · have hlog : (a / den).log2 ≤ (b / den).log2 := by
      rcases Nat.eq_zero_or_pos (a / den) with hzero | hpos
      · rw [hzero, Nat.log2_zero]
        exact Nat.zero_le _
      · exact (Nat.le_log2 (by omega)).2 (Nat.le_trans (Nat.log2_self_le (by omega)) hquot)
    have hblock : (a / den).log2 - 52 = (b / den).log2 - 52 := by omega
    unfold nearestRank
    dsimp only
    rw [hblock]
    exact Nat.add_le_add_left (roundHalfEven_mono h _) _

/-! ## Close to a magnitude -/

theorem units_of_block {rank block : Nat} (h : rank / 2 ^ 52 = block + 1) :
    units rank = (2 ^ 52 + rank % 2 ^ 52) * 2 ^ block := by
  unfold units
  rw [if_neg (by omega), h, Nat.add_sub_cancel]

/-- The rank of a ratio in a block, by its place there. -/
theorem nearestRank_of_block {num block : Nat} (hlow : 2 ^ 52 * 4 ≤ num) (hhigh : num < 2 ^ 53 * 4) :
    nearestRank (num * 2 ^ block) 4 = block * 2 ^ 52 + roundHalfEven num 4 := by
  have hpow := Nat.two_pow_pos block
  have hlog : (num * 2 ^ block / 4).log2 = 52 + block := by
    have hbelow : 2 ^ (52 + block) ≤ num * 2 ^ block / 4 := by
      rw [Nat.le_div_iff_mul_le (by decide), Nat.pow_add, Nat.mul_right_comm]
      exact Nat.mul_le_mul_right _ hlow
    have habove : num * 2 ^ block / 4 < 2 ^ (52 + block + 1) := by
      rw [Nat.div_lt_iff_lt_mul (by decide), Nat.add_right_comm, Nat.pow_add, Nat.mul_right_comm]
      exact Nat.mul_lt_mul_of_pos_right hhigh hpow
    exact (Nat.log2_eq_iff (Nat.ne_of_gt (Nat.lt_of_lt_of_le (Nat.two_pow_pos _) hbelow))).2
      ⟨hbelow, habove⟩
  unfold nearestRank
  dsimp only
  rw [hlog, Nat.add_sub_cancel_left, roundHalfEven_mul_right _ _ hpow]

/-- A quarter of a step below a magnitude still goes to it: also at the start of a block, where the
step below is half as long. -/
theorem nearestRank_quarter_below {rank block : Nat} (h : rank / 2 ^ 52 = block + 1) :
    nearestRank ((4 * (2 ^ 52 + rank % 2 ^ 52) - 1) * 2 ^ block) 4 = rank := by
  have hplace : rank % 2 ^ 52 < 2 ^ 52 := Nat.mod_lt _ (by decide)
  have hrank : rank = (block + 1) * 2 ^ 52 + rank % 2 ^ 52 := by omega
  generalize rank % 2 ^ 52 = place at hplace hrank ⊢
  rcases Nat.eq_zero_or_pos place with rfl | hpos
  · cases block with
    | zero =>
      subst hrank
      decide
    | succ lower =>
      have hten : (4 * (2 ^ 52 + 0) - 1) * 2 ^ (lower + 1) = (8 * 2 ^ 52 - 2) * 2 ^ lower := by
        rw [Nat.pow_succ 2 lower, Nat.mul_comm (2 ^ lower), ← Nat.mul_assoc]
      have hround : roundHalfEven (8 * 2 ^ 52 - 2) 4 = 2 * 2 ^ 52 := by decide
      rw [hten, nearestRank_of_block (by decide) (by decide), hround]
      omega
  · have hround : roundHalfEven (4 * (2 ^ 52 + place) - 1) 4 = 2 ^ 52 + place := by
      have hquot : (4 * (2 ^ 52 + place) - 1) / 4 = 2 ^ 52 + place - 1 := by omega
      have hrem : (4 * (2 ^ 52 + place) - 1) % 4 = 3 := by omega
      unfold roundHalfEven
      dsimp only
      rw [hquot, hrem, if_neg (by omega)]
      omega
    rw [nearestRank_of_block (by omega) (by omega), hround]
    omega

/-- What lies a quarter of a step below a magnitude at most goes to it. -/
theorem nearestRank_of_near {rank block num den : Nat} (hden : 0 < den)
    (h : rank / 2 ^ 52 = block + 1) (hle : num ≤ units rank * den)
    (hnear : 4 * (units rank * den) ≤ 4 * num + 2 ^ block * den) : nearestRank num den = rank := by
  have hupper := nearestRank_mono hden hle
  rw [nearestRank_units_mul rank hden] at hupper
  have hlower : rank ≤ nearestRank num den := by
    calc rank = nearestRank ((4 * (2 ^ 52 + rank % 2 ^ 52) - 1) * 2 ^ block * den) (4 * den) := by
          rw [nearestRank_mul_right _ _ hden, nearestRank_quarter_below h]
      _ ≤ nearestRank (num * 4) (den * 4) := by
          rw [Nat.mul_comm 4 den]
          refine nearestRank_mono (Nat.mul_pos hden (by decide)) ?_
          rw [units_of_block h] at hnear
          rw [Nat.sub_mul, Nat.sub_mul, Nat.one_mul, Nat.mul_assoc 4, Nat.mul_assoc 4]
          omega
      _ = nearestRank num den := nearestRank_mul_right _ _ (by decide)
  omega

end DeskCalculator
