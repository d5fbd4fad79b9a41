import DeskCalculator.Proofs.Binary64.Nearest
import Mathlib.Algebra.Order.Field.Basic
import Mathlib.Algebra.Order.Field.Rat
import Mathlib.Algebra.Order.Ring.Abs
import Mathlib.Tactic.FieldSimp
import Mathlib.Tactic.Linarith
import Mathlib.Tactic.NormNum
import Mathlib.Tactic.Ring

/-!
# Correct rounding

* `roundHalfEven_nearest`, `roundHalfEven_even_of_tie` : what rounding to an integer is for;
* `magnitude` : the exact magnitude of a rank; `magnitude_lt_magnitude_iff` : its order is theirs;
* `IsNearestRank x rank` : no magnitude is nearer to `x`, and of two that are equally near the rank
  is the even one; `IsNearestRank.eq` : there is one such rank at most;
* `isNearestRank_nearestRank` : the rank that is computed is such a one;
* `IsNearestRank.lt_finiteRanks_iff` : it is a finite one exactly below `2 ^ 1024 - 2 ^ 970`.
-/

namespace DeskCalculator

/-! ## Rounding to an integer -/

section

variable {num den : Nat}

theorem abs_sub_roundHalfEven (hden : 0 < den) :
    |(num : ℚ) / den - roundHalfEven num den| =
      |(num : ℚ) - den * roundHalfEven num den| / den := by
  have hpos : (0 : ℚ) < den := by exact_mod_cast hden
  have hsplit : (num : ℚ) / den - roundHalfEven num den =
      (num - den * roundHalfEven num den) / den := by
    field_simp
  rw [hsplit, abs_div, abs_of_pos hpos]

theorem abs_sub_roundHalfEven_le (num : Nat) (hden : 0 < den) :
    |(num : ℚ) / den - roundHalfEven num den| ≤ 1 / 2 := by
  have hpos : (0 : ℚ) < den := by exact_mod_cast hden
  have hlow : (2 : ℚ) * (den * roundHalfEven num den) ≤ 2 * num + den := by
    exact_mod_cast mul_roundHalfEven_le num den
  have hhigh : (2 : ℚ) * num ≤ 2 * (den * roundHalfEven num den) + den := by
    exact_mod_cast le_mul_roundHalfEven num hden
  rw [abs_sub_roundHalfEven hden, div_le_iff₀ hpos, abs_le]
  constructor <;> linarith

/-- A half goes to the even neighbour. -/
theorem roundHalfEven_even (hden : 0 < den)
    (h : |(num : ℚ) / den - roundHalfEven num den| = 1 / 2) : roundHalfEven num den % 2 = 0 := by
  have hpos : (0 : ℚ) < den := by exact_mod_cast hden
  have hdiv := Nat.div_add_mod num den
  have hmod := Nat.mod_lt num hden
  rw [abs_sub_roundHalfEven hden, div_eq_iff (ne_of_gt hpos), abs_eq (by linarith)] at h
  have hhalf : 2 * num = 2 * (den * roundHalfEven num den) + den ∨
      2 * (den * roundHalfEven num den) = 2 * num + den := by
    rcases h with h | h
    · left
      have heq : (2 : ℚ) * num = 2 * (den * roundHalfEven num den) + den := by linarith
      exact_mod_cast heq
    · right
      have heq : (2 : ℚ) * (den * roundHalfEven num den) = 2 * num + den := by linarith
      exact_mod_cast heq
  unfold roundHalfEven at hhalf ⊢
  dsimp only at hhalf ⊢
  split at hhalf
  · rename_i hdown
    rw [if_pos hdown]
    omega
  · rename_i hup
    rw [Nat.mul_add, Nat.mul_one] at hhalf
    rw [if_neg hup]
    omega

theorem one_le_abs_sub_add {k : Nat} (hk : k ≠ roundHalfEven num den) (x : ℚ) :
    1 ≤ |x - k| + |x - roundHalfEven num den| := by
  have hint : (1 : Int) ≤ |(k : Int) - roundHalfEven num den| := Int.one_le_abs (by omega)
  calc (1 : ℚ) ≤ |(k : ℚ) - roundHalfEven num den| := by exact_mod_cast hint
    _ ≤ |(k : ℚ) - x| + |x - roundHalfEven num den| := abs_sub_le _ _ _
    _ = |x - k| + |x - roundHalfEven num den| := by rw [abs_sub_comm (k : ℚ) x]

/-- No integer is nearer. -/
theorem roundHalfEven_nearest (hden : 0 < den) (k : Nat) :
    |(num : ℚ) / den - roundHalfEven num den| ≤ |(num : ℚ) / den - k| := by
  by_cases hk : k = roundHalfEven num den
  · rw [hk]
  · have hhalf := abs_sub_roundHalfEven_le num hden
    have hapart := one_le_abs_sub_add hk (num / den)
    linarith

/-- An integer that is equally near makes it a half. -/
theorem roundHalfEven_even_of_tie (hden : 0 < den) {k : Nat} (hk : k ≠ roundHalfEven num den)
    (htie : |(num : ℚ) / den - k| = |(num : ℚ) / den - roundHalfEven num den|) :
    roundHalfEven num den % 2 = 0 := by
  have hhalf := abs_sub_roundHalfEven_le num hden
  have hapart := one_le_abs_sub_add hk (num / den)
  exact roundHalfEven_even hden (by linarith)

end

/-! ## Magnitudes on the grid of a block -/

theorem units_strictMono : StrictMono units := by
  intro a b hlt
  by_contra hge
  have hmono := nearestRank_mono Nat.one_pos (Nat.not_lt.1 hge)
  rw [nearestRank_units, nearestRank_units] at hmono
  omega

/-- A rank is given by a block and a place there, which may be the first of the next block. -/
theorem units_block_add {block place : Nat} (hplace : place ≤ 2 ^ 53)
    (h : block = 0 ∨ 2 ^ 52 ≤ place) : units (block * 2 ^ 52 + place) = place * 2 ^ block := by
  rcases Nat.lt_or_ge place (2 ^ 52) with hlow | hhigh
  · obtain rfl := h.resolve_right (Nat.not_le.2 hlow)
    unfold units
    rw [Nat.zero_mul, Nat.zero_add, if_pos hlow, Nat.pow_zero, Nat.mul_one]
  · rcases Nat.lt_or_eq_of_le hplace with hlt | rfl
    · have hrank : (block * 2 ^ 52 + place) / 2 ^ 52 = block + 1 := by omega
      rw [units_of_block hrank,
        show 2 ^ 52 + (block * 2 ^ 52 + place) % 2 ^ 52 = place by omega]
    · have hrank : (block * 2 ^ 52 + 2 ^ 53) / 2 ^ 52 = block + 1 + 1 := by omega
      rw [units_of_block hrank,
        show 2 ^ 52 + (block * 2 ^ 52 + 2 ^ 53) % 2 ^ 52 = 2 ^ 52 by omega, Nat.pow_succ 2 block,
        Nat.mul_comm (2 ^ block), ← Nat.mul_assoc]

/-- Every magnitude is on the grid of a block or below the block. -/
theorem units_grid (rank block : Nat) :
    (∃ place, units rank = place * 2 ^ block) ∨ block ≠ 0 ∧ units rank < 2 ^ 52 * 2 ^ block := by
  by_cases hzero : block = 0
  · exact .inl ⟨units rank, by rw [hzero, Nat.pow_zero, Nat.mul_one]⟩
  rcases Nat.lt_or_ge rank ((block + 1) * 2 ^ 52) with hbelow | habove
  · right
    have hlt := units_strictMono hbelow
    rw [Nat.succ_mul, units_block_add (by decide) (.inr (Nat.le_refl _))] at hlt
    exact ⟨hzero, hlt⟩
  · left
    obtain ⟨more, hmore⟩ : ∃ more, rank / 2 ^ 52 = block + more + 1 :=
      ⟨rank / 2 ^ 52 - (block + 1), by omega⟩
    refine ⟨(2 ^ 52 + rank % 2 ^ 52) * 2 ^ more, ?_⟩
    rw [units_of_block hmore, Nat.add_comm block, Nat.pow_add, Nat.mul_assoc]

/-- The block that a rank is computed in, and its magnitude by the place there. -/
theorem exists_block_nearestRank (num den : Nat) : ∃ block,
    (block = 0 ∨ 2 ^ 52 ≤ num / (den * 2 ^ block)) ∧
    nearestRank num den = block * 2 ^ 52 + roundHalfEven num (den * 2 ^ block) ∧
    units (nearestRank num den) = roundHalfEven num (den * 2 ^ block) * 2 ^ block := by
  have hhigh := place_lt num den
  have hlow : (num / den).log2 - 52 = 0 ∨ 2 ^ 52 ≤ num / (den * 2 ^ ((num / den).log2 - 52)) := by
    rcases Nat.lt_or_ge (num / den).log2 52 with hsmall | hlarge
    · left
      omega
    · exact .inr (le_place num den hlarge)
  have hrank : nearestRank num den = ((num / den).log2 - 52) * 2 ^ 52 +
      roundHalfEven num (den * 2 ^ ((num / den).log2 - 52)) := rfl
  generalize (num / den).log2 - 52 = block at hhigh hlow hrank
  have hfloor := div_le_roundHalfEven num (den * 2 ^ block)
  have hceil := roundHalfEven_le_div_add_one num (den * 2 ^ block)
  refine ⟨block, hlow, hrank, ?_⟩
  rw [hrank]
  apply units_block_add
  · omega
  · omega

/-! ## The nearest magnitude -/

/-- The exact magnitude of a rank. -/
def magnitude (rank : Nat) : ℚ := units rank / 2 ^ 1074

theorem magnitude_nonneg (rank : Nat) : 0 ≤ magnitude rank := by
  unfold magnitude
  positivity

theorem magnitude_zero : magnitude 0 = 0 := by
  rw [magnitude, show units 0 = 0 from rfl, Nat.cast_zero, zero_div]

theorem magnitude_lt_magnitude_iff {a b : Nat} : magnitude a < magnitude b ↔ a < b := by
  unfold magnitude
  rw [div_lt_div_iff_of_pos_right (by positivity), Nat.cast_lt, units_strictMono.lt_iff_lt]

theorem magnitude_le_magnitude_iff {a b : Nat} : magnitude a ≤ magnitude b ↔ a ≤ b := by
  rw [← not_lt, magnitude_lt_magnitude_iff, not_lt]

theorem magnitude_of_block {rank block : Nat} (h : rank / 2 ^ 52 = block + 1074 + 1) :
    magnitude rank = (2 ^ 52 + rank % 2 ^ 52 : Nat) * 2 ^ block := by
  have hunit : (2 : ℚ) ^ 1074 ≠ 0 := by positivity
  rw [magnitude, units_of_block h, Nat.pow_add, ← Nat.mul_assoc, Nat.cast_mul, Nat.cast_mul]
  simp only [Nat.cast_pow, Nat.cast_ofNat]
  rw [mul_div_cancel_right₀ _ hunit]

/-- No magnitude is nearer to `x` than that of the rank, and of two that are equally near it is the
one of even rank. The ranks go on past the finite ones, as if exponents had no limit. -/
structure IsNearestRank (x : ℚ) (rank : Nat) : Prop where
  nearest : ∀ other, |x - magnitude rank| ≤ |x - magnitude other|
  even : ∀ other, other ≠ rank → |x - magnitude other| = |x - magnitude rank| → rank % 2 = 0

/-- Rounding in a block, in steps of the block: `x` is at `y`, and what is rounded is at `r`. -/
theorem grid_nearest {x y : ℚ} {r block : Nat} (hx : x = y * 2 ^ block)
    (hnear : ∀ k : Nat, |y - r| ≤ |y - k|) (hlow : block = 0 ∨ 2 ^ 52 ≤ y) (other : Nat) :
    |x - (r * 2 ^ block : Nat)| ≤ |x - units other| ∧
      (|x - units other| = |x - (r * 2 ^ block : Nat)| →
        ∃ k : Nat, units other = k * 2 ^ block ∧ |y - k| = |y - r|) := by
  have hpos : (0 : ℚ) < 2 ^ block := by positivity
  have hscale : ∀ k : Nat, |x - (k * 2 ^ block : Nat)| = |y - k| * 2 ^ block := by
    intro k
    rw [hx, Nat.cast_mul, Nat.cast_pow, Nat.cast_ofNat, ← sub_mul, abs_mul, abs_of_pos hpos]
  rcases units_grid other block with ⟨k, hk⟩ | ⟨hblock, hbelow⟩
  · rw [hk, hscale, hscale]
    refine ⟨mul_le_mul_of_nonneg_right (hnear k) (le_of_lt hpos), fun htie => ⟨k, rfl, ?_⟩⟩
    exact mul_right_cancel₀ (ne_of_gt hpos) htie
  · -- what lies below the block is further away than the first of the block
    have hy := hlow.resolve_left hblock
    have hfirst : |y - r| ≤ y - 2 ^ 52 := by
      have hat := hnear (2 ^ 52)
      rwa [Nat.cast_pow, Nat.cast_ofNat, abs_of_nonneg (show 0 ≤ y - 2 ^ 52 by linarith)] at hat
    have hbelow' : (units other : ℚ) < 2 ^ 52 * 2 ^ block := by exact_mod_cast hbelow
    have hfar : |y - r| * 2 ^ block < |x - units other| := by
      calc |y - r| * 2 ^ block ≤ (y - 2 ^ 52) * 2 ^ block :=
            mul_le_mul_of_nonneg_right hfirst (le_of_lt hpos)
        _ = x - 2 ^ 52 * 2 ^ block := by rw [hx, sub_mul]
        _ < x - units other := by linarith
        _ ≤ |x - units other| := le_abs_self _
    rw [hscale]
    exact ⟨le_of_lt hfar, fun htie => absurd htie (ne_of_gt hfar)⟩

/-- The rank that is computed for a ratio of units is the nearest one. -/
theorem isNearestRank_nearestRank (num : Nat) {den : Nat} (hden : 0 < den) :
    IsNearestRank ((num : ℚ) / den / 2 ^ 1074) (nearestRank num den) := by
  have hunit : (0 : ℚ) < 2 ^ 1074 := by positivity
  have hscale : ∀ rank, |(num : ℚ) / den / 2 ^ 1074 - magnitude rank| =
      |(num : ℚ) / den - units rank| / 2 ^ 1074 := by
    intro rank
    rw [magnitude, ← sub_div, abs_div, abs_of_pos hunit]
  obtain ⟨block, hlow, hrank, hunits⟩ := exists_block_nearestRank num den
  have hstep : 0 < den * 2 ^ block := Nat.mul_pos hden (Nat.two_pow_pos block)
  have hx : (num : ℚ) / den = num / (den * 2 ^ block : Nat) * 2 ^ block := by
    push_cast
    field_simp
  have hfar : block = 0 ∨ (2 : ℚ) ^ 52 ≤ num / (den * 2 ^ block : Nat) := by
    refine hlow.imp_right fun hplace => ?_
    rw [le_div_iff₀ (by exact_mod_cast hstep)]
    exact_mod_cast (Nat.le_div_iff_mul_le hstep).1 hplace
  have hgrid := grid_nearest hx (roundHalfEven_nearest hstep) hfar
  rw [← hunits] at hgrid
  constructor
  · intro other
    rw [hscale, hscale]
    exact div_le_div_of_nonneg_right (hgrid other).1 (le_of_lt hunit)
  · intro other hother htie
    rw [hscale, hscale, div_left_inj' (ne_of_gt hunit)] at htie
    obtain ⟨k, hk, hsame⟩ := (hgrid other).2 htie
    have hne : k ≠ roundHalfEven num (den * 2 ^ block) := by
      rintro rfl
      exact hother (units_strictMono.injective (hk.trans hunits.symm))
    have heven := roundHalfEven_even_of_tie hstep hne hsame
    rw [hrank]
    omega

/-! ## Uniqueness and overflow -/

theorem abs_sub_le_abs_sub_iff {x a b : ℚ} (h : a < b) : |x - a| ≤ |x - b| ↔ 2 * x ≤ a + b := by
  rw [← sq_le_sq]
  constructor <;> intro <;> nlinarith

theorem abs_sub_le_abs_sub_iff' {x a b : ℚ} (h : a < b) : |x - b| ≤ |x - a| ↔ a + b ≤ 2 * x := by
  rw [← sq_le_sq]
  constructor <;> intro <;> nlinarith

/-- The last finite magnitude and the one that would come next are equally far from this bound. -/
theorem magnitude_add_magnitude_finiteRanks :
    magnitude (finiteRanks - 1) + magnitude finiteRanks = 2 * (2 ^ 1024 - 2 ^ 970) := by
  rw [magnitude_of_block (show (finiteRanks - 1) / 2 ^ 52 = 971 + 1074 + 1 by decide),
    magnitude_of_block (show finiteRanks / 2 ^ 52 = 972 + 1074 + 1 by decide),
    show 2 ^ 52 + (finiteRanks - 1) % 2 ^ 52 = 2 ^ 53 - 1 by decide,
    show 2 ^ 52 + finiteRanks % 2 ^ 52 = 2 ^ 52 by decide,
    show 971 = 970 + 1 from rfl, show 972 = 970 + 2 from rfl, show 1024 = 970 + 54 from rfl,
    pow_add, pow_add, pow_add]
  generalize (2 : ℚ) ^ 970 = step
  norm_num
  ring

namespace IsNearestRank

variable {x : ℚ} {a b : Nat}

theorem two_mul_le (ha : IsNearestRank x a) (hab : a < b) : 2 * x ≤ magnitude a + magnitude b :=
  (abs_sub_le_abs_sub_iff (magnitude_lt_magnitude_iff.2 hab)).1 (ha.nearest b)

theorem le_two_mul (hb : IsNearestRank x b) (hab : a < b) : magnitude a + magnitude b ≤ 2 * x :=
  (abs_sub_le_abs_sub_iff' (magnitude_lt_magnitude_iff.2 hab)).1 (hb.nearest a)

/-- Two ranks that are both nearest are both even, but then one between them is nearer. -/
theorem not_lt (ha : IsNearestRank x a) (hb : IsNearestRank x b) : ¬a < b := by
  intro hab
  have htie : |x - magnitude b| = |x - magnitude a| := le_antisymm (hb.nearest a) (ha.nearest b)
  have heven := ha.even b (by omega) htie
  have heven' := hb.even a (by omega) htie.symm
  have hmid := ha.two_mul_le (Nat.lt_succ_self a)
  have hfull := hb.le_two_mul hab
  have hbetween := magnitude_lt_magnitude_iff.2 (show a + 1 < b by omega)
  linarith

theorem eq (ha : IsNearestRank x a) (hb : IsNearestRank x b) : a = b :=
  Nat.le_antisymm (Nat.not_lt.1 (hb.not_lt ha)) (Nat.not_lt.1 (ha.not_lt hb))

/-- **Overflow**: the nearest rank is finite exactly below half a step past the last finite one. -/
theorem lt_finiteRanks_iff (ha : IsNearestRank x a) : a < finiteRanks ↔ x < 2 ^ 1024 - 2 ^ 970 := by
  have hbound := magnitude_add_magnitude_finiteRanks
  generalize (2 ^ 1024 - 2 ^ 970 : ℚ) = bound at hbound ⊢
  constructor
  · intro hlt
    have hlast : magnitude a ≤ magnitude (finiteRanks - 1) :=
      magnitude_le_magnitude_iff.2 (Nat.le_sub_one_of_lt hlt)
    have hle := ha.two_mul_le hlt
    refine lt_of_le_of_ne (by linarith) fun hx => ?_
    -- at the bound itself the last finite rank would have to be even
    have hrank : a = finiteRanks - 1 := by
      refine Nat.le_antisymm (Nat.le_sub_one_of_lt hlt) (magnitude_le_magnitude_iff.1 ?_)
      linarith
    have htie : |x - magnitude finiteRanks| = |x - magnitude a| := by
      refine le_antisymm ?_ (ha.nearest _)
      rw [abs_sub_le_abs_sub_iff' (magnitude_lt_magnitude_iff.2 hlt), hrank]
      linarith
    have heven := ha.even finiteRanks (by omega) htie
    rw [hrank] at heven
    exact absurd heven (by decide)
  · intro hx
    by_contra hge
    have hover : finiteRanks ≤ a := Nat.not_lt.1 hge
    have hle := ha.le_two_mul (Nat.lt_of_lt_of_le (by decide : finiteRanks - 1 < finiteRanks) hover)
    have hnext : magnitude finiteRanks ≤ magnitude a := magnitude_le_magnitude_iff.2 hover
    linarith

end IsNearestRank

end DeskCalculator
