import DeskCalculator.Binary64.Arithmetic

/-!
# Arithmetic on finite numbers

* `Binary64.ofRatio_ne_nan` : what is rounded is a number or an infinity;
* `Binary64.add_ne_nan`, `Binary64.sub_ne_nan`, `Binary64.mul_ne_nan`, `Binary64.div_ne_nan` : finite
  operands never make a not-a-number, if no divisor is zero;
* `Binary64.exists_infinite` : what is neither finite nor a not-a-number is an infinity.
-/

namespace DeskCalculator.Binary64

theorem ofRank_ne_nan (negative : Bool) (rank : Nat) : ofRank negative rank ≠ .nan := by
  unfold ofRank
  split <;> simp

theorem ofRatio_ne_nan (negative : Bool) (num den : Nat) : ofRatio negative num den ≠ .nan :=
  ofRank_ne_nan _ _

variable {x y : Binary64}

theorem exists_finite (h : x.isFinite = true) : ∃ negative rank, x = .finite negative rank := by
  cases x with
  | finite negative rank => exact ⟨negative, rank, rfl⟩
  | _ => cases h

theorem exists_infinite (hfinite : x.isFinite = false) (hnan : x ≠ .nan) :
    ∃ negative, x = .infinite negative := by
  cases x with
  | nan => exact absurd rfl hnan
  | infinite negative => exact ⟨negative, rfl⟩
  | finite negative rank => cases hfinite

theorem add_ne_nan (hx : x.isFinite = true) (hy : y.isFinite = true) : x.add y ≠ .nan := by
  obtain ⟨s, a, rfl⟩ := exists_finite hx
  obtain ⟨t, b, rfl⟩ := exists_finite hy
  unfold add
  dsimp only
  split
  · simp [zero]
  · exact ofRatio_ne_nan _ _ _

theorem sub_ne_nan (hx : x.isFinite = true) (hy : y.isFinite = true) : x.sub y ≠ .nan :=
  add_ne_nan hx ((isFinite_neg y).trans hy)

theorem mul_ne_nan (hx : x.isFinite = true) (hy : y.isFinite = true) : x.mul y ≠ .nan := by
  obtain ⟨s, a, rfl⟩ := exists_finite hx
  obtain ⟨t, b, rfl⟩ := exists_finite hy
  exact ofRatio_ne_nan _ _ _

theorem div_ne_nan (hx : x.isFinite = true) (hy : y.isFinite = true) (hzero : y.isZero = false) :
    x.div y ≠ .nan := by
  obtain ⟨s, a, rfl⟩ := exists_finite hx
  obtain ⟨t, b, rfl⟩ := exists_finite hy
  have hb : ¬b.val = 0 := by simpa [isZero] using hzero
  unfold div
  dsimp only
  rw [if_neg hb]
  exact ofRatio_ne_nan _ _ _

end DeskCalculator.Binary64
