import DeskCalculator.Binary64.Basic

/-!
# Rounding to the nearest number

* `roundHalfEven num den` : the integer nearest to `num / den`, a half going to the even one, which
  is one of the two around it (`div_le_roundHalfEven`, `roundHalfEven_le_div_add_one`);
* `nearestRank num den` : the rank of the magnitude nearest to `num / den` units;
* `Binary64.ofRatio` : the number nearest to a signed ratio of units, an infinity beyond the last
  finite magnitude.
-/

namespace DeskCalculator

/-- The integer nearest to `num / den`; a half goes to the even neighbour. -/
def roundHalfEven (num den : Nat) : Nat :=
  let quotient := num / den
  let twice := 2 * (num % den)
  if twice < den ∨ (twice = den ∧ quotient % 2 = 0) then quotient else quotient + 1

@[simp] theorem roundHalfEven_one (n : Nat) : roundHalfEven n 1 = n := by
  simp [roundHalfEven, Nat.mod_one]

theorem div_le_roundHalfEven (num den : Nat) : num / den ≤ roundHalfEven num den := by
  simp only [roundHalfEven]
  split <;> omega

theorem roundHalfEven_le_div_add_one (num den : Nat) : roundHalfEven num den ≤ num / den + 1 := by
  simp only [roundHalfEven]
  split <;> omega

/-- The rank of the magnitude nearest to `num / den` units. The magnitude's block is found first;
within it ranks are evenly spaced, so rounding there is rounding to an integer, and a carry out of
the block is the first rank of the next one. -/
def nearestRank (num den : Nat) : Nat :=
  let block := (num / den).log2 - 52
  block * 2 ^ 52 + roundHalfEven num (den * 2 ^ block)

namespace Binary64

/-- The number of a sign and a rank; ranks past the finite ones are infinity. -/
def ofRank (negative : Bool) (rank : Nat) : Binary64 :=
  if h : rank < finiteRanks then .finite negative ⟨rank, h⟩ else .infinite negative

/-- The number nearest to plus or minus `num / den` units. -/
def ofRatio (negative : Bool) (num den : Nat) : Binary64 :=
  ofRank negative (nearestRank num den)

end Binary64

end DeskCalculator
