import DeskCalculator.Binary64.Basic

/-!
# Bit patterns

* `Binary64.toBits` : the 64-bit pattern, a sign bit above the rank;
* `Binary64.ofBits` : the number of a pattern; every pattern past infinity is not-a-number
  (`Binary64.ofBits_toBits`).
-/

namespace DeskCalculator.Binary64

/-- The sign bit's weight. -/
abbrev signBit : Nat := 2 ^ 63

/-- The 64-bit pattern as a number. -/
def toBits : Binary64 → Nat
  | .nan => finiteRanks + 2 ^ 51
  | .infinite negative => (if negative then signBit else 0) + finiteRanks
  | .finite negative rank => (if negative then signBit else 0) + rank

/-- The number of a 64-bit pattern. -/
def ofBits (bits : Nat) : Binary64 :=
  let negative := decide (signBit ≤ bits)
  let rank := bits % signBit
  if h : rank < finiteRanks then .finite negative ⟨rank, h⟩
  else if rank = finiteRanks then .infinite negative
  else .nan

@[simp] theorem ofBits_toBits (x : Binary64) : ofBits x.toBits = x := by
  cases x with
  | nan => decide
  | infinite negative => cases negative <;> decide
  | finite negative rank =>
    have hr : rank.val < 2047 * 2 ^ 52 := rank.isLt
    have hrank : rank.val < 2 ^ 63 := by omega
    cases negative
    · simp [ofBits, toBits, Nat.mod_eq_of_lt hrank]
      omega
    · simp [ofBits, toBits, Nat.mod_eq_of_lt hrank]

end DeskCalculator.Binary64
