import DeskCalculator.Binary64.Rounding

/-!
# Decimal magnitudes

* `Decimal` : a magnitude `coefficient * 10 ^ exponent`;
* `Decimal.exact rank` : the exact decimal value of a binary64 magnitude;
* `Decimal.rank` : the rank of the nearest binary64 magnitude;
* `Decimal.toSignificant n` : the decimal rounded to at most `n` significant digits;
* `Decimal.digits`, `Decimal.point` : the significant digits without trailing zeros, and where the
  point stands among them.
-/

namespace DeskCalculator

/-- The magnitude `coefficient * 10 ^ exponent`. -/
structure Decimal where
  coefficient : Nat
  exponent : Int
  deriving DecidableEq

/-- The decimal digits of a number, the highest first. -/
abbrev decimalDigits (n : Nat) : List Char := Nat.toDigits 10 n

/-- The list without the zeros at its end. -/
def trimZeros (digits : List Char) : List Char :=
  (digits.reverse.dropWhile (· == '0')).reverse

namespace Decimal

/-- The exact value of a magnitude: one unit is `5 ^ 1074` in the 1074th decimal place. -/
def exact (rank : Nat) : Decimal := ⟨units rank * 5 ^ 1074, -1074⟩

/-- The rank of the binary64 magnitude nearest to the decimal, `finiteRanks` or more past the last
finite one. What lies beyond the reach of every magnitude is settled by counting digits, so that no
power of ten larger than the outcome can need is ever formed. -/
def rank (d : Decimal) : Nat :=
  let size := (decimalDigits d.coefficient).length
  if d.coefficient = 0 then 0
  else if 310 < d.exponent + size then finiteRanks
  else if d.exponent + size < -330 then 0
  else if 0 ≤ d.exponent then nearestRank (d.coefficient * 10 ^ d.exponent.toNat * 2 ^ 1074) 1
  else nearestRank (d.coefficient * 2 ^ 1074) (10 ^ (-d.exponent).toNat)

/-- The binary64 number nearest to the decimal with a sign. -/
def toBinary64 (negative : Bool) (d : Decimal) : Binary64 := Binary64.ofRank negative d.rank

/-- The decimal rounded to at most `n` significant digits, a half going to the even digit. -/
def toSignificant (n : Nat) (d : Decimal) : Decimal :=
  let excess := (decimalDigits d.coefficient).length - n
  ⟨roundHalfEven d.coefficient (10 ^ excess), d.exponent + excess⟩

/-- The significant digits, without zeros at the end. -/
def digits (d : Decimal) : List Char := trimZeros (decimalDigits d.coefficient)

/-- How many places after its first digit the decimal's point stands; it may lie outside the
digits. -/
def point (d : Decimal) : Int := (decimalDigits d.coefficient).length + d.exponent

/-- The decimal of digits before and after a point, times a power of ten. -/
def ofParts (whole fraction : List Char) (power : Int) : Decimal :=
  ⟨Nat.ofDigitChars 10 (whole ++ fraction) 0, power - fraction.length⟩

end Decimal

end DeskCalculator
