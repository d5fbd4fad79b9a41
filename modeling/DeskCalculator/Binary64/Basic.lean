/-!
# Binary64 numbers

* `Binary64` : not-a-number, an infinity, or a sign with the rank of a finite magnitude;
* `finiteRanks` : how many finite magnitudes there are, which is also the rank of infinity;
* `units` : the exact magnitude of a rank, counted in units of `2 ^ -1074`;
* `signedUnits` : the same with a sign;
* `Binary64.isFinite`, `Binary64.isZero`, `Binary64.isNegative` : the usual tests.
-/

namespace DeskCalculator

-- Powers are the core library's, also where another library has powers of its own.
attribute [default_instance 20000, scoped instance (high)] instPowNat

/-- The number of finite magnitudes. -/
abbrev finiteRanks : Nat := 2047 * 2 ^ 52

/-- A double-precision number. The finite magnitudes are numbered from zero upwards without gaps,
so that a rank is also the magnitude's bit pattern; all not-a-numbers are one. -/
inductive Binary64
  | nan
  | infinite (negative : Bool)
  | finite (negative : Bool) (rank : Fin finiteRanks)
  deriving DecidableEq

/-- The magnitude of a rank in units of `2 ^ -1074`, the step between the smallest magnitudes.
Each further block of `2 ^ 52` ranks has twice the step of the block before it. -/
def units (rank : Nat) : Nat :=
  if rank < 2 ^ 52 then rank else (2 ^ 52 + rank % 2 ^ 52) * 2 ^ (rank / 2 ^ 52 - 1)

/-- The value of a sign and a rank in units of `2 ^ -1074`. -/
def signedUnits (negative : Bool) (rank : Nat) : Int :=
  if negative then -(units rank : Int) else units rank

namespace Binary64

/-- Zero with the given sign. -/
def zero (negative : Bool) : Binary64 := .finite negative ⟨0, by decide⟩

/-- Neither infinite nor a not-a-number. -/
def isFinite : Binary64 → Bool
  | .finite _ _ => true
  | _ => false

/-- Zero of either sign. -/
def isZero : Binary64 → Bool
  | .finite _ rank => rank.val == 0
  | _ => false

/-- Whether the sign is set; a not-a-number has none. -/
def isNegative : Binary64 → Bool
  | .finite negative _ => negative
  | .infinite negative => negative
  | .nan => false

end Binary64

end DeskCalculator
