import DeskCalculator.Decimal.Basic

/-!
# The shortest decimal that reads back

* `readsBack` : whether a magnitude has a given rank as its nearest;
* `gridPoint` : on a grid of decimals, the neighbour of a magnitude that reads back, the nearer one
  first;
* `Decimal.shortest` : the point of the coarsest grid that has one.
-/

namespace DeskCalculator

/-- Whether `magnitude`, counted in the 1074th decimal place, has the rank as its nearest. -/
def readsBack (rank magnitude : Nat) : Bool := nearestRank magnitude (5 ^ 1074) == rank

/-- The neighbour of a rank's exact `value` among the multiples of `10 ^ excess` that reads back as
the rank, if there is one. Of two the nearer is taken; a value halfway between goes to the even
one. -/
def gridPoint (rank value excess : Nat) : Option Decimal :=
  let step := 10 ^ excess
  let lower := value / step
  let near := roundHalfEven value step
  let far := if near = lower then lower + 1 else lower
  if readsBack rank (near * step) then some ⟨near, excess - 1074⟩
  else if readsBack rank (far * step) then some ⟨far, excess - 1074⟩
  else none

namespace Decimal

/-- The decimal with the fewest significant digits among those that read back as the magnitude, and
of these the nearest. The last grid holds the exact value, so there always is one. -/
def shortest (rank : Nat) : Decimal :=
  let value := (exact rank).coefficient
  let size := (decimalDigits value).length
  ((List.range size).findSome? fun i => gridPoint rank value (size - (i + 1))).getD (exact rank)

end Decimal

end DeskCalculator
