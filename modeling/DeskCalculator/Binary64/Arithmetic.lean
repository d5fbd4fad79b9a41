import DeskCalculator.Binary64.Rounding

/-!
# Arithmetic

Every operation on finite numbers is the exact result, rounded once.

* `Binary64.neg`, `Binary64.add`, `Binary64.sub`, `Binary64.mul`, `Binary64.div`;
* `Binary64.ofInt` : the number nearest to an integer;
* `Binary64.truncate` : the integer part of a finite number;
* `Binary64.integer?` : the integer that a number is, if it is one.
-/

namespace DeskCalculator

/-- The number of units in one. -/
abbrev unitsInOne : Nat := 2 ^ 1074

namespace Binary64

/-- The number with its sign flipped. -/
def neg : Binary64 → Binary64
  | .nan => .nan
  | .infinite negative => .infinite !negative
  | .finite negative rank => .finite (!negative) rank

@[simp] theorem neg_neg (x : Binary64) : x.neg.neg = x := by
  cases x <;> simp [neg]

@[simp] theorem isFinite_neg (x : Binary64) : x.neg.isFinite = x.isFinite := by
  cases x <;> rfl

/-- The sum, rounded; an exact zero is negative only when both operands are. -/
def add : Binary64 → Binary64 → Binary64
  | .nan, _ => .nan
  | _, .nan => .nan
  | .infinite s, .infinite t => if s = t then .infinite s else .nan
  | .infinite s, .finite _ _ => .infinite s
  | .finite _ _, .infinite t => .infinite t
  | .finite s a, .finite t b =>
    let sum := signedUnits s a + signedUnits t b
    if sum = 0 then zero (s && t) else ofRatio (decide (sum < 0)) sum.natAbs 1

/-- The difference, rounded. -/
def sub (x y : Binary64) : Binary64 := add x y.neg

/-- The product, rounded; the signs combine also when the product is zero. -/
def mul : Binary64 → Binary64 → Binary64
  | .nan, _ => .nan
  | _, .nan => .nan
  | .infinite s, .infinite t => .infinite (s != t)
  | .infinite s, .finite t b => if b.val = 0 then .nan else .infinite (s != t)
  | .finite s a, .infinite t => if a.val = 0 then .nan else .infinite (s != t)
  | .finite s a, .finite t b => ofRatio (s != t) (units a * units b) unitsInOne

/-- The quotient, rounded; a finite number over zero is infinite, and zero over zero is none. -/
def div : Binary64 → Binary64 → Binary64
  | .nan, _ => .nan
  | _, .nan => .nan
  | .infinite _, .infinite _ => .nan
  | .infinite s, .finite t _ => .infinite (s != t)
  | .finite s _, .infinite t => zero (s != t)
  | .finite s a, .finite t b =>
    if b.val = 0 then (if a.val = 0 then .nan else .infinite (s != t))
    else ofRatio (s != t) (units a * unitsInOne) (units b)

/-- The number nearest to an integer. -/
def ofInt (n : Int) : Binary64 := ofRatio (decide (n < 0)) (n.natAbs * unitsInOne) 1

/-- The integer part, toward zero; zero for what is not finite. -/
def truncate : Binary64 → Int
  | .finite negative rank =>
    let whole : Int := (units rank / unitsInOne : Nat)
    if negative then -whole else whole
  | _ => 0

/-- The integer that the number is, if it is one. -/
def integer? : Binary64 → Option Int
  | .finite negative rank =>
    if units rank % unitsInOne = 0 then some (truncate (.finite negative rank)) else none
  | _ => none

end Binary64

end DeskCalculator
