import DeskCalculator.Binary64.Basic
import DeskCalculator.Decimal.Shortest

/-!
# Layouts of decimals

* `positional` : digits around a point, with zeros as far as the point needs them;
* `exponential` : one digit, the rest after a point, and a power of ten;
* `signed` : a minus sign in front of a negative number's text;
* `Binary64.numeral` : the numeral of a number as programs exchange it.
-/

namespace DeskCalculator

/-- The digits with the point after the first `point` of them: zeros fill up to the units on either
side, and there is no point without a fraction. -/
def positional (digits : List Char) (point : Int) : List Char :=
  if point ≤ 0 then
    '0' :: '.' :: (List.replicate (-point).toNat '0' ++ digits)
  else
    let before := point.toNat
    if digits.length ≤ before then
      digits ++ List.replicate (before - digits.length) '0'
    else
      digits.take before ++ '.' :: digits.drop before

/-- The power of ten of an exponential layout: `e`, a sign, and at least `width` digits. -/
def exponentText (width : Nat) (power : Int) : List Char :=
  let magnitude := decimalDigits power.natAbs
  let padding := List.replicate (width - magnitude.length) '0'
  'e' :: (if power < 0 then '-' else '+') :: (padding ++ magnitude)

/-- The first digit, a point and the other digits if there are others, and the power of ten. -/
def exponential (width : Nat) (digits : List Char) (point : Int) : List Char :=
  let mantissa := match digits with
    | first :: second :: rest => first :: '.' :: second :: rest
    | short => short
  mantissa ++ exponentText width (point - 1)

/-- A minus sign in front of a negative number's text. -/
def signed (negative : Bool) (text : List Char) : List Char :=
  if negative then '-' :: text else text

namespace Binary64

/-- The numeral of a finite number: its shortest digits, positional with at least one decimal when
the power of ten is from -4 to 15, else exponential with at least two exponent digits. -/
def magnitudeNumeral (rank : Nat) : List Char :=
  if rank = 0 then ['0', '.', '0']
  else
    let d := Decimal.shortest rank
    if -4 < d.point ∧ d.point ≤ 16 then
      let text := positional d.digits d.point
      if text.contains '.' then text else text ++ ['.', '0']
    else exponential 2 d.digits d.point

/-- The numeral of any number, with the given names for what is not finite. -/
def numeral (nanName infinityName : String) : Binary64 → List Char
  | .nan => nanName.toList
  | .infinite negative => signed negative infinityName.toList
  | .finite negative rank => signed negative (magnitudeNumeral rank)

end Binary64

end DeskCalculator
