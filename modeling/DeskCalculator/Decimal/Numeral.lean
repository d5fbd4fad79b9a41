import DeskCalculator.Decimal.Basic

/-!
# Reading numerals

* `isDigit` : the ten decimal digits;
* `Numeral` : the parts of a number's text: sign, digits before and after the point, power of ten;
* `Numeral.split` : the longest such text at the start of a list of characters, and what follows;
* `Numeral.decimal`, `Numeral.toBinary64` : its value.
-/

namespace DeskCalculator

/-- The ten decimal digits, and no other digit of any script. -/
def isDigit (c : Char) : Bool := '0' ≤ c && c ≤ '9'

/-- The parts of a number's text. A missing part is `none`. -/
structure Numeral where
  negative : Bool
  whole : List Char
  fraction : Option (List Char)
  power : Option Int
  deriving DecidableEq

namespace Numeral

/-- Splits a minus sign off, and with `allowPlus` also a plus sign. -/
def splitSign (allowPlus : Bool) : List Char → Bool × List Char
  | '-' :: rest => (true, rest)
  | '+' :: rest => if allowPlus then (false, rest) else (false, '+' :: rest)
  | cs => (false, cs)

/-- Splits `e`, an optional sign and digits off, if they are there. -/
def splitPower (cs : List Char) : Option Int × List Char :=
  match cs with
  | e :: rest =>
    if e = 'e' ∨ e = 'E' then
      let (negative, unsigned) := splitSign true rest
      let (digits, after) := unsigned.span isDigit
      if digits.isEmpty then (none, cs)
      else
        let magnitude : Int := Nat.ofDigitChars 10 digits 0
        (some (if negative then -magnitude else magnitude), after)
    else (none, cs)
  | [] => (none, [])

/-- The decimal magnitude of the numeral. -/
def decimal (n : Numeral) : Decimal :=
  Decimal.ofParts n.whole (n.fraction.getD []) (n.power.getD 0)

/-- The number nearest to the numeral. -/
def toBinary64 (n : Numeral) : Binary64 := n.decimal.toBinary64 n.negative

end Numeral

end DeskCalculator
