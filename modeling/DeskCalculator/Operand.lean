import DeskCalculator.Decimal.Layout

/-!
# Results as operands

* `operandText` : the text that an expression uses for a number, which reads back as the number;
* `shortenedText` : the text of a magnitude rounded to some number of significant digits;
* `operandWithin` : the operand text, with digits given up until it fits a length.
-/

namespace DeskCalculator

/-- More digits than this never tell two numbers apart. -/
def maxOperandDigits : Nat := 17

/-- The shortest digits of a finite number in positional layout, and zero without its sign. -/
def operandText (negative : Bool) (rank : Nat) : List Char :=
  if rank = 0 then ['0']
  else
    let d := Decimal.shortest rank
    signed negative (positional d.digits d.point)

/-- The number rounded to at most `n` significant digits, in positional layout. -/
def shortenedText (negative : Bool) (rank n : Nat) : List Char :=
  let d := (Decimal.exact rank).toSignificant n
  signed negative (positional d.digits d.point)

/-- The first text of at most `n`, then `n - 1`, … significant digits that fits. -/
def firstFitting (negative : Bool) (rank : Nat) (limit : Int) : Nat → Option (List Char)
  | 0 => none
  | n + 1 =>
    let text := shortenedText negative rank (n + 1)
    if (text.length : Int) ≤ limit then some text else firstFitting negative rank limit n

/-- The operand text if it fits the limit, else the longest rounding of the number that does; none
if not even one digit fits. Zero is always written. -/
def operandWithin (negative : Bool) (rank : Nat) (limit : Option Int) : Option (List Char) :=
  let text := operandText negative rank
  match limit with
  | none => some text
  | some limit =>
    if rank = 0 ∨ (text.length : Int) ≤ limit then some text
    else firstFitting negative rank limit maxOperandDigits

/-- A number that no operand text can denote. -/
inductive OperandFault
  | notFinite (value : Binary64)
  deriving DecidableEq

/-- What is reported about a number that cannot be an operand. -/
def OperandFault.message : OperandFault → String
  | .notFinite value =>
    "Cannot render non-finite value as input: " ++ String.ofList (value.numeral "nan" "inf")

/-- The text that stands for the number in an expression, within an optional length; `none` when
none fits. -/
def operand (limit : Option Int) : Binary64 → Except OperandFault (Option (List Char))
  | .finite negative rank => .ok (operandWithin negative rank limit)
  | value => .error (.notFinite value)

end DeskCalculator
