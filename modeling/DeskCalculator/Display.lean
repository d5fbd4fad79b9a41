import DeskCalculator.Decimal.Layout

/-!
# The display

* `display` : the text that a result is shown as;
* `scientificText` : eleven significant digits and a power of ten, for large and tiny magnitudes, as
  `scientificLayout` sets them;
* `plainText` : twelve significant digits in positional layout, for the others.
-/

namespace DeskCalculator

/-- The first magnitude too large for positional display, `1e12`. -/
def largeRank : Nat := Decimal.rank ⟨1, 12⟩

/-- The first magnitude large enough for positional display, `1e-6`. -/
def smallRank : Nat := Decimal.rank ⟨1, -6⟩

/-- An exponential layout. A mantissa that was cut down to a single digit keeps its point, which tells
it from an exact one. -/
def scientificLayout (cutDown : Bool) (digits : List Char) (point : Int) : List Char :=
  match digits with
  | [digit] => digit :: ((if cutDown then ['.'] else []) ++ exponentText 1 (point - 1))
  | digits => exponential 1 digits point

/-- Eleven significant digits and a power of ten. -/
def scientificText (rank : Nat) : List Char :=
  let value := Decimal.exact rank
  let shown := value.toSignificant 11
  let cutDown := decide
    (shown.coefficient * 10 ^ (shown.exponent - value.exponent).toNat < value.coefficient)
  scientificLayout cutDown shown.digits shown.point

/-- Twelve significant digits, which hide the noise of binary fractions, in positional layout. The
rounded decimal is read as a number again, and that number's shortest digits are shown. -/
def plainText (rank : Nat) : List Char :=
  let rounded := ((Decimal.exact rank).toSignificant 12).rank
  let shown := Decimal.shortest rounded
  positional shown.digits shown.point

/-- The text that a result is shown as. -/
def display : Binary64 → List Char
  | .nan => "NaN".toList
  | .infinite negative => signed negative "Infinity".toList
  | .finite negative rank =>
    if rank.val = 0 then ['0']
    else if largeRank ≤ rank.val ∨ rank.val < smallRank then signed negative (scientificText rank)
    else signed negative (plainText rank)

end DeskCalculator
