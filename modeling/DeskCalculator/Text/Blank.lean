/-!
# Blank characters

* `isBlank` : the characters that an expression may hold anywhere without effect;
* `isPadding` : the characters that may surround a number given as text;
* `trim` : a text without the characters of a class at its ends;
* `withoutMark` : a text without the byte order mark in front.
-/

namespace DeskCalculator

/-- The white space of the Unicode standard. -/
def isPadding (c : Char) : Bool :=
  let n := c.toNat
  (0x09 ≤ n && n ≤ 0x0D) || n == 0x20 || n == 0x85 || n == 0xA0 || n == 0x1680
    || (0x2000 ≤ n && n ≤ 0x200A) || n == 0x2028 || n == 0x2029 || n == 0x202F || n == 0x205F
    || n == 0x3000

/-- White space, or one of the four separator controls below the space. -/
def isBlank (c : Char) : Bool := isPadding c || (0x1C ≤ c.toNat && c.toNat ≤ 0x1F)

/-- The list without the elements of a class at its ends. -/
def trim (drop : Char → Bool) (cs : List Char) : List Char :=
  ((cs.dropWhile drop).reverse.dropWhile drop).reverse

/-- The text without the byte order mark in front, if there is one. -/
def withoutMark : List Char → List Char
  | '\uFEFF' :: rest => rest
  | cs => cs

end DeskCalculator
