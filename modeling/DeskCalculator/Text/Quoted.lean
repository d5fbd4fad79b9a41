import DeskCalculator.Text.Blank

/-!
# Quoted text

* `quoteFor` : the quotes that a text is shown in;
* `showChar` : a character between quotes;
* `quoted` : a text as logs show it.
-/

namespace DeskCalculator

-- Powers are the core library's, also where another library has powers of its own.
attribute [local instance (high)] instPowNat

/-- Single quotes, unless the text holds one and no double quote. -/
def quoteFor (cs : List Char) : Char :=
  if cs.contains '\'' && !cs.contains '"' then '"' else '\''

/-- The last `width` hexadecimal digits of a number. -/
def hexDigits (width n : Nat) : List Char :=
  (List.range width).reverse.map fun place => Nat.digitChar (n / 16 ^ place % 16)

/-- A character between the given quotes: the quote and the backslash are escaped, and so are
controls, the soft hyphen and blanks other than the space, by their number in hexadecimal.
Characters for formatting or private use and unassigned ones, which logs show by their number too,
with eight digits beyond the first 65536, are left as they are. -/
def showChar (quote c : Char) : List Char :=
  let n := c.toNat
  if c = quote ∨ c = '\\' then ['\\', c]
  else if c = '\n' then ['\\', 'n']
  else if c = '\r' then ['\\', 'r']
  else if c = '\t' then ['\\', 't']
  else if n < 0x20 ∨ (0x7F ≤ n ∧ n ≤ 0xA0) ∨ n = 0xAD then '\\' :: 'x' :: hexDigits 2 n
  else if isPadding c && c != ' ' then '\\' :: 'u' :: hexDigits 4 n
  else [c]

/-- A text as logs show it. -/
def quoted (cs : List Char) : String :=
  let quote := quoteFor cs
  String.ofList (quote :: (cs.flatMap (showChar quote) ++ [quote]))

end DeskCalculator
