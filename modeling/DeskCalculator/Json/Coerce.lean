import DeskCalculator.Json.Token
import DeskCalculator.Text.Blank

/-!
# Lenient values

Fields that hold a number also accept a boolean or a text that spells one.

* `Mismatch` : why a value does not fit;
* `Json.toReal` : the value as a binary64 number;
* `Json.toInteger` : the value as an integer;
* `Json.toText?` : the value as a text; `Json.toChars` : as one without lone halves.
-/

namespace DeskCalculator

/-- Why a value does not fit. -/
inductive Mismatch
  /-- It is of another type. -/
  | wrongType
  /-- It is a text that spells no such number. -/
  | unreadable
  /-- It is a text with a lone half of a surrogate pair. -/
  | loneHalf
  deriving DecidableEq

/-! ## Numbers in texts -/

/-- Whether each underscore stands between two other characters. -/
def separatesProperly (cs : List Char) : Bool :=
  cs.head? != some '_' && cs.getLast? != some '_' && !(cs.zip (cs.drop 1)).contains ('_', '_')

/-- The text without underscores, if it has some and they stand properly. -/
def withoutUnderscores? (cs : List Char) : Option (List Char) :=
  if cs.contains '_' && separatesProperly cs then some (cs.filter (· != '_')) else none

/-- A character with a capital of the English alphabet in lower case. -/
def lowered (cs : List Char) : List Char := cs.map Char.toLower

/-- The number that a whole text spells: a sign, and then digits with at most one point and a power
of ten, or a name of infinity or of not-a-number. -/
def spelledReal? (cs : List Char) : Option Binary64 :=
  let (negative, unsigned) := Numeral.splitSign true cs
  let word := lowered unsigned
  if word = "nan".toList then some .nan
  else if word = "inf".toList ∨ word = "infinity".toList then some (.infinite negative)
  else
    let (whole, rest) := unsigned.span isDigit
    let (fraction, rest) := match rest with
      | '.' :: more => more.span isDigit
      | _ => ([], rest)
    if whole.isEmpty && fraction.isEmpty then none
    else match Numeral.splitPower rest with
      | (power, []) => some (Numeral.toBinary64 ⟨negative, whole, some fraction, power⟩)
      | _ => none

/-- The number that a text spells, with padding around it or underscores inside it. -/
def readReal? (cs : List Char) : Option Binary64 :=
  match spelledReal? (trim isPadding cs) with
  | some value => some value
  | none => (withoutUnderscores? cs).bind spelledReal?

/-- The text without a point and the zeros after it, if there are some and nothing else follows. -/
def withoutPointZeros (cs : List Char) : List Char :=
  match cs.span (· != '.') with
  | (whole, '.' :: '0' :: zeros) => if zeros.all (· == '0') then whole else cs
  | _ => cs

/-- The text without the zeros and underscores before its first other digit or minus sign; one
character stays. -/
def withoutLeadingZeros : List Char → List Char
  | c :: d :: rest =>
    if (c = '0' ∨ c = '_') ∧ (d = '_' ∨ d = '-' ∨ isDigit d) then withoutLeadingZeros (d :: rest)
    else c :: d :: rest
  | cs => cs

/-- The number that digits denote, if no needless zero is in front and they are not too many. -/
def plainNatural? (digits : List Char) : Option Nat :=
  if digits.isEmpty || !digits.all isDigit || Json.maxIntegerDigits < digits.length
    || (1 < digits.length && digits.head? == some '0') then none
  else some (Nat.ofDigitChars 10 digits 0)

/-- The number of digits with an optional minus sign. -/
def plainInteger? : List Char → Option Int
  | '-' :: digits => (plainNatural? digits).map (-·)
  | digits => (plainNatural? digits).map (·)

/-- The integer that a text spells. Padding around it, a sign, zeros in front, underscores between
digits, and a point with zeros are allowed. After zeros in front a minus sign may follow, unless one
is before them. -/
def readInteger? (cs : List Char) : Option Int :=
  let (negative, unsigned) := Numeral.splitSign true (trim isPadding cs)
  if unsigned.head?.any isDigit then
    let spelled := withoutPointZeros (withoutLeadingZeros unsigned)
    let bare := (withoutUnderscores? spelled).getD spelled
    if negative then (plainNatural? bare).map (-·) else plainInteger? bare
  else none

namespace Json

/-- The value as a binary64 number. An integer beyond the finite numbers does not fit. -/
def toReal : Json → Except Mismatch Binary64
  | .int n =>
    let value := Binary64.ofInt n
    if value.isFinite then .ok value else .error .wrongType
  | .real value => .ok value
  | .bool true => .ok (.ofInt 1)
  | .bool false => .ok (.ofInt 0)
  | .text t =>
    match t.toChars? with
    | none => .error .loneHalf
    | some cs =>
      match readReal? cs with
      | some value => .ok value
      | none => .error .unreadable
  | _ => .error .wrongType

/-- The value as an integer. A number with a fraction does not fit, nor does one outside the range
of 64-bit integers that was not written as an integer. -/
def toInteger : Json → Except Mismatch Int
  | .int n => .ok n
  | .real value =>
    match value.integer? with
    | some n => if -2 ^ 63 < n ∧ n < 2 ^ 63 then .ok n else .error .wrongType
    | none => .error .wrongType
  | .bool true => .ok 1
  | .bool false => .ok 0
  | .text t =>
    match t.toChars? with
    | none => .error .loneHalf
    | some cs =>
      match readInteger? cs with
      | some n => .ok n
      | none => .error .unreadable
  | _ => .error .wrongType

/-- The value as a text, lone halves and all; nothing else stands for one. -/
def toText? : Json → Option Text
  | .text t => some t
  | _ => none

/-- The value as a text without lone halves. -/
def toChars : Json → Except Mismatch (List Char)
  | .text t =>
    match t.toChars? with
    | some cs => .ok cs
    | none => .error .loneHalf
  | _ => .error .wrongType

end Json

end DeskCalculator
