import DeskCalculator.Decimal.Numeral
import DeskCalculator.Json.Basic

/-!
# Tokens of JSON text

* `Json.Token` : a punctuation mark, a scalar value, or a fault;
* `Json.bareTokens` : the tokens of a run of characters outside strings and punctuation;
* `Json.tokens` : the tokens of a text, up to the first fault.
-/

namespace DeskCalculator.Json

/-- A token of JSON text. -/
inductive Token
  | openList
  | closeList
  | openObject
  | closeObject
  | comma
  | colon
  | scalar (value : Json)
  /-- An integer with more digits than are read. -/
  | oversized
  /-- Text that is no token. -/
  | junk

/-- Integers with more digits than this are not read. -/
def maxIntegerDigits : Nat := 4300

/-! ## Bare words and numbers -/

/-- Splits the longest number off the start of a text: an optional minus sign, digits without a
needless zero in front, and optionally a fraction and a power of ten. -/
def splitNumber (cs : List Char) : Option (Numeral × List Char) :=
  let (negative, unsigned) := Numeral.splitSign false cs
  let (whole, rest) := match unsigned with
    | '0' :: rest => (['0'], rest)
    | _ => unsigned.span isDigit
  if whole.isEmpty then none
  else
    let (fraction, rest) := match rest with
      | '.' :: more =>
        let (digits, after) := more.span isDigit
        if digits.isEmpty then (none, rest) else (some digits, after)
      | _ => (none, rest)
    let (power, rest) := Numeral.splitPower rest
    some (⟨negative, whole, fraction, power⟩, rest)

/-- The value of a number: an exact integer if it has neither fraction nor power. -/
def numberToken (n : Numeral) : Token :=
  if n.fraction.isNone && n.power.isNone then
    if maxIntegerDigits < n.whole.length then .oversized
    else
      let magnitude : Int := Nat.ofDigitChars 10 n.whole 0
      .scalar (.int (if n.negative then -magnitude else magnitude))
  else .scalar (.real n.toBinary64)

/-- The names that stand for values. -/
def namedValue? (word : String) : Option Json :=
  if word = "null" then some .null
  else if word = "true" then some (.bool true)
  else if word = "false" then some (.bool false)
  else if word = "NaN" then some (.real .nan)
  else if word = "Infinity" then some (.real (.infinite false))
  else if word = "-Infinity" then some (.real (.infinite true))
  else none

/-- The tokens of a run of bare characters: a named value or a number, and junk for what is left. -/
def bareTokens (cs : List Char) : List Token :=
  match namedValue? (String.ofList cs) with
  | some value => [.scalar value]
  | none =>
    match splitNumber cs with
    | some (n, []) => [numberToken n]
    | some (n, _ :: _) => [numberToken n, .junk]
    | none => [.junk]

/-! ## The scanner -/

/-- What the scanner is in the middle of. Collected characters and glyphs are in reverse. -/
inductive Mode
  | between
  | bare (word : List Char)
  | string (read : Text)
  | escape (read : Text)
  | unit (read : Text) (digits : Nat) (value : Nat)
  | broken

/-- The punctuation mark of a character. -/
def punctuation? : Char → Option Token
  | '[' => some .openList
  | ']' => some .closeList
  | '\x7b' => some .openObject
  | '\x7d' => some .closeObject
  | ',' => some .comma
  | ':' => some .colon
  | _ => none

/-- The four characters that may stand between tokens. -/
def isGap (c : Char) : Bool := c == ' ' || c == '\t' || c == '\n' || c == '\r'

/-- What an escape with one letter stands for. -/
def escaped? : Char → Option Char
  | '"' => some '"'
  | '\\' => some '\\'
  | '/' => some '/'
  | 'b' => some '\x08'
  | 'f' => some '\x0c'
  | 'n' => some '\n'
  | 'r' => some '\r'
  | 't' => some '\t'
  | _ => none

/-- The value of a hexadecimal digit. -/
def hexValue? (c : Char) : Option Nat :=
  if isDigit c then some (c.toNat - '0'.toNat)
  else if 'a' ≤ c ∧ c ≤ 'f' then some (c.toNat - 'a'.toNat + 10)
  else if 'A' ≤ c ∧ c ≤ 'F' then some (c.toNat - 'A'.toNat + 10)
  else none

/-- One character outside strings and bare runs. -/
def stepBetween (c : Char) : List Token × Mode :=
  if isGap c then ([], .between)
  else if c = '"' then ([], .string [])
  else match punctuation? c with
    | some mark => ([mark], .between)
    | none => ([], .bare [c])

/-- One character: the tokens that it completes, and what the scanner is in the middle of after. -/
def Mode.step (c : Char) : Mode → List Token × Mode
  | .between => stepBetween c
  | .bare word =>
    if isGap c || c == '"' || (punctuation? c).isSome then
      let (tokens, mode) := stepBetween c
      (bareTokens word.reverse ++ tokens, mode)
    else ([], .bare (c :: word))
  | .string read =>
    if c = '"' then ([.scalar (.text (Text.joinHalves read.reverse))], .between)
    else if c = '\\' then ([], .escape read)
    else if c.toNat < 0x20 then ([.junk], .broken)
    else ([], .string (.char c :: read))
  | .escape read =>
    if c = 'u' then ([], .unit read 0 0)
    else match escaped? c with
      | some d => ([], .string (.char d :: read))
      | none => ([.junk], .broken)
  | .unit read digits value =>
    match hexValue? c with
    | none => ([.junk], .broken)
    | some d =>
      if digits = 3 then ([], .string (Glyph.ofUnit (value * 16 + d) :: read))
      else ([], .unit read (digits + 1) (value * 16 + d))
  | .broken => ([], .broken)

/-- The tokens still due when the text ends. -/
def Mode.finish : Mode → List Token
  | .between => []
  | .bare word => bareTokens word.reverse
  | .string _ => [.junk]
  | .escape _ => [.junk]
  | .unit _ _ _ => [.junk]
  | .broken => []

/-- The tokens of the rest of a text. -/
def scan (mode : Mode) : List Char → List Token
  | [] => mode.finish
  | c :: cs =>
    let (done, next) := mode.step c
    done ++ scan next cs

/-- The tokens of a text, up to the first fault. -/
def tokens (cs : List Char) : List Token := scan .between cs

end DeskCalculator.Json
