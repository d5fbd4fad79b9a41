import DeskCalculator.Decimal.Layout
import DeskCalculator.Json.Basic

/-!
# Writing JSON

* `Json.escape` : a character inside a string;
* `Json.render` : the text of a value, on one line with a space after each comma and colon;
* `Json.write?` : its bytes, which a lone half of a surrogate pair has none of.
-/

namespace DeskCalculator.Json

/-- The letter of a short escape. -/
def shortEscape? : Char → Option Char
  | '"' => some '"'
  | '\\' => some '\\'
  | '\n' => some 'n'
  | '\r' => some 'r'
  | '\t' => some 't'
  | '\x08' => some 'b'
  | '\x0c' => some 'f'
  | _ => none

/-- A character inside a string: quotes, backslashes and controls are escaped, all else is raw. -/
def escape (c : Char) : List Char :=
  match shortEscape? c with
  | some letter => ['\\', letter]
  | none =>
    if c.toNat < 0x20 then
      ['\\', 'u', '0', '0', Nat.digitChar (c.toNat / 16), Nat.digitChar (c.toNat % 16)]
    else [c]

/-- A glyph inside a string. -/
def escapeGlyph : Glyph → Text
  | .char c => Text.ofChars (escape c)
  | .half offset => [.half offset]

/-- A string with its quotes. -/
def renderText (text : Text) : Text :=
  .char '"' :: (text.flatMap escapeGlyph ++ [.char '"'])

/-- The text of an integer. -/
def renderInt (n : Int) : List Char := signed (decide (n < 0)) (decimalDigits n.natAbs)

mutual

/-- The text of a value. -/
def render : Json → Text
  | .null => Text.ofString "null"
  | .bool true => Text.ofString "true"
  | .bool false => Text.ofString "false"
  | .int n => Text.ofChars (renderInt n)
  | .real x => Text.ofChars (x.numeral "NaN" "Infinity")
  | .text t => renderText t
  | .list items => .char '[' :: (renderItems items ++ [.char ']'])
  | .object fields => .char '\x7b' :: (renderFields fields ++ [.char '\x7d'])

/-- Items between commas. -/
def renderItems : List Json → Text
  | [] => []
  | [v] => render v
  | v :: w :: rest => render v ++ (Text.ofString ", " ++ renderItems (w :: rest))

/-- A key, a colon and a value. -/
def renderField : Text × Json → Text
  | (k, v) => renderText k ++ (Text.ofString ": " ++ render v)

/-- Fields between commas. -/
def renderFields : List (Text × Json) → Text
  | [] => []
  | [f] => renderField f
  | f :: g :: rest => renderField f ++ (Text.ofString ", " ++ renderFields (g :: rest))

end

/-- The bytes of a value's text; `none` if the text holds a lone half of a surrogate pair. As in
reading, there is no limit to nesting. -/
def write? (v : Json) : Option ByteArray :=
  (render v).toChars?.map fun cs => (String.ofList cs).toUTF8

end DeskCalculator.Json
