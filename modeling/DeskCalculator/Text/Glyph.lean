/-!
# Text of escaped notation

A document may spell half of a surrogate pair on its own. Such a half is no character, but it can be
read, kept and compared; only writing it out fails.

* `Glyph` : a character, or a lone half of a surrogate pair;
* `Text` : a list of glyphs; `Text.ofChars`, `Text.ofString`;
* `Text.toChars?` : the characters of a text without lone halves (`Text.toChars?_ofChars`);
* `Glyph.ofUnit` : the glyph of a 16-bit code unit;
* `Text.joinHalves` : every high half directly before a low one becomes one character
  (`Text.joinHalves_ofChars`).
-/

namespace DeskCalculator

/-- A character, or half of a surrogate pair, counted from the first high half. -/
inductive Glyph
  | char (c : Char)
  | half (offset : Fin 0x800)
  deriving DecidableEq

/-- A list of glyphs. -/
abbrev Text := List Glyph

namespace Glyph

/-- The glyph of a 16-bit code unit. -/
def ofUnit (unit : Nat) : Glyph :=
  if h : 0xD800 ≤ unit ∧ unit < 0xE000 then .half ⟨unit - 0xD800, by omega⟩
  else .char (Char.ofNat unit)

/-- The character, unless the glyph is a half. -/
def toChar? : Glyph → Option Char
  | .char c => some c
  | .half _ => none

/-- The character of a high half and a low half. -/
def join? : Glyph → Glyph → Option Char
  | .half high, .half low =>
    if high.val < 0x400 ∧ 0x400 ≤ low.val then
      some (Char.ofNat (0x10000 + high.val * 0x400 + (low.val - 0x400)))
    else none
  | _, _ => none

end Glyph

namespace Text

/-- The text of characters. -/
def ofChars (cs : List Char) : Text := cs.map .char

/-- The text of a string. -/
def ofString (s : String) : Text := ofChars s.toList

/-- The characters of a text without lone halves. -/
def toChars? (text : Text) : Option (List Char) := text.mapM Glyph.toChar?

@[simp] theorem toChars?_ofChars (cs : List Char) : toChars? (ofChars cs) = some cs := by
  induction cs with
  | nil => rfl
  | cons c cs ih => simp_all [toChars?, ofChars, Glyph.toChar?]

/-- Joins every high half with the low half directly after it. -/
def joinHalves : Text → Text
  | g :: h :: rest =>
    match g.join? h with
    | some c => .char c :: joinHalves rest
    | none => g :: joinHalves (h :: rest)
  | short => short

/-- Where there are no halves, none are joined. -/
@[simp] theorem joinHalves_ofChars (cs : List Char) : joinHalves (ofChars cs) = ofChars cs := by
  induction cs with
  | nil => rfl
  | cons c cs ih =>
    cases cs with
    | nil => rfl
    | cons d cs => exact congrArg (.char c :: ·) ih

end Text

end DeskCalculator
