import DeskCalculator.Json.Coerce
import DeskCalculator.Json.Reader
import DeskCalculator.Keypad.Press
import DeskCalculator.Validation

/-!
# Requests

* `Request` : method, path and body of an HTTP request;
* `Body` : what a body is read as; `Body.ofChars`;
* `EvaluateInput`, `PreviewInput`, `PressInput` : the inputs of the three posts, with their readers.
-/

namespace DeskCalculator.Service

/-- An HTTP request. -/
structure Request where
  method : String
  path : String
  body : List Char
  deriving DecidableEq

/-! ## Bodies -/

/-- What a body is read as. -/
inductive Body
  | object (fields : Fields)
  | violation (v : Violation)
  /-- It cannot be parsed at all. -/
  | unparsable

/-- What a body's text is read as; a byte order mark in front is skipped. The text is taken as it is
decoded: bytes that are no UTF-8, which cannot be parsed, and the encodings of two and four bytes
are left out. There is no limit to nesting. -/
def Body.ofChars (cs : List Char) : Body :=
  if cs.isEmpty then .violation ⟨.missing, ["body"], .null⟩
  else match Json.read (withoutMark cs) with
    | .ok (.object fields) => .object fields
    | .ok .null => .violation ⟨.missing, ["body"], .null⟩
    | .ok value => .violation ⟨.objectType, ["body"], value⟩
    | .error .malformed => .violation ⟨.jsonInvalid, ["body"], .null⟩
    | .error .oversized => .unparsable

/-! ## Fields -/

/-- The longest expression that is accepted. -/
def maxExpressionLength : Nat := Keypad.defaultLimit.toNat

/-- The longest name of a key. -/
def maxKeyLength : Nat := 32

/-- A field's text, of a length within bounds. -/
def textField (name : String) (shortest longest : Nat) (value : Json) :
    Except Violation (List Char) :=
  match value.toChars with
  | .ok cs =>
    if cs.length < shortest then .error ⟨.stringTooShort, ["body", name], value⟩
    else if longest < cs.length then .error ⟨.stringTooLong, ["body", name], value⟩
    else .ok cs
  | .error .loneHalf => .error ⟨.stringUnicode, ["body", name], value⟩
  | .error _ => .error ⟨.stringType, ["body", name], value⟩

/-- A field that has to be there. -/
def required {α : Type} (name : String) (fields : Fields) (read : Json → Except Violation α) :
    Except Violation α :=
  match Fields.get? (.ofString name) fields with
  | some value => read value
  | none => .error ⟨.missing, ["body", name], .object fields⟩

/-- A field with a default. -/
def optional {α : Type} (name : String) (default : α) (fields : Fields)
    (read : Json → Except Violation α) : Except Violation α :=
  match Fields.get? (.ofString name) fields with
  | some value => read value
  | none => .ok default

/-- The text of an expression. -/
def expressionField : Json → Except Violation (List Char) :=
  textField "expression" 0 maxExpressionLength

/-- The last good result, zero unless given. -/
def lastResultField (fields : Fields) : Except Violation Binary64 :=
  optional "last_result" (.zero false) fields fun value =>
    match value.toReal with
    | .ok x => .ok x
    | .error .wrongType => .error ⟨.floatType, ["body", "last_result"], value⟩
    | .error .unreadable => .error ⟨.floatParsing, ["body", "last_result"], value⟩
    | .error .loneHalf => .error ⟨.stringUnicode, ["body", "last_result"], value⟩

/-- The violation of a field, if there is one. -/
def violation? {α : Type} : Except Violation α → List Violation
  | .ok _ => []
  | .error v => [v]

/-! ## Inputs -/

/-- What is to be previewed. -/
structure PreviewInput where
  expression : List Char
  lastResult : Binary64
  deriving DecidableEq

/-- A key and the screen that it is pressed on. -/
structure PressInput where
  expression : List Char
  key : List Char
  lastResult : Binary64
  deriving DecidableEq

/-- The expression to evaluate. -/
def evaluateInput (fields : Fields) : Except (List Violation) (List Char) :=
  match required "expression" fields expressionField with
  | .ok expression => .ok expression
  | .error v => .error [v]

/-- What is to be previewed; all violations are told. -/
def previewInput (fields : Fields) : Except (List Violation) PreviewInput :=
  match required "expression" fields expressionField, lastResultField fields with
  | .ok expression, .ok lastResult => .ok ⟨expression, lastResult⟩
  | expression, lastResult => .error (violation? expression ++ violation? lastResult)

/-- A key and the screen that it is pressed on; all violations are told. -/
def pressInput (fields : Fields) : Except (List Violation) PressInput :=
  match optional "expression" [] fields expressionField,
      required "key" fields (textField "key" 1 maxKeyLength), lastResultField fields with
  | .ok expression, .ok key, .ok lastResult => .ok ⟨expression, key, lastResult⟩
  | expression, key, lastResult =>
    .error (violation? expression ++ (violation? key ++ violation? lastResult))

end DeskCalculator.Service
