import DeskCalculator.Json.Basic

/-!
# Validation

* `Rule` : the rules that a field can break; `Rule.name`;
* `Violation` : a broken rule, where, and the value that broke it;
* `Json.isPlain` : whether a value can be shown in an answer.
-/

namespace DeskCalculator

/-- The rules that a field can break. -/
inductive Rule
  | missing
  | stringType
  | stringUnicode
  | stringTooLong
  | stringTooShort
  | floatType
  | floatParsing
  | intParsing
  | greaterThan
  | listType
  | objectType
  | jsonInvalid
  deriving DecidableEq

/-- The rule's name. -/
def Rule.name : Rule → String
  | .missing => "missing"
  | .stringType => "string_type"
  | .stringUnicode => "string_unicode"
  | .stringTooLong => "string_too_long"
  | .stringTooShort => "string_too_short"
  | .floatType => "float_type"
  | .floatParsing => "float_parsing"
  | .intParsing => "int_parsing"
  | .greaterThan => "greater_than"
  | .listType => "list_type"
  | .objectType => "model_attributes_type"
  | .jsonInvalid => "json_invalid"

/-- A broken rule, the field's place, and the value that broke it. -/
structure Violation where
  rule : Rule
  place : List String
  value : Json

namespace Json

mutual

/-- Whether the value holds neither a number that is not finite nor a lone half of a surrogate
pair. -/
def isPlain : Json → Bool
  | .real x => x.isFinite
  | .text t => t.toChars?.isSome
  | .list items => itemsPlain items
  | .object fields => fieldsPlain fields
  | _ => true

/-- Whether all items are plain. -/
def itemsPlain : List Json → Bool
  | [] => true
  | v :: rest => v.isPlain && itemsPlain rest

/-- Whether a key and its value are plain. -/
def fieldPlain : Text × Json → Bool
  | (k, v) => k.toChars?.isSome && v.isPlain

/-- Whether all fields are plain. -/
def fieldsPlain : List (Text × Json) → Bool
  | [] => true
  | f :: rest => fieldPlain f && fieldsPlain rest

end

end Json

end DeskCalculator
