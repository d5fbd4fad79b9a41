import DeskCalculator.Binary64.Arithmetic
import DeskCalculator.Text.Glyph

/-!
# JSON values

* `Json` : a value; integers are exact and of any size, other numbers are binary64, and an object
  keeps its fields in order;
* `Fields.get?`, `Fields.put`, `Fields.remove` : an object's fields by key (`Fields.get?_put_self`,
  `Fields.get?_put_of_ne`, `Fields.get?_remove_of_ne`).
-/

namespace DeskCalculator

/-- A JSON value. -/
inductive Json
  | null
  | bool (value : Bool)
  | int (value : Int)
  | real (value : Binary64)
  | text (value : Text)
  | list (items : List Json)
  | object (fields : List (Text × Json))

/-- The fields of an object, in order. -/
abbrev Fields := List (Text × Json)

namespace Fields

/-- The value of a key. -/
def get? (key : Text) : Fields → Option Json
  | [] => none
  | (k, v) :: rest => if k = key then some v else get? key rest

/-- The fields with a value for the key: at the place that the key has, or else at the end. -/
def put (key : Text) (value : Json) : Fields → Fields
  | [] => [(key, value)]
  | (k, v) :: rest => if k = key then (key, value) :: rest else (k, v) :: put key value rest

/-- The fields without the key. -/
def remove (key : Text) : Fields → Fields
  | [] => []
  | (k, v) :: rest => if k = key then rest else (k, v) :: remove key rest

@[simp] theorem get?_nil (key : Text) : get? key [] = none := rfl

@[simp] theorem get?_put_self (key : Text) (value : Json) (fields : Fields) :
    get? key (put key value fields) = some value := by
  induction fields with
  | nil => simp [put, get?]
  | cons f rest ih =>
    by_cases h : f.1 = key
    · simp [put, get?, h]
    · simpa [put, get?, h] using ih

theorem get?_put_of_ne {key other : Text} (h : other ≠ key) (value : Json) (fields : Fields) :
    get? other (put key value fields) = get? other fields := by
  induction fields with
  | nil => simp [put, get?, Ne.symm h]
  | cons f rest ih =>
    by_cases hk : f.1 = key
    · simp [put, get?, hk, Ne.symm h]
    · by_cases ho : f.1 = other
      · simp [put, get?, ho, h]
      · simpa [put, get?, hk, ho] using ih

theorem get?_remove_of_ne {key other : Text} (h : other ≠ key) (fields : Fields) :
    get? other (remove key fields) = get? other fields := by
  induction fields with
  | nil => rfl
  | cons f rest ih =>
    by_cases hk : f.1 = key
    · simp [remove, get?, hk, Ne.symm h]
    · by_cases ho : f.1 = other
      · simp [remove, get?, ho, h]
      · simpa [remove, get?, hk, ho] using ih

end Fields

namespace Json

/-- The value of a string. -/
def ofString (s : String) : Json := .text (Text.ofString s)

/-- The value of characters. -/
def ofChars (cs : List Char) : Json := .text (Text.ofChars cs)

/-- An object whose keys are plain strings. -/
def ofFields (fields : List (String × Json)) : Json :=
  .object (fields.map fun (key, value) => (Text.ofString key, value))

end Json

end DeskCalculator
