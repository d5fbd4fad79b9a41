import DeskCalculator.Json.Coerce

/-!
# History entries

* `Entry` : an evaluated expression with its result and the time in milliseconds;
* `Entry.toJson` : the entry as it is stored;
* `Entry.ofJson?` : the entry that a stored value stands for;
* `milliseconds` : the whole milliseconds of a clock reading in seconds.
-/

namespace DeskCalculator

/-- An evaluated expression. One that was found in a file may hold lone halves of surrogate pairs:
it is kept as it is, and fails where it is to be written or shown. -/
structure Entry where
  expression : Text
  result : Binary64
  time : Int
  deriving DecidableEq

namespace Entry

/-- The entry as it is stored. -/
def toJson (e : Entry) : Json :=
  .ofFields [("expr", .text e.expression), ("result", .real e.result), ("ts", .int e.time)]

/-- The entry that a stored value stands for. Other fields are dropped. -/
def ofJson? : Json → Option Entry
  | .object fields => do
    let expression ← (← Fields.get? (.ofString "expr") fields).toText?
    let result ← (← Fields.get? (.ofString "result") fields).toReal.toOption
    let time ← (← Fields.get? (.ofString "ts") fields).toInteger.toOption
    return ⟨expression, result, time⟩
  | _ => none

end Entry

/-- The whole milliseconds of a clock reading in seconds. -/
def milliseconds (now : Binary64) : Int := (now.mul (.ofInt 1000)).truncate

end DeskCalculator
