import DeskCalculator.Display
import DeskCalculator.Expression.Fault
import DeskCalculator.History.Entry
import DeskCalculator.Validation

/-!
# Answers

* `Answer` : what a request is answered;
* `Answer.status` : its HTTP status;
* `Answer.content` : its JSON value, its list of violations or its plain text.
-/

namespace DeskCalculator.Service

/-- What a request is answered. -/
inductive Answer
  | healthy
  /-- The value of an expression, the text to go on with, and whether that denotes the value. -/
  | evaluated (expression : List Char) (result : Binary64) (next : Option (List Char))
      (nextIsExact : Bool)
  | previewed (result : Binary64)
  | pressed (expression : List Char) (result : Binary64)
  | listed (entries : List Entry)
  | cleared (count : Nat)
  /-- The expression is at fault. -/
  | rejected (report : Report)
  /-- The body cannot be parsed at all. -/
  | unparsable
  | notFound
  | notAllowed
  | invalid (violations : List Violation)
  /-- The history could not be written. -/
  | failed (detail : String)
  /-- Nothing was prepared for what happened. -/
  | crashed

/-- What an answer carries. -/
inductive Content
  | json (value : Json)
  | violations (list : List Violation)
  | text (s : String)

/-- A result in JSON; what is not finite has no numeral there. -/
def resultJson (x : Binary64) : Json := if x.isFinite then .real x else .null

/-- A detail in JSON. -/
def detailJson (detail : Json) : Json := .ofFields [("detail", detail)]

/-- A report in JSON. -/
def reportJson (r : Report) : Json :=
  .ofFields ([("kind", .ofString r.kind.name), ("message", .ofString r.message)]
    ++ match r.character with
      | some c => [("character", Json.ofString c)]
      | none => [])

/-- An entry of the history in JSON. -/
def entryJson (e : Entry) : Json :=
  .ofFields [("expr", .text e.expression), ("result", resultJson e.result),
    ("ts", .int e.time), ("display", .ofChars (display e.result))]

namespace Answer

/-- The HTTP status. -/
def status : Answer → Nat
  | .rejected _ => 400
  | .unparsable => 400
  | .notFound => 404
  | .notAllowed => 405
  | .invalid _ => 422
  | .failed _ => 500
  | .crashed => 500
  | _ => 200

/-- What the answer carries. -/
def content : Answer → Content
  | .healthy => .json (.ofFields [("status", .ofString "ok")])
  | .evaluated expression result next nextIsExact =>
    .json (.ofFields [("expression", .ofChars expression), ("result", resultJson result),
      ("display", .ofChars (display result)),
      ("next_expression", (next.map Json.ofChars).getD .null),
      ("next_expression_exact", .bool nextIsExact)])
  | .previewed result =>
    .json (.ofFields [("result", resultJson result), ("display", .ofChars (display result))])
  | .pressed expression result =>
    .json (.ofFields [("result", resultJson result), ("display", .ofChars (display result)),
      ("expression", .ofChars expression)])
  | .listed entries =>
    .json (.ofFields [("count", .int entries.length), ("items", .list (entries.map entryJson))])
  | .cleared count =>
    .json (.ofFields [("message", .ofString "History cleared"), ("cleared", .int count)])
  | .rejected report => .json (detailJson (reportJson report))
  | .unparsable => .json (detailJson (.ofString "There was an error parsing the body"))
  | .notFound => .json (detailJson (.ofString "Not Found"))
  | .notAllowed => .json (detailJson (.ofString "Method Not Allowed"))
  | .invalid list => .violations list
  | .failed detail => .json (detailJson (.ofString detail))
  | .crashed => .text "Internal Server Error"

end Answer

end DeskCalculator.Service
