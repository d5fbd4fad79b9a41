import DeskCalculator.History.Store
import DeskCalculator.Operand
import DeskCalculator.Service.Answer
import DeskCalculator.Service.Request

/-!
# Handling requests

* `Route` : the routes; `Request.route` : the route of a request, or the answer to one without;
* `handle` : the answer to a request and the history file afterwards;
* `handleAll` : the same for requests in turn.
-/

namespace DeskCalculator.Service

/-- What can be asked for. -/
inductive Route
  | health
  | evaluate
  | preview
  | press
  | listHistory
  | clearHistory
  deriving DecidableEq

/-- The path without the query and the fragment after it and without slashes at its end. A path that
ends in a slash is answered at once and not by a redirection, and nothing in it is decoded from
percent signs. -/
def barePath (path : String) : String :=
  let plain := path.toList.takeWhile fun c => c != '?' && c != '#'
  String.ofList (plain.reverse.dropWhile (· == '/')).reverse

/-- The routes of a bare path by method. The pages that describe the interface are left out. -/
def routesOf (path : String) : List (String × Route) :=
  if path = "/api/health" then [("GET", .health)]
  else if path = "/api/evaluate" then [("POST", .evaluate)]
  else if path = "/api/preview" then [("POST", .preview)]
  else if path = "/api/input" then [("POST", .press)]
  else if path = "/api/history" then [("GET", .listHistory), ("DELETE", .clearHistory)]
  else []

/-- The route of a request, or the answer to one that has none. -/
def Request.route (r : Request) : Except Answer Route :=
  match routesOf (barePath r.path) with
  | [] => .error .notFound
  | routes =>
    match routes.lookup r.method with
    | some route => .ok route
    | none => .error .notAllowed

/-- The answer to violations. One that cannot be shown, because its value has no JSON text, brings
the answer down. -/
def refuse (violations : List Violation) : Answer :=
  if violations.all (·.value.isPlain) then .invalid violations else .crashed

/-- Reads a request's body and answers it, or tells its violations. -/
def withInput {α : Type} (r : Request) (file : File) (read : Fields → Except (List Violation) α)
    (reply : α → Answer × File) : Answer × File :=
  match Body.ofChars r.body with
  | .unparsable => (.unparsable, file)
  | .violation v => (refuse [v], file)
  | .object fields =>
    match read fields with
    | .error violations => (refuse violations, file)
    | .ok input => reply input

/-- The answer about a value: its operand text within the length limit, and whether that is the
whole text. -/
def evaluatedAnswer (expression : List Char) (result : Binary64) : Answer :=
  match operand (some maxExpressionLength) result, operand none result with
  | .ok next, .ok full => .evaluated expression result next (next == full)
  | _, _ => .crashed

/-- Evaluates an expression, and records it unless it is blank. -/
def evaluateReply (store : Store) (now : Binary64) (file : File) (expression : List Char) :
    Answer × File :=
  match evaluate expression with
  | .error fault =>
    match fault.report? with
    | some report => (.rejected report, file)
    | none => (.crashed, file)
  | .ok result =>
    if isBlankText expression then (evaluatedAnswer expression result, file)
    else
      let outcome := store.add file ⟨.ofChars expression, result, milliseconds now⟩
      match outcome.answer with
      | .ok _ => (evaluatedAnswer expression result, outcome.file)
      | .error fault =>
        match fault.message? with
        | some detail => (.failed detail, outcome.file)
        | none => (.crashed, outcome.file)

/-- The answer about entries. One whose expression holds a lone half of a surrogate pair cannot be
shown, and brings the answer down. -/
def listedAnswer (entries : List Entry) : Answer :=
  if entries.all (·.expression.toChars?.isSome) then .listed entries else .crashed

/-- Lists the history. -/
def listReply (store : Store) (file : File) : Answer × File :=
  match (store.load file).answer with
  | .ok entries => (listedAnswer entries, file)
  | .error _ => (.crashed, file)

/-- Clears the history. -/
def clearReply (store : Store) (file : File) : Answer × File :=
  let outcome := store.clear file
  match outcome.answer with
  | .ok count => (.cleared count, outcome.file)
  | .error fault =>
    match fault.message? with
    | some _ => (.failed "Failed to clear history", outcome.file)
    | none => (.crashed, outcome.file)

/-- The answer to a request at a clock reading, and the history file afterwards. -/
def handle (store : Store) (now : Binary64) (file : File) (r : Request) : Answer × File :=
  match r.route with
  | .error answer => (answer, file)
  | .ok .health => (.healthy, file)
  | .ok .evaluate => withInput r file evaluateInput (evaluateReply store now file)
  | .ok .preview =>
    withInput r file previewInput fun input =>
      (.previewed (DeskCalculator.preview input.expression input.lastResult), file)
  | .ok .press =>
    withInput r file pressInput fun input =>
      let screen := Keypad.Screen.press none ⟨input.expression, input.lastResult⟩ input.key
      (.pressed screen.expression screen.preview, file)
  | .ok .listHistory => listReply store file
  | .ok .clearHistory => clearReply store file

/-- The answers to requests in turn, each at its clock reading, with the history file after each. -/
def handleAll (store : Store) (file : File) : List (Binary64 × Request) → List (Answer × File)
  | [] => []
  | (now, r) :: rest =>
    let reply := handle store now file r
    reply :: handleAll store reply.2 rest

end DeskCalculator.Service
