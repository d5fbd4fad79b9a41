import DeskCalculator.Json.Token

/-!
# Reading JSON

The reader goes through the tokens once, with the lists and objects that are still open on a stack.

* `Json.Frame` : an open list or object;
* `Json.Phase` : what the reader expects next; `Json.Phase.step` : one token;
* `Json.complete` : what follows a complete value;
* `Json.read` : the value of a text, or why it has none.
-/

namespace DeskCalculator.Json

/-- Why a text has no value. -/
inductive Fault
  /-- It is not well formed. -/
  | malformed
  /-- An integer has more digits than are read. -/
  | oversized
  deriving DecidableEq

/-- An open list with its items so far in reverse, or an open object whose next value is awaited. -/
inductive Frame
  | list (items : List Json)
  | object (fields : Fields) (key : Text)

/-- What the reader expects next, inside the open frames. -/
inductive Phase
  /-- A value. -/
  | value (frames : List Frame)
  /-- The first item of a list, or its end. -/
  | firstItem (frames : List Frame)
  /-- A comma or the end of a list. -/
  | afterItem (items : List Json) (frames : List Frame)
  /-- The first key of an object, or its end. -/
  | firstKey (frames : List Frame)
  /-- A key. -/
  | key (fields : Fields) (frames : List Frame)
  /-- The colon after a key. -/
  | colon (fields : Fields) (key : Text) (frames : List Frame)
  /-- A comma or the end of an object. -/
  | afterField (fields : Fields) (frames : List Frame)
  /-- Nothing more. -/
  | finished (value : Json)
  | failed (fault : Fault)

/-- What is expected after a value in the innermost frame. A repeated key takes the later value at
the earlier place. -/
def complete (v : Json) : List Frame → Phase
  | [] => .finished v
  | .list items :: frames => .afterItem (v :: items) frames
  | .object fields key :: frames => .afterField (fields.put key v) frames

/-- A token where a value has to start. -/
def startValue (frames : List Frame) : Token → Phase
  | .scalar v => complete v frames
  | .openList => .firstItem frames
  | .openObject => .firstKey frames
  | .oversized => .failed .oversized
  | _ => .failed .malformed

/-- One token. -/
def Phase.step : Phase → Token → Phase
  | .value frames, t => startValue frames t
  | .firstItem frames, .closeList => complete (.list []) frames
  | .firstItem frames, t => startValue (.list [] :: frames) t
  | .afterItem items frames, .comma => .value (.list items :: frames)
  | .afterItem items frames, .closeList => complete (.list items.reverse) frames
  | .firstKey frames, .closeObject => complete (.object []) frames
  | .firstKey frames, .scalar (.text k) => .colon [] k frames
  | .key fields frames, .scalar (.text k) => .colon fields k frames
  | .colon fields k frames, .colon => .value (.object fields k :: frames)
  | .afterField fields frames, .comma => .key fields frames
  | .afterField fields frames, .closeObject => complete (.object fields) frames
  | .failed fault, _ => .failed fault
  | _, _ => .failed .malformed

/-- The value of a list of tokens. -/
def ofTokens (ts : List Token) : Except Fault Json :=
  match ts.foldl Phase.step (.value []) with
  | .finished v => .ok v
  | .failed fault => .error fault
  | _ => .error .malformed

/-- The value of a text, or why it has none. Lists and objects are followed to any depth. A reader
that gives up on deep nesting is no part of this, nor of what is said of every file; it is trouble
on a disk that fails (`Stepwise.ReadsTo`). -/
def read (cs : List Char) : Except Fault Json := ofTokens (tokens cs)

end DeskCalculator.Json
