import DeskCalculator.Json.Reader
import DeskCalculator.Json.Writer
import DeskCalculator.Log

/-!
# The file behind a history

* `File` : what is found at the file's path;
* `File.fields` : the object that the file holds, with the levels of what is logged; whatever cannot
  be read counts as an empty object;
* `File.write` : the file after an object was written, or why it was not.
-/

namespace DeskCalculator

-- Bytes are compared by the core library, also where another library compares them.
attribute [local instance (high)] ByteArray.instDecidableEq

/-- What is found at the file's path. -/
inductive File
  /-- Nothing, and a file can be created. -/
  | missing
  /-- A file. -/
  | present (bytes : ByteArray)
  /-- Nothing, and no file can be created: the parent is no directory. -/
  | blocked
  /-- A directory. -/
  | directory
  deriving DecidableEq

/-- Why an object was not written. -/
inductive WriteFault
  /-- There can be no file at the path. -/
  | refused
  /-- Its text holds a lone half of a surrogate pair, which has no bytes. -/
  | loneHalf
  deriving DecidableEq

namespace File

/-- The object that a file's bytes hold, however deep it is nested. -/
def decode? (bytes : ByteArray) : Option Fields :=
  match String.fromUTF8? bytes with
  | none => none
  | some s =>
    match Json.read s.toList with
    | .ok (.object fields) => some fields
    | _ => none

/-- The object that the file holds, and the levels of what reading logs. Where nothing is, nothing
is logged; what is there but cannot be read is warned about. -/
def fields : File → Fields × List Level
  | .missing => ([], [])
  | .blocked => ([], [])
  | .directory => ([], [.warning])
  | .present bytes =>
    match decode? bytes with
    | some fields => (fields, [])
    | none => ([], [.warning])

/-- The file after an object was written. The old file stays until the new one is complete. -/
def write (file : File) (fields : Fields) : Except WriteFault File :=
  match file, Json.write? (.object fields) with
  | .blocked, _ => .error .refused
  | _, none => .error .loneHalf
  | .directory, some _ => .error .refused
  | _, some bytes => .ok (.present bytes)

end File

end DeskCalculator
