import DeskCalculator.History.Entry
import DeskCalculator.History.File
import DeskCalculator.Text.Slice

/-!
# The history store

* `Store` : the key of the history in the file's object, and how many entries are kept;
* `Outcome` : an answer or a fault, the levels of what was logged, and the file afterwards;
* `Store.load`, `Store.add`, `Store.clear` : the operations.
-/

namespace DeskCalculator

/-- A history in one field of a file's object. -/
structure Store where
  key : List Char
  limit : Int
  deriving DecidableEq

/-- What an operation on a store comes to. -/
structure Outcome (α : Type) where
  answer : Except WriteFault α
  levels : List Level
  file : File

namespace Store

/-- The store's key. -/
def field (s : Store) : Text := .ofChars s.key

/-- The entries of a list's items, newest first, and a warning for each item that is none. -/
def entriesOf : List Json → List Entry × List Level
  | [] => ([], [])
  | item :: rest =>
    let (entries, levels) := entriesOf rest
    match Entry.ofJson? item with
    | some e => (e :: entries, levels)
    | none => (entries, .warning :: levels)

/-- The entries in an object. A value that is no list is warned about and counts as empty. -/
def entries (s : Store) (fields : Fields) : List Entry × List Level :=
  match Fields.get? s.field fields with
  | none => ([], [])
  | some (.list items) => entriesOf items
  | some _ => ([], [.warning])

/-- The stored entries, newest first. -/
def load (s : Store) (file : File) : Outcome (List Entry) :=
  let (fields, reading) := file.fields
  let (entries, skipping) := s.entries fields
  ⟨.ok entries, reading ++ skipping, file⟩

/-- Levels of what writing logs after a fault. -/
def faultLevels : WriteFault → List Level
  | .refused => [.error]
  | .loneHalf => []

/-- Writes an object and answers `answer`, or keeps the file as it is. -/
def commit {α : Type} (file : File) (levels : List Level) (fields : Fields) (answer : α) :
    Outcome α :=
  match file.write fields with
  | .ok written => ⟨.ok answer, levels ++ [.info], written⟩
  | .error fault => ⟨.error fault, levels ++ faultLevels fault, file⟩

/-- Puts an entry before the stored ones, and drops the oldest beyond the limit. -/
def add (s : Store) (file : File) (e : Entry) : Outcome Entry :=
  let (fields, reading) := file.fields
  let (entries, skipping) := s.entries fields
  let kept := upTo s.limit (e :: entries)
  commit file (reading ++ skipping) (Fields.put s.field (.list (kept.map Entry.toJson)) fields) e

/-- Removes the history, and answers how many items it had. -/
def clear (s : Store) (file : File) : Outcome Nat :=
  let (fields, reading) := file.fields
  let count := match Fields.get? s.field fields with
    | some (.list items) => items.length
    | _ => 0
  commit file reading (Fields.remove s.field fields) count

end Store

/-- What is reported about an object that was not written, if it is told to users. -/
def WriteFault.message? : WriteFault → Option String
  | .refused => some "Failed to save history"
  | .loneHalf => none

end DeskCalculator
