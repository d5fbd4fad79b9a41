import DeskCalculator.History.Store

/-!
# The history step by step

The operations of a store on a disk where any step may fail. A text does not go to the history's path
directly: it is written piece by piece to a temporary file beside it, which then takes the place of
what is at the path.

* `Scene` : what is on the disk, and what was logged; `Work` : what starts on a scene and leaves one
  behind, whether it answers or fails; `Work.result`;
* `Step` : what can fail; `Conditions` : with which steps there is trouble, and the pieces in which a
  text is written;
* `Stepwise.read`, `Stepwise.save` : reading the object at the path, and putting a text there;
* `Stepwise.load`, `Stepwise.add`, `Stepwise.clear` : the operations.
-/

namespace DeskCalculator

/-- The bytes of a text; `none` if it holds a lone half of a surrogate pair. -/
def Text.bytes? (text : Text) : Option ByteArray :=
  text.toChars?.map fun cs => (String.ofList cs).toUTF8

/-- What is on the disk, and what was logged. -/
structure Scene where
  /-- What is found at the history's path. -/
  file : File
  /-- The temporary files beside it, newest first. -/
  temporaries : List ByteArray
  levels : List Level

/-- What goes wrong with a step. -/
inductive Trouble
  /-- The system reports an error. -/
  | system
  /-- Something else breaks down, as when there is too little memory. -/
  | other
  deriving DecidableEq

/-- What an operation that does not answer ends with. -/
inductive Raised
  | trouble (t : Trouble)
  | fault (f : WriteFault)
  deriving DecidableEq

/-- What runs on a scene. -/
abbrev Work (α : Type) := ExceptT Raised (StateM Scene) α

/-- The answer of work that starts on a scene, or what it ends with instead, and the scene that it
leaves. -/
def Work.result {α : Type} (x : Work α) (σ : Scene) : Except Raised α × Scene := x.run.run σ

/-- What can fail. -/
inductive Step
  /-- Making an entry with the time of the clock. -/
  | stamping
  /-- Looking whether there is a file. -/
  | probing
  | reading
  /-- Checking the items of the history. -/
  | checking
  | makingFolder
  /-- Creating a temporary file. -/
  | creating
  /-- Writing a piece of the text. What waits in a buffer counts as written. -/
  | writing (piece : Nat)
  | closing
  | replacing
  deriving DecidableEq

/-- What an operation meets with. -/
structure Conditions where
  trouble : Step → Option Trouble
  /-- The pieces in which a text is written. -/
  pieces : Text → List Text
  flatten_pieces (text : Text) : (pieces text).flatten = text

namespace Stepwise

/-- Takes a step, which may fail. -/
def take (c : Conditions) (step : Step) : Work Unit :=
  match c.trouble step with
  | some t => throw (.trouble t)
  | none => return

/-- Logs records of some levels. -/
def log (levels : List Level) : Work Unit :=
  modify fun σ => { σ with levels := σ.levels ++ levels }

/-- What is at the path. -/
def found : Work File := return (← get).file

/-! ## Reading -/

/-- Reads what is at the path; what the system does not give counts as an empty object. -/
def readFound (c : Conditions) (file : File) : Work Fields :=
  try
    take c .reading
    log file.fields.2
    pure file.fields.1
  catch
    | .trouble .system => do
      log [.warning]
      pure []
    | raised => throw raised

/-- Reads the object at the path; where nothing is, there is nothing to read. -/
def read (c : Conditions) : Work Fields := do
  take c .probing
  match ← found with
  | .missing | .blocked => return []
  | file => readFound c file

/-! ## Writing -/

/-- Makes the folder of the path, if there is none. -/
def makeFolder (c : Conditions) : Work Unit := do
  take c .makingFolder
  match ← found with
  | .blocked => throw (.trouble .system)
  | _ => return

/-- Creates an empty temporary file. -/
def create (c : Conditions) : Work Unit := do
  take c .creating
  modify fun σ => { σ with temporaries := .empty :: σ.temporaries }

/-- Writes pieces of a text, counted from a number on, to the newest temporary file. -/
def writePieces (c : Conditions) : Nat → List Text → Work Unit
  | _, [] => return
  | k, piece :: rest => do
    take c (.writing k)
    match piece.bytes? with
    | none => throw (.fault .loneHalf)
    | some bytes =>
      modify fun σ => { σ with temporaries := σ.temporaries.modifyHead (· ++ bytes) }
      writePieces c (k + 1) rest

/-- Moves the newest temporary file to the path, unless a directory is there. -/
def rename : Work Unit := do
  let σ ← get
  match σ.file, σ.temporaries with
  | .directory, _ => throw (.trouble .system)
  | _, [] => throw (.trouble .system)
  | _, bytes :: older => set ({ σ with file := .present bytes, temporaries := older } : Scene)

/-- An error that the system reports is logged, and refuses what was to be written. -/
def refuse : Raised → Work Unit
  | .trouble .system => do
    log [.error]
    throw (.fault .refused)
  | raised => throw raised

/-- Puts a text at the path. The temporary file is closed whether it was written or not. -/
def save (c : Conditions) (text : Text) : Work Unit :=
  try
    makeFolder c
    create c
    try writePieces c 0 (c.pieces text) finally take c .closing
    take c .replacing
    rename
  catch raised => refuse raised

/-! ## Operations -/

/-- The stored entries in an object, newest first. -/
def entries (s : Store) (c : Conditions) (fields : Fields) : Work (List Entry) := do
  take c .checking
  log (s.entries fields).2
  return (s.entries fields).1

/-- The stored entries, newest first. -/
def load (s : Store) (c : Conditions) : Work (List Entry) := do
  entries s c (← read c)

/-- Puts an entry before the stored ones, and drops the oldest beyond the limit. -/
def add (s : Store) (c : Conditions) (e : Entry) : Work Entry := do
  take c .stamping
  let fields ← read c
  let kept := upTo s.limit (e :: (← entries s c fields))
  save c (Json.render (.object (Fields.put s.field (.list (kept.map Entry.toJson)) fields)))
  log [.info]
  return e

/-- Removes the history, and answers how many items it had. -/
def clear (s : Store) (c : Conditions) : Work Nat := do
  let fields ← read c
  save c (Json.render (.object (Fields.remove s.field fields)))
  log [.info]
  return match Fields.get? s.field fields with
    | some (.list items) => items.length
    | _ => 0

end Stepwise

end DeskCalculator
