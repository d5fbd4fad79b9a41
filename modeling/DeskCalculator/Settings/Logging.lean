import DeskCalculator.Settings.Basic

/-!
# Setting logging up

* `LogTarget` : what the path of the log file allows;
* `Logging` : the handlers and the mildest level that is logged; `Logging.lines`;
* `Logging.configure` : the logging of a level and a target, with its first record.
-/

namespace DeskCalculator

/-- What the path of the log file allows. -/
inductive LogTarget
  /-- No log file is wanted. -/
  | none
  /-- The file can be written, and its directories made. -/
  | writable
  /-- There can be no file: a parent is no directory. -/
  | blocked
  deriving DecidableEq

/-- Where records go. -/
inductive Handler
  | console
  | file
  deriving DecidableEq

/-- A logging set up. -/
structure Logging where
  handlers : List Handler
  threshold : Level
  deriving DecidableEq

/-- What is reported when logging cannot be set up. -/
def loggingFaultMessage : String := "Failed to setup logging"

namespace Logging

/-- The lines that records leave behind. -/
def lines (l : Logging) (records : List Record) : List String :=
  (records.filter fun r => l.threshold.severity ≤ r.level.severity).map Record.line

/-- The record that tells the level. -/
def announcement (level : Level) : Record :=
  ⟨.configuration, .info, "Logging configured with level: " ++ level.name⟩

/-- The logging of a level and a target, with its first record; `none` if it cannot be set up. -/
def configure (level : Level) : LogTarget → Option (Logging × Record)
  | .none => some (⟨[.console], level⟩, announcement level)
  | .writable => some (⟨[.console, .file], level⟩, announcement level)
  | .blocked => .none

end Logging

end DeskCalculator
