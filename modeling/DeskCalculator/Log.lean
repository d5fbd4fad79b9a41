/-!
# Log records

* `Level` : the five levels, from `debug` to `critical`; `Level.severity`, `Level.name`;
* `Channel` : who speaks; `Channel.name`;
* `Record` : a message with its channel and level; `Record.line` : its line in a log.
-/

namespace DeskCalculator

/-- How serious a record is. -/
inductive Level
  | debug
  | info
  | warning
  | error
  | critical
  deriving DecidableEq

namespace Level

/-- Levels in increasing order. -/
def severity : Level → Nat
  | .debug => 10
  | .info => 20
  | .warning => 30
  | .error => 40
  | .critical => 50

/-- The level's name. -/
def name : Level → String
  | .debug => "DEBUG"
  | .info => "INFO"
  | .warning => "WARNING"
  | .error => "ERROR"
  | .critical => "CRITICAL"

/-- Every level, the mildest first. -/
def all : List Level := [debug, info, warning, error, critical]

/-- The level of a name in capitals. -/
def ofName? (s : List Char) : Option Level := all.find? fun l => l.name.toList == s

end Level

/-- Who speaks in a log. -/
inductive Channel
  | calculator
  | tokenizer
  | converter
  | configuration
  deriving DecidableEq

/-- The channel's name. -/
def Channel.name : Channel → String
  | .calculator => "calculator_app.services.calculator"
  | .tokenizer => "calculator_app.services.expression.tokenizer"
  | .converter => "calculator_app.services.expression.converter"
  | .configuration => "calculator_app.core.config"

/-- A message with its channel and level. -/
structure Record where
  channel : Channel
  level : Level
  message : String
  deriving DecidableEq

/-- The record's line in a log, after the time. -/
def Record.line (r : Record) : String :=
  r.channel.name ++ " - " ++ r.level.name ++ " - " ++ r.message

end DeskCalculator
