import DeskCalculator.Json.Reader
import DeskCalculator.Keypad.Basic
import DeskCalculator.Log
import DeskCalculator.Settings.Variables
import DeskCalculator.Validation

/-!
# Settings

* `Settings` : what can be configured, with the defaults;
* `Settings.ofSources` : the settings of the environment and of a file of variables;
* `SettingsFault` : why there are none.
-/

namespace DeskCalculator

/-- What can be configured. -/
structure Settings where
  maxExpressionLength : Int := Keypad.defaultLimit
  historyFile : List Char := "data/calculator_history.json".toList
  historyKey : List Char := "calculator.history.v1".toList
  historyLimit : Int := 20
  corsOrigins : List (List Char) := [['*']]
  logLevel : Level := .info
  logFile : List Char := "logs/calculator.log".toList
  deriving DecidableEq

/-- Why there are no settings. -/
inductive SettingsFault
  /-- The list of origins is no JSON text. -/
  | unreadableOrigins
  /-- The log level is unknown. -/
  | unknownLevel
  /-- Fields break rules. -/
  | invalid (violations : List Violation)

/-- What is reported about an unknown log level. -/
def unknownLevelMessage : String :=
  "Invalid log level. Must be one of ["
    ++ ", ".intercalate (Level.all.map fun l => "'" ++ l.name ++ "'") ++ "]"

/-! ## Fields -/

/-- A positive integer from its text, or the default. -/
def positiveSetting (name : String) (default : Int) :
    Option (List Char) → Except (List Violation) Int
  | none => .ok default
  | some text =>
    match readInteger? text with
    | none => .error [⟨.intParsing, [name], .ofChars text⟩]
    | some n => if 0 < n then .ok n else .error [⟨.greaterThan, [name], .ofChars text⟩]

/-- A capital for a letter that has one in the English alphabet. -/
def capital (c : Char) : Char :=
  if c = 'ı' then 'I' else if c = 'ſ' then 'S' else c.toUpper

/-- A log level from its name, in any case. -/
def levelSetting (default : Level) : Option (List Char) → Option Level
  | none => some default
  | some text => Level.ofName? (text.map capital)

/-- The JSON value of a variable; a missing variable and `null` are none. -/
def originsValue : Option (List Char) → Except SettingsFault (Option Json)
  | none => .ok none
  | some text =>
    match Json.read text with
    | .ok .null => .ok none
    | .ok value => .ok (some value)
    | .error _ => .error .unreadableOrigins

/-- The violations of items that are no texts. -/
def originViolations (items : List Json) : List Violation :=
  items.filterMap fun item =>
    match item.toChars with
    | .ok _ => none
    | .error .loneHalf => some ⟨.stringUnicode, ["cors_origins"], item⟩
    | .error _ => some ⟨.stringType, ["cors_origins"], item⟩

/-- A list of texts from its value, or the default. -/
def originsSetting (default : List (List Char)) :
    Option Json → Except (List Violation) (List (List Char))
  | none => .ok default
  | some (.list items) =>
    match originViolations items with
    | [] => .ok (items.filterMap fun item => item.toChars.toOption)
    | violations => .error violations
  | some value => .error [⟨.listType, ["cors_origins"], value⟩]

/-- The violations of a field. -/
def violationsOf {α : Type} : Except (List Violation) α → List Violation
  | .ok _ => []
  | .error violations => violations

namespace Settings

/-- The settings of the environment and of a file of variables. The environment's variables count
before the file's. Origins that are no JSON text are reported before all else, in either source; an
unknown log level before the violations, which are collected in the order of the fields. -/
def ofSources (environment file : Variables) : Except SettingsFault Settings := do
  let get (setting : String) : Option (List Char) :=
    (environment.setting? setting).or (file.setting? setting)
  let fromEnvironment ← originsValue (environment.setting? "cors_origins")
  let fromFile ← originsValue (file.setting? "cors_origins")
  let usual : Settings := {}
  let length := positiveSetting "max_expression_length" usual.maxExpressionLength
    (get "max_expression_length")
  let limit := positiveSetting "history_limit" usual.historyLimit (get "history_limit")
  let origins := originsSetting usual.corsOrigins (fromEnvironment.or fromFile)
  let some level := levelSetting usual.logLevel (get "log_level")
    | throw .unknownLevel
  match length, limit, origins with
  | .ok length, .ok limit, .ok origins =>
    return {
      maxExpressionLength := length
      historyFile := (get "history_file").getD usual.historyFile
      historyKey := (get "history_key").getD usual.historyKey
      historyLimit := limit
      corsOrigins := origins
      logLevel := level
      logFile := (get "log_file").getD usual.logFile }
  | length, limit, origins =>
    throw (.invalid (violationsOf length ++ (violationsOf limit ++ violationsOf origins)))

end Settings

end DeskCalculator
