import DeskCalculator.Json.Coerce

/-!
# Variables

* `Variables` : names in order, each with a text or without; `Variables.put` keeps a name's place;
* `Variables.setting?` : the text of a setting's variable, whatever the case of its name;
* `reference?` : a reference to a variable, `${NAME}` or `${NAME:-usual}`, at the start of a text;
* `expanded` : a text with its references replaced;
* `Variables.resolved` : variables whose texts refer to earlier ones and to the environment.
-/

namespace DeskCalculator

/-- Names in order, each with a text or without. -/
abbrev Variables := List (List Char × Option (List Char))

/-- Every setting's variable begins with this. -/
def variableStem : String := "calculator_"

namespace Variables

/-- The variables with a new entry for a name: at the place that the name has, or else at the
end. -/
def put (name : List Char) (text : Option (List Char)) : Variables → Variables
  | [] => [(name, text)]
  | (n, t) :: rest => if n = name then (name, text) :: rest else (n, t) :: put name text rest

/-- A small letter for a letter of the English alphabet; the Kelvin sign is a capital K. -/
def small (c : Char) : Char := if c = '\u212A' then 'k' else c.toLower

/-- The text of a setting's variable, whatever the case of its name; the last one counts. -/
def setting? (vars : Variables) (setting : String) : Option (List Char) :=
  (vars.reverse.find? fun (name, _) => name.map small == (variableStem ++ setting).toList).bind
    (·.2)

end Variables

/-! ## References -/

/-- A reference at the start of a text: the name, the text that stands in for a variable that is
missing, and what follows. -/
def reference? : List Char → Option (List Char × List Char × List Char)
  | '$' :: '{' :: inside =>
    match inside.span fun c => c != '}' && c != ':' with
    | (name, '}' :: after) => some (name, [], after)
    | (name, ':' :: '-' :: more) =>
      match more.span (· != '}') with
      | (usual, _ :: after) => some (name, usual, after)
      | (_, []) => none
    | _ => none
  | _ => none

/-- The text with the references in its first `fuel` parts replaced. A part is a reference or a
character. -/
def expandedWithin (vars : Variables) : Nat → List Char → List Char
  | 0, cs => cs
  | _, [] => []
  | fuel + 1, c :: rest =>
    match reference? (c :: rest) with
    | some (name, usual, after) =>
      match vars.lookup name with
      | some text => text.getD [] ++ expandedWithin vars fuel after
      | none => usual ++ expandedWithin vars fuel after
    | none => c :: expandedWithin vars fuel rest

/-- The text with its references replaced. A variable without a text counts as empty. -/
def expanded (vars : Variables) (cs : List Char) : List Char := expandedWithin vars cs.length cs

/-- The variables after assignments in turn. A text may refer to what was assigned before it, or
else to the environment. -/
def Variables.resolved (environment assignments : Variables) : Variables :=
  assignments.foldl
    (fun done (name, text) => done.put name (text.map (expanded (done ++ environment)))) []

end DeskCalculator
