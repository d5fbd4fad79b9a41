import DeskCalculator.Expression.Evaluation
import DeskCalculator.Keypad.Sign

/-!
# Pressing keys

* `press` : the expression after a key;
* `pressAll` : the expression after several keys;
* `Screen` : an expression with its preview; `session` : the screens after each of several keys.
-/

namespace DeskCalculator.Keypad

/-- The characters that are keys of their own. -/
def isCharacterKey (c : Char) : Bool :=
  isDigit c || isOperatorChar c || c == '.' || c == '(' || c == ')'

/-- The expression after a key; unknown keys change nothing. -/
def press (limit : Option Int) (expression key : List Char) : List Char :=
  if key = "clear".toList ∨ key = "Escape".toList then []
  else if key = "backspace".toList ∨ key = "Backspace".toList then backspace expression
  else if key = "toggleSign".toList then toggleSign limit expression
  else match key with
    | [c] => if isCharacterKey c then appendValue limit expression key else expression
    | _ => expression

/-- The expression after keys in turn. -/
def pressAll (limit : Option Int) (expression : List Char) (keys : List (List Char)) : List Char :=
  keys.foldl (press limit) expression

/-- An expression with its preview. -/
structure Screen where
  expression : List Char
  preview : Binary64
  deriving DecidableEq

/-- The screen after a key. -/
def Screen.press (limit : Option Int) (s : Screen) (key : List Char) : Screen :=
  let expression := Keypad.press limit s.expression key
  ⟨expression, DeskCalculator.preview expression s.preview⟩

/-- The screens after each of several keys. -/
def session (limit : Option Int) (s : Screen) : List (List Char) → List Screen
  | [] => []
  | key :: keys =>
    let next := s.press limit key
    next :: session limit next keys

end DeskCalculator.Keypad
