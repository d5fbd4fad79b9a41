import DeskCalculator.Decimal.Numeral
import DeskCalculator.Expression.Fault
import DeskCalculator.Text.Blank

/-!
# Lexemes

* `Lexeme` : a run of digits and points, or any other character alone;
* `lexemes` : the lexemes of a text, each run as long as it can be;
* `Lexeme.token` : the token of a lexeme, or its fault;
* `tokenize` : the tokens of an expression, or the fault of its first faulty lexeme.
-/

namespace DeskCalculator

/-- A run of digits and points, or any other character alone. -/
inductive Lexeme
  | run (cs : List Char)
  | mark (c : Char)
  deriving DecidableEq

/-- The characters that numbers are made of. -/
def isNumberChar (c : Char) : Bool := isDigit c || c == '.'

/-- The lexeme of a character and the lexemes after it: a number character extends a run that
follows. -/
def Lexeme.extend (c : Char) (after : List Lexeme) : List Lexeme :=
  if isNumberChar c then
    match after with
    | .run cs :: rest => .run (c :: cs) :: rest
    | rest => .run [c] :: rest
  else .mark c :: after

/-- The lexemes of a text. -/
def lexemes (cs : List Char) : List Lexeme := cs.foldr Lexeme.extend []

/-- The numeral of a run: digits, then optionally a point, with at least one digit at the end. -/
def runNumeral? (run : List Char) : Option Numeral :=
  let (whole, rest) := run.span isDigit
  match rest with
  | [] => if whole.isEmpty then none else some ⟨false, whole, none, none⟩
  | _ :: fraction =>
    if fraction.isEmpty || !fraction.all isDigit then none
    else some ⟨false, whole, some fraction, none⟩

namespace Lexeme

/-- The token of a lexeme, or its fault. -/
def token : Lexeme → Except Fault Token
  | .run cs =>
    match runNumeral? cs with
    | none => .error (.invalidNumber cs)
    | some numeral =>
      let value := numeral.toBinary64
      if value.isFinite then .ok (.number value) else .error .numberTooLarge
  | .mark '(' => .ok .opening
  | .mark ')' => .ok .closing
  | .mark c =>
    match Operator.ofChar? c with
    | some operator => .ok (.op operator)
    | none => .error (.unexpectedCharacter c)

end Lexeme

/-- The text without its blanks. -/
def withoutBlanks (cs : List Char) : List Char := cs.filter (!isBlank ·)

/-- The tokens of an expression, or the fault of its first faulty lexeme. Blanks have no effect
anywhere, not even inside a number. -/
def tokenize (expression : List Char) : Except Fault (List Token) :=
  (lexemes (withoutBlanks expression)).mapM Lexeme.token

end DeskCalculator
