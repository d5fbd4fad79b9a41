import DeskCalculator.Settings.Variables

/-!
# Files of variables

A line assigns a text to a name, `NAME=text`, with an optional `export` in front. A text may stand in
single or double quotes and then span lines; outside quotes it ends at the line's end or at a number
sign after a blank. A line that begins with a number sign is a comment, and what cannot be read is
skipped up to the end of its line.

* `unifiedLines` : a text whose lines all end alike;
* `Assignment` : a name and perhaps a text; `assignment` : the one at the start of a text;
* `variablesOf` : the variables of a file.
-/

namespace DeskCalculator.VariableFile

/-! ## Lines -/

/-- The text with every end of a line, be it a carriage return, a newline or both, as a newline. -/
def unifiedLines : List Char → List Char
  | '\r' :: '\n' :: rest => '\n' :: unifiedLines rest
  | '\r' :: rest => '\n' :: unifiedLines rest
  | c :: rest => c :: unifiedLines rest
  | [] => []

/-- A blank within a line. -/
def isLineBlank (c : Char) : Bool := isBlank c && c != '\n'

/-- What follows the current line. -/
def nextLine (cs : List Char) : List Char := (cs.dropWhile (· != '\n')).drop 1

/-- What follows the line if only blanks and a comment are left of it. -/
def endOfLine? (cs : List Char) : Option (List Char) :=
  match cs.dropWhile isLineBlank with
  | [] => some []
  | c :: after => if c = '#' ∨ c = '\n' then some (nextLine (c :: after)) else none

/-! ## Quotes -/

/-- The character that an escape inside quotes stands for. -/
def unescape? (quote : Char) : Char → Option Char
  | '\\' => some '\\'
  | '\'' => some '\''
  | c =>
    if quote = '\'' then none
    else match c with
      | '"' => some '"'
      | 'a' => some '\x07'
      | 'b' => some '\x08'
      | 'f' => some '\x0c'
      | 'n' => some '\n'
      | 'r' => some '\r'
      | 't' => some '\t'
      | 'v' => some '\x0b'
      | _ => none

/-- The text up to the closing quote, and what follows; `none` if there is no closing quote. A
backslash keeps the character after it inside. -/
def quotedText? (quote : Char) : List Char → Option (List Char × List Char)
  | '\\' :: c :: rest =>
    (quotedText? quote rest).map fun (text, after) => ('\\' :: c :: text, after)
  | c :: rest =>
    if c = quote then some ([], rest)
    else (quotedText? quote rest).map fun (text, after) => (c :: text, after)
  | [] => none

/-- The text with its escapes replaced. -/
def unescaped (quote : Char) : List Char → List Char
  | '\\' :: c :: rest =>
    match unescape? quote c with
    | some d => d :: unescaped quote rest
    | none => '\\' :: unescaped quote (c :: rest)
  | c :: rest => c :: unescaped quote rest
  | [] => []

/-! ## Assignments -/

/-- An unquoted text up to a number sign after a blank. -/
def beforeComment (afterBlank : Bool) : List Char → List Char
  | [] => []
  | c :: rest =>
    if c = '#' ∧ afterBlank then [] else c :: beforeComment (isBlank c) rest

/-- The text after an equals sign and blanks, and what follows it; `none` if a quote is not
closed. -/
def textOf? (afterBlank : Bool) (cs : List Char) : Option (List Char × List Char) :=
  match cs with
  | '\'' :: rest =>
    (quotedText? '\'' rest).map fun (text, after) => (unescaped '\'' text, after)
  | '"' :: rest => (quotedText? '"' rest).map fun (text, after) => (unescaped '"' text, after)
  | _ =>
    let (line, after) := cs.span (· != '\n')
    some (trim isBlank (beforeComment afterBlank line), after)

/-- The name at the start, and what follows it; `none` if there is no name. -/
def nameOf? (cs : List Char) : Option (List Char × List Char) :=
  match cs with
  | '\'' :: rest =>
    match rest.span (· != '\'') with
    | (_, []) => none
    | ([], _) => none
    | (name, _ :: after) => some (name, after)
  | _ =>
    let (name, after) := cs.span fun c => c != '=' && c != '#' && !isBlank c
    if name.isEmpty then none else some (name, after)

/-- The list without `export` and the blanks after it. -/
def skipExport (cs : List Char) : List Char :=
  if "export".toList.isPrefixOf cs && (cs.drop 6).head?.any isLineBlank then
    (cs.drop 6).dropWhile isLineBlank
  else cs

/-- A name and perhaps a text. -/
abbrev Assignment := List Char × Option (List Char)

/-- The assignment with what follows its line, or the rest of the line where reading stopped. -/
def closed (a : Assignment) (cs : List Char) : Option Assignment × List Char :=
  match endOfLine? cs with
  | some rest => (some a, rest)
  | none => (none, nextLine cs)

/-- The assignment at the start of a text, if one can be read, and where to read on. A name without
an equals sign has no text. -/
def assignment (cs : List Char) : Option Assignment × List Char :=
  let start := skipExport cs
  match nameOf? start with
  | none => (none, nextLine start)
  | some (name, afterName) =>
    match afterName.dropWhile isLineBlank with
    | '=' :: afterSign =>
      let beforeText := afterSign.dropWhile isLineBlank
      match textOf? (afterSign.head?.any isLineBlank) beforeText with
      | none => (none, nextLine beforeText)
      | some (text, afterText) => closed (name, some text) afterText
    | afterBlanks => closed (name, none) afterBlanks

/-- The assignments on the first `fuel` lines. -/
def assignmentsWithin : Nat → List Char → List Assignment
  | 0, _ => []
  | fuel + 1, cs =>
    match cs.dropWhile isBlank with
    | [] => []
    | start =>
      let (found, rest) := assignment start
      found.toList ++ assignmentsWithin fuel rest

/-- The variables of a file, whose texts may refer to an environment. -/
def variablesOf (environment : Variables) (cs : List Char) : Variables :=
  environment.resolved (assignmentsWithin (cs.length + 1) (unifiedLines (withoutMark cs)))

end DeskCalculator.VariableFile
