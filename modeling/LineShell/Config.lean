import LineShell.Environment
import LineShell.Text

/-!
Configuration: lines of the form `key=value`. Blank lines and lines that start with a hash sign are
skipped. Values keep their spacing, so that prompts can end in a space.
-/

namespace LineShell

structure Config where
  prompt : String := "\\u@\\h \\w $ "
  promptError : String := "\\[\\e[1m\\e[91m\\][\\ex]\\[\\e[0m\\] \\u@\\h \\w $ "
  promptMultiline : String := "> "
  historyFile : Option String := none
  historyMax : Nat := 500
  interactive : Bool := true
  showPossibleErrors : Bool := true
  syntaxHighlighting : Bool := true
  /-- Variables by name, in ascending order. -/
  vars : List (String × String) := []
  deriving DecidableEq, Repr

inductive ConfigProblem where
  | noEquals (line : String)
  | invalidNumber (value : String)
  | invalidBoolean (value : String)
  | emptyVariableName
  | unknownKey (key : String)
  deriving DecidableEq, Repr

namespace ConfigProblem

def message : ConfigProblem → String
  | noEquals line => "No '=' found: " ++ line
  | invalidNumber value => "Invalid number: " ++ value
  | invalidBoolean value => "Invalid boolean: " ++ value
  | emptyVariableName => "Empty variable name"
  | unknownKey key => "Unknown key: " ++ key

end ConfigProblem

inductive ConfigError where
  | io (error : IoError)
  | line (number : Nat) (problem : ConfigProblem)
  deriving DecidableEq, Repr

namespace ConfigError

def message : ConfigError → String
  | io e => "IO error: " ++ e.message
  | line number problem => "Line " ++ toString number ++ ": " ++ problem.message

end ConfigError

namespace Config

def default : Config := {}

def parseBool? (value : String) : Option Bool :=
  let word := Text.trim value
  if ["true", "yes", "on", "1"].contains word then some true
  else if ["false", "no", "off", "0"].contains word then some false
  else none

def putVariable (name value : String) : List (String × String) → List (String × String)
  | [] => [(name, value)]
  | (other, old) :: rest =>
    if name < other then (name, value) :: (other, old) :: rest
    else if name = other then (name, value) :: rest
    else (other, old) :: putVariable name value rest

def variableMark : List Char := ['e', 'n', 'v', '.']

/-- Takes the mark off the start of a key as often as it stands there. -/
def dropMarks : List Char → List Char
  | 'e' :: 'n' :: 'v' :: '.' :: rest => dropMarks rest
  | name => name

def set (c : Config) (key value : String) : Except ConfigProblem Config :=
  let flag (update : Bool → Config) : Except ConfigProblem Config :=
    match parseBool? value with
    | some on => .ok (update on)
    | none => .error (.invalidBoolean (Text.trim value))
  match key with
  | "prompt" => .ok { c with prompt := value }
  | "prompt_error" => .ok { c with promptError := value }
  | "prompt_multiline" => .ok { c with promptMultiline := value }
  | "history_file" =>
    let file := Text.trim value
    .ok { c with historyFile := if file = "" then none else some file }
  | "history_max" =>
    match Text.word64? (Text.trim value) with
    | some n => .ok { c with historyMax := n }
    | none => .error (.invalidNumber (Text.trim value))
  | "interactive" => flag fun on => { c with interactive := on }
  | "show_possible_errors" => flag fun on => { c with showPossibleErrors := on }
  | "syntax_highlighting" => flag fun on => { c with syntaxHighlighting := on }
  | _ =>
    if variableMark.isPrefixOf key.toList then
      let name := String.ofList (dropMarks key.toList)
      if name = "" then .error .emptyVariableName
      else .ok { c with vars := putVariable name value c.vars }
    else .error (.unknownKey key)

def isIgnored (line : List Char) : Bool :=
  (Text.trimStartChars line).head?.all (· = '#')

def applyLine (c : Config) (line : String) : Except ConfigProblem Config :=
  let cs := line.toList
  if isIgnored cs then .ok c
  else
    match cs.dropWhile (· ≠ '=') with
    | [] => .error (.noEquals line)
    | _ :: value =>
      let key := Text.trimChars (cs.takeWhile (· ≠ '='))
      c.set (String.ofList key) (String.ofList value)

def applyLines (c : Config) (number : Nat) : List String → Except ConfigError Config
  | [] => .ok c
  | line :: rest =>
    match c.applyLine line with
    | .ok next => next.applyLines (number + 1) rest
    | .error problem => .error (.line number problem)

def parse (source : String) : Except ConfigError Config :=
  default.applyLines 1 (Text.lines source)

def ofFile : Except IoError ByteArray → Except ConfigError Config
  | .error e => .error (.io e)
  | .ok bytes =>
    match String.fromUTF8? bytes with
    | some text => parse text
    | none => .error (.io .invalidText)

/-- Creates the configured variables, then the prompts that have no variable yet. -/
def apply (c : Config) (env : Environment) : Environment :=
  let env := c.vars.foldl (fun env (name, value) => env.create name value false) env
  let prompts :=
    [("PROMPT", c.prompt), ("PROMPT_ERROR", c.promptError),
      ("PROMPT_MULTILINE", c.promptMultiline)]
  prompts.foldl
    (fun env (name, value) =>
      if env.globals.contains name then env else env.create name value false) env

def historyName : String := ".snash_history"

def historyPath (c : Config) (env : Environment) : Option String :=
  match c.historyFile with
  | some path => some path
  | none =>
    match env.get? "HOME" with
    | none | some "" => none
    | some home =>
      let dir := (home.toList.reverse.dropWhile (· = '/')).reverse
      some (String.ofList dir ++ "/" ++ historyName)

end Config

end LineShell
