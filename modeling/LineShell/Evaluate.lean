import LineShell.Environment
import LineShell.Host
import LineShell.Statement.Parse

/-!
Running statements. Builtins run in the shell, everything else is a child of the host.
-/

namespace LineShell

structure Shell (σ : Type) where
  env : Environment
  world : σ

abbrev Outcome := Except ShellError Int

namespace Outcome

def status : Outcome → Int
  | .ok status => status
  | .error e => e.exitStatus

end Outcome

def isIdentifierChar (c : Char) : Bool :=
  c.isAlphanum || c == '_'

def identifierProblem? (name : String) : Option EvalError :=
  match name.toList with
  | [] => some .emptyIdentifier
  | cs =>
    match cs.zipIdx.find? fun (c, _) => !isIdentifierChar c with
    | some (c, index) => some (.invalidIdentifier c index)
    | none => none

def helpText : String :=
  let keyword (k : Keyword) := Ansi.bold ++ Ansi.brightBlue ++ k.word ++ Ansi.reset
  let operator (text : String) := Ansi.magenta ++ text ++ Ansi.reset
  Ansi.bold ++ Ansi.green ++ "snash" ++ Ansi.reset ++ " help, version " ++ Ansi.cyan ++ "0.1.0" ++
    Ansi.reset ++ "\n" ++
  "\n  " ++ Ansi.green ++ Ansi.italics ++ "A small shell for Unix-like systems" ++ Ansi.reset ++
    "\n\n" ++
  "Built-in commands:\n" ++
  "  " ++ keyword .help ++ "                Show this message\n" ++
  "  " ++ keyword .echo ++ " [str...]       Output a string\n" ++
  "  " ++ keyword .exit ++ " [int]          Exit the shell with an exit code\n" ++
  "  " ++ keyword .changeDir ++ " [path]           Change the current directory\n" ++
  "  " ++ keyword .define ++ " NAME = VALUE    Create a variable\n" ++
  "  " ++ keyword .share ++ " NAME         Pass a variable on to commands\n" ++
  "\nCommands chain with " ++ operator "&&" ++ " and " ++ operator "||" ++
    ", and group with ( ).\n"

namespace Shell

variable {σ : Type}

def setStatus (s : Shell σ) (status : Int) : Shell σ :=
  { s with env := { s.env with lastStatus := status } }

def setGlobals (s : Shell σ) (globals : Scope) : Shell σ :=
  { s with env := { s.env with globals := globals } }

def print (host : Host σ) (s : Shell σ) (text : String) : Except EvalError Int × Shell σ :=
  match host.print s.world text with
  | (none, world) => (.ok 0, { s with world := world })
  | (some reason, world) => (.error (.output reason), { s with world := world })

def runCommand (host : Host σ) (s : Shell σ) (name : String) (args : List String) :
    Except EvalError Int × Shell σ :=
  match (host.files s.world).resolve name (s.env.get? "PATH") with
  | none => (.error (.commandNotFound name), s)
  | some program =>
    let (ending, world) := host.spawn s.world ⟨program, name, args, s.env.globals.exported⟩
    let result :=
      match ending with
      | .exited code => .ok code
      | .killed signal => .ok (128 + signal)
      | .notFound => .error (.commandNotFound name)
      | .failed reason => .error (.spawn name reason)
    (result, { s with world := world })

def changeDir (host : Host σ) (s : Shell σ) (path : String) : Except EvalError Int × Shell σ :=
  match s.env.expandHome path with
  | none => (.error (.homeNotSet path), s)
  | some target =>
    match host.changeDir s.world target with
    | none => (.error (.fileNotFound path), s)
    | some world =>
      let env :=
        match host.workingDir world with
        | .ok dir => s.env.create "PWD" dir true
        | .error _ => s.env
      (.ok 0, ⟨env, world⟩)

def perform (host : Host σ) (s : Shell σ) : Action → Except EvalError Int × Shell σ
  | .run name args => s.runCommand host name args
  | .exit code =>
    (.ok (code.getD s.env.lastStatus), { s with env := { s.env with forcedExit := true } })
  | .echo message => s.print host (message ++ "\n")
  | .changeDir path => s.changeDir host path
  | .help => s.print host helpText
  | .define name value =>
    match identifierProblem? name with
    | some problem => (.error problem, s)
    | none => (.ok 0, s.setGlobals (s.env.globals.create name value false))
  | .assign name value =>
    match s.env.globals.setValue? name value with
    | some globals => (.ok 0, s.setGlobals globals)
    | none => (.error (.variableNotFound name), s)
  | .share name =>
    match s.env.globals.setExported? name true with
    | some globals => (.ok 0, s.setGlobals globals)
    | none => (.error (.variableNotFound name), s)

def record (outcome : Outcome) (s : Shell σ) : Outcome × Shell σ :=
  (outcome, s.setStatus outcome.status)

/-- Runs a statement. The right side of a chain runs if the operator asks for it and the session has
not been told to end; a failure stops the chain. -/
def exec (host : Host σ) (s : Shell σ) : Statement → Outcome × Shell σ
  | .action position action =>
    let (result, s) := s.perform host action
    record (result.mapError fun e => ⟨position, .eval e⟩) s
  | .chain _ op left right =>
    match s.exec host left with
    | (.error e, s) => record (.error e) s
    | (.ok status, s) =>
      if op.continues status && !s.env.forcedExit then
        let (outcome, s) := s.exec host right
        record outcome s
      else record (.ok status) s

/-- Runs statements in order up to the first failure or the end of the session. The status of no
statement at all is the last one. -/
def execAll (host : Host σ) (s : Shell σ) : List Statement → Outcome × Shell σ
  | [] => (.ok s.env.lastStatus, s)
  | statement :: rest =>
    match s.exec host statement with
    | (.error e, s) => (.error e, s)
    | (.ok status, s) => if s.env.forcedExit then (.ok status, s) else s.execAll host rest

def evaluate (host : Host σ) (s : Shell σ) (path source : String) : Outcome × Shell σ :=
  match Statement.parse path source with
  | .error e => (.error e, s.setStatus 1)
  | .ok statements => s.execAll host statements

end Shell

end LineShell
