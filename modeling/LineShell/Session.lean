import LineShell.Config
import LineShell.Editor.ReadLine
import LineShell.Evaluate
import LineShell.Prompt.Template

/-!
Whole sessions: plain lines, scripts, and the interactive shell.
-/

namespace LineShell

open Text (quote)

structure Launch where
  name : String
  args : List String
  vars : List (String × String)
  deriving DecidableEq, Repr

namespace Launch

def get? (launch : Launch) (name : String) : Option String :=
  launch.vars.lookup name

end Launch

namespace Shell

variable {σ : Type}

def complain (host : Host σ) (s : Shell σ) (message : String) : Shell σ :=
  { s with world := host.complain s.world (report message) }

def facts (host : Host σ) (processHome : Option String) (world : σ) : Environment.Facts where
  hostName := host.hostName world
  workingDir := host.workingDir world
  home := (processHome.filter (· ≠ "")).getD (host.home world)

def refresh (host : Host σ) (launch : Launch) (s : Shell σ) : Shell σ :=
  { s with env := s.env.refresh (facts host (launch.get? "HOME") s.world) }

def start (config : Config) (launch : Launch) (world : σ) : Shell σ :=
  let env := config.apply (Environment.ofProcess launch.vars)
  ⟨env.create "SHELL" launch.name true, world⟩

def evaluateReporting (host : Host σ) (s : Shell σ) (path source : String) : Bool × Shell σ :=
  match s.evaluate host path source with
  | (.ok _, s) => (true, s)
  | (.error e, s) => (false, s.complain host e.message)

def readFailure (e : IoError) : String :=
  "Could not read input: " ++ e.message

/-- Evaluates lines in turn until the session is told to end; a line that is no text ends it with
status 1. -/
def runLines (host : Host σ) (s : Shell σ) : List (Option String) → Int × Shell σ
  | [] => (s.env.lastStatus, s)
  | none :: _ => (1, s.complain host (readFailure .invalidText))
  | some line :: rest =>
    let (_, s) := s.evaluateReporting host Editor.inputName line
    if s.env.forcedExit then (s.env.lastStatus, s) else s.runLines host rest

def readText (host : Host σ) (world : σ) (path : String) : Except IoError String := do
  let bytes ← host.readFile world path
  match String.fromUTF8? bytes with
  | some text => .ok text
  | none => .error .invalidText

def runScripts (host : Host σ) (launch : Launch) (s : Shell σ) : List String → Int × Shell σ
  | [] => (s.env.lastStatus, s)
  | path :: rest =>
    match readText host s.world path with
    | .error e => (1, s.complain host ("Could not read file " ++ quote path ++ ": " ++ e.message))
    | .ok source =>
      let (ok, s) := (s.refresh host launch).evaluateReporting host path source
      if !ok then (1, s)
      else if s.env.forcedExit then (s.env.lastStatus, s)
      else s.runScripts host launch rest

def prompt (s : Shell σ) : String :=
  let name := if s.env.lastStatus = 0 then "PROMPT" else "PROMPT_ERROR"
  Prompt.expand s.env ((s.env.get? name).getD "")

def continuationPrompt (s : Shell σ) : String :=
  Prompt.expand s.env ((s.env.get? "PROMPT_MULTILINE").getD Config.default.promptMultiline)

def refreshReporting (host : Host σ) (launch : Launch) (s : Shell σ) : Shell σ :=
  let known := facts host (launch.get? "HOME") s.world
  let s := s.refresh host launch
  match known.failure? with
  | some message => s.complain host message
  | none => s

def readLine (host : Host σ) (s : Shell σ) (editor : Editor) (terminal : Terminal) :
    Except IoError String × Shell σ × Editor × Terminal :=
  let editor := { editor with continuation := s.continuationPrompt }
  let terminal := { terminal with display := ⟨.empty, none⟩ }
  let highlighter : Highlighter := ⟨host.files s.world, s.env.get? "PATH"⟩
  let (result, editor, terminal) := editor.readLine terminal s.prompt (some highlighter)
  (result, { s with world := host.display s.world terminal.display.written }, editor, terminal)

/-- Reads and evaluates lines until input ends or the session is told to. Each line takes at least
one event, so that `fuel` above the number of events is enough. -/
def interact (host : Host σ) (launch : Launch) :
    Nat → Shell σ → Editor → Terminal → Shell σ × Editor × Terminal
  | 0, s, editor, terminal => (s, editor, terminal)
  | fuel + 1, s, editor, terminal =>
    let s := s.refreshReporting host launch
    match s.readLine host editor terminal with
    | (.error e, s, editor, terminal) =>
      if e.isEnd then (s, editor, terminal)
      else ((s.complain host (readFailure e)).setStatus 1, editor, terminal)
    | (.ok input, s, editor, terminal) =>
      let (_, s) := s.evaluateReporting host Editor.inputName input
      if s.env.forcedExit then (s, editor, terminal)
      else interact host launch fuel s editor terminal

def loadHistory (host : Host σ) (s : Shell σ) (limit : Nat) (path : Option String) :
    History × Shell σ :=
  match path with
  | none => (History.empty limit, s)
  | some path =>
    match History.ofFile limit (host.readFile s.world path) with
    | .ok history => (history, s)
    | .error e =>
      (History.empty limit,
        s.complain host ("Could not load history file " ++ quote path ++ ": " ++ e.message))

def saveHistory (host : Host σ) (s : Shell σ) (history : History) (path : Option String) : Shell σ :=
  match path, history.pendingText? with
  | some path, some text =>
    match host.appendFile s.world path text with
    | .ok world => { s with world := world }
    | .error _ => s.complain host ("Could not save history file " ++ quote path)
  | _, _ => s

def features (config : Config) : Features where
  interactive := config.interactive
  showPossibleErrors := config.showPossibleErrors
  syntaxHighlighting := config.syntaxHighlighting

def runInteractive (host : Host σ) (config : Config) (launch : Launch) (terminal : Terminal)
    (world : σ) : Int × Shell σ × Terminal :=
  let s := start config launch world
  let path := config.historyPath s.env
  let (history, s) := s.loadHistory host config.historyMax path
  let editor := Editor.new history (features config)
  let (s, editor, terminal) :=
    interact host launch (terminal.events.length + 1) s editor terminal
  let s := s.saveHistory host editor.history path
  (s.env.lastStatus, s, terminal)

def configVariable : String := "SNASH_CONFIG"

def loadConfig (host : Host σ) (launch : Launch) (world : σ) : Config × σ :=
  match launch.get? configVariable with
  | none => (Config.default, world)
  | some path =>
    match Config.ofFile (host.readFile world path) with
    | .ok config => (config, world)
    | .error e =>
      let message := "Could not load config " ++ quote path ++ ": " ++ e.message
      (Config.default, host.complain world (report message))

inductive Input where
  | bytes (bytes : ByteArray)
  | terminal (terminal : Terminal)

/-- The command line: arguments are scripts; without any the shell is interactive on a terminal, and
reads plain lines from anything else. -/
def invoke (host : Host σ) (launch : Launch) (input : Input) (world : σ) :
    Int × σ × Option Terminal :=
  let (config, world) := loadConfig host launch world
  match launch.args, input with
  | [], .bytes bytes =>
    let s := (start config launch world).refresh host launch
    let (status, s) := s.runLines host (Text.byteLines bytes)
    (status, s.world, none)
  | [], .terminal terminal =>
    let (status, s, terminal) := runInteractive host config launch terminal world
    (status, s.world, some terminal)
  | paths, _ =>
    let (status, s) := (start config launch world).runScripts host launch paths
    (status, s.world, none)

def exitByte (status : Int) : Nat :=
  (status % 256).toNat

end Shell

end LineShell
