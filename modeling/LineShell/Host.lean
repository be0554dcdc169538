import LineShell.IoError

/-!
What a shell needs from the machine that it runs on: files, a working directory, children and
streams. A host is any state with these operations, so what is proved for all hosts holds whatever
files and children do.
-/

namespace LineShell

structure FileView where
  isFile : String → Bool
  isRunnable : String → Bool
  pathExists : String → Bool

namespace FileView

def searchDirs (searchPath : String) : List String :=
  ((searchPath.toList.splitOn ':').filter (· ≠ [])).map String.ofList

def join (dir name : String) : String :=
  if dir.toList.getLast? = some '/' then dir ++ name else dir ++ "/" ++ name

/-- The program that a command name stands for. A name with a slash is a path, and the file only
has to exist; any other name is looked up in the search path, where the file has to be runnable. -/
def resolve (files : FileView) (command : String) (searchPath : Option String) : Option String :=
  if command = "" then none
  else if command.toList.contains '/' then
    if files.isFile command then some command else none
  else
    match searchPath with
    | none => none
    | some path => ((searchDirs path).map (join · command)).find? files.isRunnable

end FileView

structure Spawn where
  program : String
  name : String
  args : List String
  env : List (String × String)
  deriving DecidableEq, Repr

def Spawn.words (s : Spawn) : List String :=
  s.name :: s.args ++ s.env.map fun v => v.1 ++ "=" ++ v.2

inductive Ending where
  | exited (code : Int)
  | killed (signal : Nat)
  | notFound
  | failed (reason : String)
  deriving DecidableEq, Repr

structure Host (σ : Type) where
  files : σ → FileView
  workingDir : σ → Except IoError String
  changeDir : σ → String → Option σ
  spawn : σ → Spawn → Ending × σ
  /-- Writes and flushes output of the shell itself; a failure has a reason, and what was written
  before it stays. -/
  print : σ → String → Option String × σ
  complain : σ → String → σ
  display : σ → ByteArray → σ
  readFile : σ → String → Except IoError ByteArray
  appendFile : σ → String → String → Except IoError σ
  hostName : σ → String
  home : σ → String

end LineShell
