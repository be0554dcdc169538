import LineShell.FileTree
import LineShell.FileTree.Script
import LineShell.Host

/-!
A machine in memory: a file tree, a working directory and a transcript of all output. It is a host
that a shell can run on.
-/

namespace LineShell

inductive Stream where
  | output
  | failures
  deriving DecidableEq, Repr

structure OutputLimit where
  room : Option Nat
  flushFails : Bool
  deriving DecidableEq, Repr

structure Machine where
  tree : FileTree
  dir : Place
  transcript : List (Stream × ByteArray)
  limit : OutputLimit
  hostName : String
  home : String

namespace Machine

def emit (m : Machine) (stream : Stream) (bytes : ByteArray) : Machine :=
  { m with transcript := m.transcript ++ [(stream, bytes)] }

def written (m : Machine) (selected : Stream → Bool) : ByteArray :=
  (m.transcript.filter fun e => selected e.1).foldl (fun all e => all ++ e.2) .empty

def files (m : Machine) : FileView where
  isFile path := (m.tree.file? m.dir path).isSome
  isRunnable path := (m.tree.file? m.dir path).any (·.permissions.someoneCanRun)
  pathExists path := m.tree.pathExists m.dir path

def workingDir (m : Machine) : Except IoError String :=
  if m.dir.gone = 0 then .ok m.dir.path.render else .error .notFound

def changeDir (m : Machine) (path : String) : Option Machine :=
  (m.tree.enter? m.dir path).map fun place => { m with dir := place }

/-- Puts an entry at a path from the root. Links on the way are followed, and one at the end too,
unless the entry is a link itself. -/
def install (m : Machine) (path : Path) (entry : Entry) : Machine :=
  let path :=
    match entry with
    | .link _ => m.tree.followParents path
    | _ => m.tree.follow path
  { m with tree := m.tree.insert path entry }

/-- Removes what is at a path from the root; of a link only the link. A working directory inside it
stays where it is, in directories that are gone. -/
def uninstall (m : Machine) (path : Path) : Machine :=
  let path := m.tree.followParents path
  let gone := max m.dir.gone (m.dir.path.length + 1 - path.length)
  let dir := if path.isPrefixOf m.dir.path then { m.dir with gone := gone } else m.dir
  { m with tree := m.tree.remove path, dir := dir }

def hasNul (s : String) : Bool :=
  s.toList.contains '\x00'

def listing (m : Machine) (spawn : Spawn) : String :=
  let args := (spawn.name :: spawn.args).zipIdx.map fun (arg, i) =>
    "argv[" ++ toString i ++ "]=" ++ arg ++ "\n"
  let entry (v : String × String) :=
    v.1 ++ "=" ++ (if v.1 = "HOSTNAME" then m.hostName else v.2)
  let vars := (spawn.env.map entry).mergeSort fun a b => !(b < a)
  String.join args ++ String.join (vars.map fun v => "env " ++ v ++ "\n")

def programOutput (m : Machine) (spawn : Spawn) (p : Program) : String :=
  let dir := (m.workingDir.toOption.getD "") ++ "\n"
  p.text ++ (if p.listsInput then m.listing spawn else "") ++ (if p.printsDir then dir else "")

/-- The signals that pass without ending a process: about children, continuing, stopping, urgent
input and window sizes. -/
def mildSignals : List Nat := [17, 18, 19, 20, 21, 22, 23, 28]

def isDeadly (signal : Nat) : Bool :=
  0 < signal && signal ≤ 64 && !mildSignals.contains signal

def programEnding (p : Program) : Ending :=
  match p.signal.filter isDeadly with
  | some signal => .killed signal
  | none => .exited (p.code % 256)

def maxWordBytes : Nat := 131071

def maxFiles : Nat := 6

def start (m : Machine) (files : Nat) (spawn : Spawn) : Ending × Machine :=
  match m.tree.executable m.dir spawn.program with
  | .error .notFound => (.notFound, m)
  | .error e => (.failed e.message, m)
  | .ok file =>
    match files with
    | 0 => (.failed IoError.tooManyLinks.message, m)
    | more + 1 =>
      if spawn.words.any fun word => maxWordBytes < word.utf8ByteSize then
        (.failed "Argument list too long (os error 7)", m)
      else
        match file.body with
        | .program p => (programEnding p, m.emit .output (m.programOutput spawn p).toUTF8)
        | .data bytes =>
          match Script.ofBytes? bytes with
          | some script => m.start more (script.child spawn)
          | none => (.failed "Exec format error (os error 8)", m)

def spawn (m : Machine) (spawn : Spawn) : Ending × Machine :=
  if spawn.words.any hasNul then (.failed "nul byte found in provided data", m)
  else m.start maxFiles spawn

def print (m : Machine) (text : String) : Option String × Machine :=
  let bytes := text.toUTF8
  let fits := m.limit.room.all fun room => bytes.size ≤ room
  let kept := (m.limit.room.map fun room => bytes.extract 0 room).getD bytes
  let limit := { m.limit with room := m.limit.room.map (· - bytes.size) }
  let problem :=
    if !fits then some "output is full"
    else if m.limit.flushFails then some "cannot flush"
    else none
  (problem, { m with limit := limit }.emit .output kept)

def host : Host Machine where
  files := files
  workingDir := workingDir
  changeDir := changeDir
  spawn := spawn
  print := print
  complain m text := m.emit .failures text.toUTF8
  display m bytes := m.emit .output bytes
  readFile m path := m.tree.read m.dir path
  appendFile m path text :=
    (m.tree.append m.dir path text.toUTF8).map fun tree => { m with tree := tree }
  hostName := Machine.hostName
  home := Machine.home

end Machine

end LineShell
