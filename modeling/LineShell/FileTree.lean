import LineShell.FileTree.Entry
import LineShell.IoError

/-!
A tree of files in memory. Paths are followed through links, and every step needs the permissions of
the directory that it is taken in.
-/

namespace LineShell

structure FileTree where
  entries : List (Path × Entry)

namespace FileTree

def empty : FileTree := ⟨[]⟩

def find? (tree : FileTree) (path : Path) : Option Entry :=
  if path = [] then some (.directory .root) else tree.entries.lookup path

def put (tree : FileTree) (path : Path) (entry : Entry) : FileTree :=
  ⟨(tree.entries.filter fun e => e.1 ≠ path) ++ [(path, entry)]⟩

def makeParents (tree : FileTree) (path : Path) : FileTree :=
  let parents := (List.range path.length).map path.take
  parents.foldl
    (fun tree parent =>
      if (tree.find? parent).isNone then tree.put parent (.directory .directory) else tree)
    tree

def insert (tree : FileTree) (path : Path) (entry : Entry) : FileTree :=
  (tree.makeParents path).put path entry

def remove (tree : FileTree) (path : Path) : FileTree :=
  ⟨tree.entries.filter fun e => !path.isPrefixOf e.1⟩

/-- Whether a directory has a permission. One that is gone is not asked. -/
def allows (tree : FileTree) (place : Place) (permission : Permissions → Bool) : Bool :=
  if 0 < place.gone then true
  else
    match tree.find? place.path with
    | some (.directory permissions) => permission permissions
    | _ => false

inductive Spot where
  | directory (place : Place)
  | file (path : Path) (file : File)
  | vacant (path : Path)

inductive Aim where
  | find
  | create
  deriving DecidableEq, Repr

def maxLinks : Nat := 40

def maxNameBytes : Nat := 255

def maxPathBytes : Nat := 4095

/-- Follows names and links from a directory. A file cannot be created under a name with a slash
behind it, whatever that name leads to. -/
def walk (tree : FileTree) (aim : Aim) (links : Nat) (start : Place) (names : List String) :
    Except IoError Spot :=
  match names with
  | [] => .ok (.directory start)
  | name :: rest =>
    if name = "" then tree.walk aim links start rest
    else if !tree.allows start Permissions.canRun then .error .permissionDenied
    else if name = "." then tree.walk aim links start rest
    else if name = ".." then tree.walk aim links start.parent rest
    else if aim = .create ∧ rest ≠ [] ∧ rest.all (· = "") then .error .isADirectory
    else if maxNameBytes < name.utf8ByteSize then .error .nameTooLong
    else if 0 < start.gone then .error .notFound
    else
      let path := start.path ++ [name]
      match tree.find? path with
      | none => if rest = [] then .ok (.vacant path) else .error .notFound
      | some (.directory _) => tree.walk aim links ⟨path, 0⟩ rest
      | some (.file file) => if rest = [] then .ok (.file path file) else .error .notADirectory
      | some (.link target) =>
        match links with
        | 0 => .error .tooManyLinks
        | more + 1 =>
          let start := if target.toList.head? = some '/' then Place.root else start
          tree.walk aim more start (Path.ofString target ++ rest)
termination_by (links, names.length)

def walkPath (tree : FileTree) (aim : Aim) (dir : Place) (path : String) : Except IoError Spot :=
  let start := if path.toList.head? = some '/' then Place.root else dir
  tree.walk aim maxLinks start (Path.ofString path)

def locate (tree : FileTree) (aim : Aim) (dir : Place) (path : String) : Except IoError Spot :=
  if path.toList.contains '\x00' then .error .nulInPath
  else if path = "" then .error .notFound
  else if maxPathBytes < path.utf8ByteSize then .error .nameTooLong
  else tree.walkPath aim dir path

def file? (tree : FileTree) (dir : Place) (path : String) : Option File :=
  match tree.locate .find dir path with
  | .ok (.file _ file) => some file
  | _ => none

def pathExists (tree : FileTree) (dir : Place) (path : String) : Bool :=
  match tree.locate .find dir path with
  | .ok (.file _ _) | .ok (.directory _) => true
  | _ => false

def enter? (tree : FileTree) (dir : Place) (path : String) : Option Place :=
  match tree.locate .find dir path with
  | .ok (.directory place) => if tree.allows place Permissions.canRun then some place else none
  | _ => none

def read (tree : FileTree) (dir : Place) (path : String) : Except IoError ByteArray :=
  match tree.locate .find dir path with
  | .ok (.file _ file) =>
    if file.permissions.canRead then .ok file.bytes else .error .permissionDenied
  | .ok (.directory place) =>
    if tree.allows place Permissions.canRead then .error .isADirectory
    else .error .permissionDenied
  | .ok (.vacant _) => .error .notFound
  | .error e => .error e

def append (tree : FileTree) (dir : Place) (path : String) (bytes : ByteArray) :
    Except IoError FileTree :=
  match tree.locate .create dir path with
  | .ok (.file path file) =>
    if file.permissions.canWrite then
      .ok (tree.put path (.file { file with body := .data (file.bytes ++ bytes) }))
    else .error .permissionDenied
  | .ok (.vacant path) =>
    if tree.allows ⟨path.dropLast, 0⟩ Permissions.canWrite then
      .ok (tree.put path (.file ⟨.data bytes, .personal⟩))
    else .error .permissionDenied
  | .ok (.directory _) => .error .isADirectory
  | .error e => .error e

/-- The file that running a path starts. A directory cannot be run, and an empty path names the one
that the process is in. -/
def executable (tree : FileTree) (dir : Place) (path : String) : Except IoError File :=
  match tree.walkPath .find dir path with
  | .ok (.file _ file) => if file.permissions.canRun then .ok file else .error .permissionDenied
  | .ok (.directory _) => .error .permissionDenied
  | .ok (.vacant _) => .error .notFound
  | .error e => .error e

/-- Where the names of a path from the root lead, links followed. Below a name that leads nowhere the
path is taken as it is. -/
def follow (tree : FileTree) (path : Path) : Path :=
  path.foldl
    (fun dir name =>
      match tree.walk .find maxLinks ⟨dir, 0⟩ [name] with
      | .ok (.directory place) => place.path
      | .ok (.file path _) | .ok (.vacant path) => path
      | .error _ => dir ++ [name])
    []

def followParents (tree : FileTree) (path : Path) : Path :=
  tree.follow path.dropLast ++ path.getLast?.toList

end FileTree

end LineShell
