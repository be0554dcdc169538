/-!
What a file tree holds: directories, files and symbolic links, each with the permissions of its
owner, and the paths that name them.
-/

namespace LineShell

/-- Permission bits: three for the owner, then three for the group and three for others. A shell
runs as the owner of all files, so only the first three decide what it can do. -/
structure Permissions where
  bits : Nat
  deriving DecidableEq, Repr

namespace Permissions

def directory : Permissions := ⟨0o755⟩
def program : Permissions := ⟨0o755⟩
def plain : Permissions := ⟨0o644⟩

def personal : Permissions := ⟨0o600⟩

def root : Permissions := ⟨0o555⟩

def canRead (p : Permissions) : Bool := p.bits.testBit 8

def canWrite (p : Permissions) : Bool := p.bits.testBit 7

def canRun (p : Permissions) : Bool := p.bits.testBit 6

def someoneCanRun (p : Permissions) : Bool :=
  p.bits.testBit 6 || p.bits.testBit 3 || p.bits.testBit 0

end Permissions

structure Program where
  text : String
  listsInput : Bool
  printsDir : Bool
  code : Int
  signal : Option Nat
  deriving Repr

inductive Body where
  | data (bytes : ByteArray)
  | program (program : Program)

structure File where
  body : Body
  permissions : Permissions

namespace File

/-- A program is no text: behind the mark of executables stands a byte that is not valid UTF-8. -/
def programBytes : ByteArray := ⟨#[0x7f, 0x45, 0x4c, 0x46, 0xff]⟩

def bytes (f : File) : ByteArray :=
  match f.body with
  | .data bytes => bytes
  | .program _ => programBytes

end File

inductive Entry where
  | directory (permissions : Permissions)
  | file (file : File)
  | link (target : String)

abbrev Path := List String

namespace Path

def ofString (s : String) : Path :=
  (s.toList.splitOn '/').map String.ofList

def render (p : Path) : String :=
  "/" ++ String.intercalate "/" p

end Path

/-- A directory that a process is in. The last `gone` names of its path have been removed since it
got there. -/
structure Place where
  path : Path
  gone : Nat
  deriving DecidableEq, Repr

namespace Place

def root : Place := ⟨[], 0⟩

def parent (p : Place) : Place := ⟨p.path.dropLast, p.gone - 1⟩

end Place

end LineShell
