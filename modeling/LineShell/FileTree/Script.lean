import LineShell.Host
import LineShell.Text.Utf8

/-!
The first line of a script. It names the program that runs the script, and one argument for it.
-/

namespace LineShell

structure Script where
  interpreter : String
  argument : Option String
  deriving DecidableEq, Repr

namespace Script

/-- So many bytes of a file are looked at; behind the end of a shorter file they are zero. -/
def headSize : Nat := 256

def head (bytes : ByteArray) : List UInt8 :=
  let start := (bytes.extract 0 headSize).toList
  start ++ List.replicate (headSize - start.length) 0

def newline : UInt8 := 10

def isGap (b : UInt8) : Bool :=
  b == 32 || b == 9

def isStop (b : UInt8) : Bool :=
  isGap b || b == 0

/-- The line that a head starts with. If its end is not in sight, the last byte is not part of it,
and the name in it has to be complete. -/
def line? (head : List UInt8) : Option (List UInt8) :=
  let line := head.takeWhile fun b => b != newline && b != 0
  if (head.drop line.length).head? = some newline then some line
  else if (head.dropWhile isGap).any isStop then some head.dropLast
  else none

def trimGaps (line : List UInt8) : List UInt8 :=
  (line.reverse.dropWhile isGap).reverse.dropWhile isGap

def text (bytes : List UInt8) : String :=
  Text.decode ⟨bytes.toArray⟩

def ofLine? (line : List UInt8) : Option Script :=
  match trimGaps line with
  | [] => none
  | words =>
    let name := words.takeWhile fun b => !isStop b
    let rest := words.drop name.length
    let argument :=
      if rest.head?.any isGap then some (text ((rest.dropWhile isGap).takeWhile (· != 0))) else none
    some ⟨text name, argument⟩

def ofBytes? (bytes : ByteArray) : Option Script :=
  match head bytes with
  | 0x23 :: 0x21 :: rest => (line? rest).bind ofLine?
  | _ => none

def child (script : Script) (spawn : Spawn) : Spawn :=
  { spawn with
    program := script.interpreter
    name := script.interpreter
    args := script.argument.toList ++ spawn.program :: spawn.args }

end Script

end LineShell
