import LineShell.Text
import LineShell.Text.Alphanumeric

/-!
The line under edit: its characters and a cursor between them.
-/

namespace LineShell

structure EditLine where
  chars : List Char
  cursor : Nat
  deriving DecidableEq, Repr

namespace EditLine

def empty : EditLine := ⟨[], 0⟩

def text (l : EditLine) : String :=
  String.ofList l.chars

def length (l : EditLine) : Nat :=
  l.chars.length

def ofText (s : String) : EditLine :=
  ⟨s.toList, s.toList.length⟩

def insert (l : EditLine) (c : Char) : EditLine :=
  ⟨l.chars.take l.cursor ++ c :: l.chars.drop l.cursor, l.cursor + 1⟩

def erase (l : EditLine) : EditLine :=
  match l.cursor with
  | 0 => l
  | n + 1 => ⟨l.chars.eraseIdx n, n⟩

def moveLeft (l : EditLine) : EditLine :=
  { l with cursor := l.cursor - 1 }

def moveRight (l : EditLine) : EditLine :=
  { l with cursor := min (l.cursor + 1) l.length }

def isWordChar (c : Char) : Bool :=
  Text.isAlphanumeric c || c == '_'

/-- How far a move by one word goes over the characters ahead: over white space, then over word
characters, and over one character if there are neither. -/
def wordStep (ahead : List Char) : Nat :=
  let spaces := ahead.takeWhile Text.isSpace
  let word := (ahead.dropWhile Text.isSpace).takeWhile isWordChar
  let run := spaces.length + word.length
  if run = 0 then min 1 ahead.length else run

def moveWordLeft (l : EditLine) : EditLine :=
  { l with cursor := l.cursor - wordStep (l.chars.take l.cursor).reverse }

def moveWordRight (l : EditLine) : EditLine :=
  { l with cursor := min (l.cursor + wordStep (l.chars.drop l.cursor)) l.length }

/-- Takes off the last character; the cursor stays where it is. -/
def dropLast (l : EditLine) : EditLine :=
  { l with chars := l.chars.dropLast }

def endsInBackslash (l : EditLine) : Bool :=
  l.chars.getLast? == some '\\'

end EditLine

end LineShell
