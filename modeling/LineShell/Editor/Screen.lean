import LineShell.Ansi
import LineShell.Editor.Line
import LineShell.Prompt.Layout

/-!
Drawing the line under edit on a terminal: the last line of the prompt, the text, and a row with the
first problem under them.
-/

namespace LineShell

structure Drawn where
  length : Nat
  cursor : Nat
  problemRow : Bool
  deriving DecidableEq, Repr

namespace Screen

open Ansi Layout

def wipe (promptLength width : Nat) : Option Drawn → String
  | none => "\r" ++ clearLine
  | some d =>
    let rows := rowsUsed (promptLength + d.length) width + (if d.problemRow then 1 else 0)
    cursorUp (row (promptLength + d.cursor) width) ++ "\r" ++ clearLine ++
      String.join (List.replicate (rows - 1) (cursorDown 1 ++ clearLine)) ++ cursorUp (rows - 1)

/-- A terminal keeps the cursor in a full last column, so the row behind a full row is opened by
hand. -/
def openRow (total width : Nat) : String :=
  if 0 < total ∧ total % max width 1 = 0 then "\r\n" ++ clearLine else ""

def problemRow (width : Nat) : Option String → String
  | none => ""
  | some message =>
    let text := String.ofList (("Error: " ++ message).toList.take (width - 1))
    "\r\n" ++ clearLine ++ grey ++ text ++ reset

def placeCursor (bottom offset width : Nat) : String :=
  cursorUp (bottom - row offset width) ++ "\r" ++ cursorRight (column offset width)

/-- Draws prompt and text over the previous drawing. `shown` is the text with its colours. -/
def draw (prompt : Prompt.Parts) (width : Nat) (shown : String) (line : EditLine)
    (problem : Option String) (previous : Option Drawn) : String :=
  let total := prompt.length + line.length
  let bottom := rowsUsed total width - 1 + (if problem.isSome then 1 else 0)
  hideCursor ++ wipe prompt.length width previous ++ prompt.last ++ shown ++ reset ++
    openRow total width ++ problemRow width problem ++
    placeCursor bottom (prompt.length + line.cursor) width ++ showCursor

def leave (promptLength width : Nat) : Option Drawn → String
  | none => "\r\n"
  | some d =>
    let last := rowsUsed (promptLength + d.length) width - 1
    cursorDown (last - row (promptLength + d.cursor) width) ++
      (if d.problemRow then cursorDown 1 ++ "\r" ++ clearLine ++ cursorUp 1 else "") ++ "\r\n"

end Screen

end LineShell
