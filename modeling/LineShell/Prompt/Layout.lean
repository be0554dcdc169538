/-!
Prompts on a screen: which of their characters take room, and where characters stand in rows of a
given width.
-/

namespace LineShell

namespace Prompt

/-- Between these two marks stand characters that take no room. -/
def hideMark : Char := '\x01'
def showMark : Char := '\x02'

def isMark (c : Char) : Bool :=
  c == hideMark || c == showMark

def visibleFrom : Bool → List Char → Nat
  | _, [] => 0
  | hidden, c :: cs =>
    if c = hideMark then visibleFrom true cs
    else if c = showMark then visibleFrom false cs
    else if hidden then visibleFrom hidden cs
    else visibleFrom hidden cs + 1

def visibleLength (s : String) : Nat :=
  visibleFrom false s.toList

def dropMarks (s : String) : String :=
  String.ofList (s.toList.filter fun c => !isMark c)

structure Parts where
  head : String
  last : String
  length : Nat
  deriving DecidableEq, Repr

def split (prompt : String) : Parts :=
  let reversed := prompt.toList.reverse
  let head := (reversed.dropWhile (· ≠ '\n')).reverse
  let last := (reversed.takeWhile (· ≠ '\n')).reverse
  ⟨dropMarks (String.ofList head), dropMarks (String.ofList last), visibleFrom false last⟩

end Prompt

namespace Layout

/-- The rows that `n` characters take, with the row that a full last row opens. -/
def rowsUsed (n width : Nat) : Nat :=
  n / max width 1 + 1

def row (offset width : Nat) : Nat :=
  offset / max width 1

def column (offset width : Nat) : Nat :=
  offset % max width 1

end Layout

end LineShell
