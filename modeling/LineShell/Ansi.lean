/-!
Terminal escape sequences: colours, cursor moves, and their removal from a text.
-/

namespace LineShell.Ansi

def escape : Char := '\x1b'

def control (body : String) : String :=
  "\x1b[" ++ body

def reset : String := control "0m"
def bold : String := control "1m"
def italics : String := control "3m"
def underline : String := control "4m"

def green : String := control "32m"
def magenta : String := control "35m"
def cyan : String := control "36m"

def grey : String := control "90m"
def brightRed : String := control "91m"
def brightGreen : String := control "92m"
def brightYellow : String := control "93m"
def brightBlue : String := control "94m"
def brightMagenta : String := control "95m"
def brightCyan : String := control "96m"

def clearLine : String := control "2K"
def hideCursor : String := control "?25l"
def showCursor : String := control "?25h"

/-- A cursor move by `n` cells; a move by none is not written. -/
def move (final : String) (n : Nat) : String :=
  if n = 0 then "" else control (toString n ++ final)

def cursorUp (n : Nat) : String := move "A" n
def cursorDown (n : Nat) : String := move "B" n
def cursorRight (n : Nat) : String := move "C" n

def isFinal (c : Char) : Bool :=
  '\x40' ≤ c && c ≤ '\x7e'

/-- Drops control sequences; the flag says whether one is open. An open sequence runs to its final
character or to the end of the text. -/
def stripFrom : Bool → List Char → List Char
  | _, [] => []
  | true, c :: cs => stripFrom (!isFinal c) cs
  | false, '\x1b' :: '[' :: cs => stripFrom true cs
  | false, c :: cs => c :: stripFrom false cs

def strip (s : String) : String :=
  String.ofList (stripFrom false s.toList)

end LineShell.Ansi
