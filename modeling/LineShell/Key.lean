/-!
Keys of a terminal and the bytes that they arrive as.
-/

namespace LineShell

inductive Key where
  | char (byte : UInt8)
  | enter
  | backspace
  | escape
  | tab
  | up
  | down
  | left
  | right
  | ctrlUp
  | ctrlDown
  | ctrlLeft
  | ctrlRight
  | resize
  deriving DecidableEq, Repr

namespace Key

def escapeByte : UInt8 := 0x1b

def endByte : UInt8 := 4

def ofByte (b : UInt8) : Key :=
  if b = 10 ∨ b = 13 then enter
  else if b = 127 ∨ b = 8 then backspace
  else if b = 9 then tab
  else if b = escapeByte then escape
  else char b

def arrow? (b : UInt8) : Option Key :=
  if b = 65 then some up
  else if b = 66 then some down
  else if b = 67 then some right
  else if b = 68 then some left
  else none

def withCtrl : Key → Key
  | up => ctrlUp
  | down => ctrlDown
  | left => ctrlLeft
  | right => ctrlRight
  | key => key

def isPrintable : Key → Bool
  | char b => 0x20 ≤ b && b ≤ 0x7e
  | _ => false

/-- The key of a sequence that starts with the escape byte: the byte alone, `ESC [ A` to `D`, or
`ESC [ 1 ; 5 A` to `D`. -/
def ofSequence? : List UInt8 → Option Key
  | [] => some escape
  | [91, dir] => arrow? dir
  | [91, 49, 59, 53, dir] => (arrow? dir).map withCtrl
  | _ => none

def decode? : List UInt8 → Option Key
  | [] => none
  | b :: bs => if b = escapeByte then ofSequence? bs else some (ofByte b)

end Key

end LineShell
