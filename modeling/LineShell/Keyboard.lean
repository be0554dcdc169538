import LineShell.IoError
import LineShell.Key

/-!
Reading keys from a stream of bytes. One read takes a few bytes; text that arrives together is
delivered key by key, and a window resize is delivered when no such key waits.
-/

namespace LineShell

structure Pipe where
  bytes : List UInt8
  closed : Bool
  deriving DecidableEq, Repr

namespace Pipe

def readSize : Nat := 8

def endOfInput : IoError := .endOfInput "end of input"

def write (p : Pipe) (bytes : List UInt8) : Pipe :=
  if p.closed then p else { p with bytes := p.bytes ++ bytes }

def close (p : Pipe) : Pipe :=
  { p with closed := true }

def read (p : Pipe) : Except IoError (List UInt8) × Pipe :=
  if p.bytes = [] ∧ p.closed then (.error endOfInput, p)
  else (.ok (p.bytes.take readSize), { p with bytes := p.bytes.drop readSize })

end Pipe

/-- `pending` holds the keys that have been read and not delivered. -/
structure Keyboard where
  pending : List Key
  resized : Bool
  deriving DecidableEq, Repr

namespace Keyboard

def idle : Keyboard := ⟨[], false⟩

def defaultSize : Nat × Nat := (24, 80)

def signal (k : Keyboard) : Keyboard :=
  { k with resized := true }

def waiting? (k : Keyboard) : Option (Key × Keyboard) :=
  match k.pending with
  | key :: rest => some (key, { k with pending := rest })
  | [] => if k.resized then some (.resize, { k with resized := false }) else none

/-- Delivers the first key of one read and keeps the others. A read that starts with the escape byte
is one key, or none. -/
def accept (k : Keyboard) (read : List UInt8) : Option Key × Keyboard :=
  if read.head? = some Key.escapeByte then (Key.decode? read, k)
  else
    match k.pending ++ read.map Key.ofByte with
    | [] => (none, k)
    | key :: rest => (some key, { k with pending := rest })

def readKey (k : Keyboard) (p : Pipe) : Except IoError (Option Key) × Keyboard × Pipe :=
  match k.waiting? with
  | some (key, k) => (.ok (some key), k, p)
  | none =>
    match p.read with
    | (.error e, p) => (.error e, k, p)
    | (.ok bytes, p) =>
      let (key, k) := k.accept bytes
      (.ok key, k, p)

def drain : Nat → Keyboard → Pipe → List (Option Key)
  | 0, _, _ => []
  | fuel + 1, k, p =>
    if k.pending = [] ∧ p.bytes = [] then []
    else
      match k.readKey p with
      | (.ok key, k, p) => key :: drain fuel k p
      | (.error _, _, _) => []

def keysOf (bytes : List UInt8) : List (Option Key) :=
  drain bytes.length idle ⟨bytes, false⟩

def interruptByte : UInt8 := 3

def afterInterrupt (bytes : List UInt8) : List UInt8 :=
  (bytes.reverse.takeWhile (· ≠ interruptByte)).reverse

end Keyboard

end LineShell
