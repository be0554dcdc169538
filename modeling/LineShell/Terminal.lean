import LineShell.IoError
import LineShell.Key

/-!
A terminal as the line editor sees it: keys to read, a screen to write to, and a mode to change and
restore. Any driver of one will do; the terminal here plays events that are given in advance.
-/

namespace LineShell

/-- What the line editor asks of a terminal with states `σ` and modes `μ`. An input from outside
decides what one attempt to read a key gives. -/
structure Driver (ε μ σ : Type) where
  saveMode : σ → Except IoError μ × σ
  setMode : σ → Bool → Except IoError Unit × σ
  restoreMode : σ → μ → Except IoError Unit × σ
  write : σ → String → Except IoError Unit × σ
  flush : σ → Except IoError Unit × σ
  columns : σ → Nat × σ
  readKey : σ → ε → Except IoError (Option Key) × σ

inductive Event where
  | key (key : Key)
  | nothing
  | width (columns : Nat)
  | failure (error : IoError)
  deriving DecidableEq, Repr

namespace Event

def ofKey? : Option Key → Event
  | some k => .key k
  | none => .nothing

end Event

/-- A screen takes bytes until its room is used up; without a bound it takes all. -/
structure Display where
  written : ByteArray
  room : Option Nat

namespace Display

def failure : IoError := .other "terminal is gone"

def write (d : Display) (text : String) : Except IoError Unit × Display :=
  let bytes := text.toUTF8
  match d.room with
  | none => (.ok (), { d with written := d.written ++ bytes })
  | some room =>
    let result := if bytes.size ≤ room then .ok () else .error failure
    (result, ⟨d.written ++ bytes.extract 0 room, some (room - bytes.size)⟩)

end Display

inductive ModeCall where
  | save
  | set (flowControlOff : Bool)
  | restore (mode : Nat)
  deriving DecidableEq, Repr

structure ModeFaults where
  save : Option IoError := none
  set : Option IoError := none
  restore : Option IoError := none
  deriving DecidableEq, Repr

structure Terminal where
  columns : Nat
  events : List Event
  display : Display
  mode : Nat
  faults : ModeFaults
  calls : List ModeCall
  atEnd : IoError

namespace Terminal

def call (t : Terminal) (c : ModeCall) : Terminal :=
  { t with calls := t.calls ++ [c] }

def answer {α : Type} (fault : Option IoError) (value : α) : Except IoError α :=
  match fault with
  | some e => .error e
  | none => .ok value

def saveMode (t : Terminal) : Except IoError Nat × Terminal :=
  (answer t.faults.save t.mode, t.call .save)

def setMode (t : Terminal) (flowControlOff : Bool) : Except IoError Unit × Terminal :=
  (answer t.faults.set (), t.call (.set flowControlOff))

def restoreMode (t : Terminal) (mode : Nat) : Except IoError Unit × Terminal :=
  (answer t.faults.restore (), t.call (.restore mode))

def write (t : Terminal) (text : String) : Except IoError Unit × Terminal :=
  ((t.display.write text).1, { t with display := (t.display.write text).2 })

def readKey (t : Terminal) : Event → Except IoError (Option Key) × Terminal
  | .key key => (.ok (some key), t)
  | .nothing => (.ok none, t)
  | .width columns => (.ok (some .resize), { t with columns := columns })
  | .failure e => (.error e, t)

/-- The events come from outside, one by one; those of the terminal are left alone. -/
def driver : Driver Event Nat Terminal where
  saveMode := saveMode
  setMode := setMode
  restoreMode := restoreMode
  write := write
  flush t := (.ok (), t)
  columns t := (t.columns, t)
  readKey := readKey

end Terminal

end LineShell
