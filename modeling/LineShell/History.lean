import LineShell.IoError
import LineShell.Text

/-!
Input history. Behind the committed lines stands an empty slot, which is what the editor shows
before browsing.
-/

namespace LineShell

/-- `place` is the index that browsing is at; the empty slot has the index behind the last entry.
A limit of zero keeps everything. `unsaved` counts the entries committed since the last save. -/
structure History where
  entries : List String
  place : Nat
  limit : Nat
  unsaved : Nat
  deriving DecidableEq, Repr

namespace History

def empty (limit : Nat) : History := ⟨[], 0, limit, 0⟩

def slots (h : History) : List String :=
  h.entries ++ [""]

def shown (h : History) : String :=
  h.slots.getD h.place ""

def cut (limit : Nat) (lines : List String) : List String :=
  if limit = 0 then lines else lines.drop (lines.length - limit)

def push? (h : History) (line : String) : Option History :=
  let trimmed := Text.trim line
  if trimmed = "" then none
  else
    let entries := cut h.limit (h.entries ++ [trimmed])
    some { h with entries := entries, place := min h.place entries.length }

def toEnd (h : History) : History :=
  { h with place := h.entries.length }

def add (h : History) (line : String) : History :=
  match h.push? line with
  | some pushed => { pushed with unsaved := min (h.unsaved + 1) pushed.entries.length }.toEnd
  | none => h.toEnd

def up (h : History) : History :=
  { h with place := h.place - 1 }

def down (h : History) : History :=
  if h.place < h.entries.length then { h with place := h.place + 1 } else h

def ofText (limit : Nat) (text : String) : History :=
  (Text.lines text).foldl (fun h line => (h.push? line).getD h) (empty limit)

def ofFile (limit : Nat) : Except IoError ByteArray → Except IoError History
  | .error .notFound => .ok (empty limit)
  | .error e => .error e
  | .ok bytes =>
    match String.fromUTF8? bytes with
    | some text => .ok (ofText limit text)
    | none => .error .invalidText

def unsavedLines (h : History) : List String :=
  h.entries.drop (h.entries.length - h.unsaved)

/-- What a save appends to the file, one line for each new entry. Without new entries the file is
not touched. -/
def pendingText? (h : History) : Option String :=
  if h.unsaved = 0 then none else some (String.join (h.unsavedLines.map (· ++ "\n")))

def markSaved (h : History) : History :=
  { h with unsaved := 0 }

end History

end LineShell
