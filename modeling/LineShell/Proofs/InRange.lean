import LineShell.Proofs.Simulation
import LineShell.Proofs.Reel

/-!
The line editor with partial operations. Taking a character or a slot, inserting, removing, dividing
and subtracting have no value out of their range, and nothing that is built on them has one either.
Reading lines always has a value, and it is the one that the editor gives.
-/

namespace LineShell

namespace Strict

section Lists

variable {α : Type}

def insertAt (xs : List α) (n : Nat) (x : α) : Option (List α) := do
  return (← front xs n) ++ x :: (← behind xs n)

def removeAt (xs : List α) (n : Nat) : Option (List α) :=
  if n < xs.length then some (xs.eraseIdx n) else none

end Lists

/-- Goes back from a place over the characters that satisfy a test. -/
def backWhile (p : Char → Bool) (cs : List Char) : Nat → Option Nat
  | 0 => some 0
  | n + 1 => do
    if p (← cs[n]?) then backWhile p cs n else return n + 1

/-- Goes on from a place over the characters that satisfy a test. -/
def onWhile (p : Char → Bool) (cs : List Char) (n : Nat) : Option Nat :=
  if n < cs.length then do
    if p (← cs[n]?) then onWhile p cs (n + 1) else return n
  else some n
termination_by cs.length - n

def edit (l : EditLine) : Edit → Option EditLine
  | .insert c => do return ⟨← insertAt l.chars l.cursor c, l.cursor + 1⟩
  | .erase =>
    if 0 < l.cursor then do
      let cursor ← minus l.cursor 1
      return ⟨← removeAt l.chars cursor, cursor⟩
    else some l
  | .wordLeft => do
    let spaces ← backWhile Text.isSpace l.chars l.cursor
    let word ← backWhile EditLine.isWordChar l.chars spaces
    return if word = l.cursor then l.moveLeft else { l with cursor := word }
  | .wordRight => do
    let spaces ← onWhile Text.isSpace l.chars l.cursor
    let word ← onWhile EditLine.isWordChar l.chars spaces
    return if word = l.cursor then l.moveRight else { l with cursor := word }
  -- The other edits stop at the ends of the line by themselves.
  | .set text => some (l.edit (.set text))
  | .left => some (l.edit .left)
  | .right => some (l.edit .right)

theorem backWhile_eq (p : Char → Bool) (cs : List Char) {n : Nat} (bound : n ≤ cs.length) :
    backWhile p cs n = some (n - ((cs.take n).reverse.takeWhile p).length) := by
  induction n with
  | zero => rfl
  | succ n ih =>
    rw [backWhile, List.getElem?_eq_getElem bound, List.take_succ_eq_append_getElem bound,
      List.reverse_append, List.reverse_singleton, List.singleton_append, List.takeWhile_cons]
    simp only [Option.bind_eq_bind, Option.bind_some]
    split
    · rw [ih (Nat.le_of_succ_le bound), List.length_cons, Nat.add_sub_add_right]
    · rfl

theorem onWhile_eq (p : Char → Bool) (cs : List Char) (n : Nat) :
    onWhile p cs n = some (n + ((cs.drop n).takeWhile p).length) := by
  fun_induction onWhile p cs n with
  | case1 n inside ih =>
    rw [List.getElem?_eq_getElem inside, List.drop_eq_getElem_cons inside, List.takeWhile_cons]
    simp only [Option.bind_eq_bind, Option.bind_some, ih]
    split
    · rw [List.length_cons, Nat.add_assoc, Nat.add_comm 1]
    · rfl
  | case2 n outside => rw [List.drop_eq_nil_of_le (Nat.le_of_not_lt outside)]; rfl

theorem drop_length_takeWhile (p : Char → Bool) (cs : List Char) :
    cs.drop (cs.takeWhile p).length = cs.dropWhile p := by
  have whole := List.takeWhile_append_dropWhile (p := p) (l := cs)
  conv_lhs => rw [← whole]
  rw [List.drop_left' (by rw [whole])]

theorem wordLeft_eq {l : EditLine} (inside : l.Inside) :
    edit l .wordLeft = some l.moveWordLeft := by
  have bound : l.cursor ≤ l.chars.length := inside
  obtain ⟨ahead, same⟩ : ∃ ahead, ahead = (l.chars.take l.cursor).reverse := ⟨_, rfl⟩
  have length : ahead.length = l.cursor := by
    rw [same, List.length_reverse, List.length_take, Nat.min_eq_left bound]
  have runs := EditLine.wordRuns_le ahead
  have first := backWhile_eq Text.isSpace l.chars bound
  have rest : (l.chars.take (l.cursor - (ahead.takeWhile Text.isSpace).length)).reverse =
      ahead.dropWhile Text.isSpace := by
    rw [← drop_length_takeWhile, same, List.drop_reverse, List.length_take, Nat.min_eq_left bound,
      List.take_take, Nat.min_eq_left (Nat.sub_le _ _)]
  have second := backWhile_eq EditLine.isWordChar l.chars
    (Nat.le_trans (Nat.sub_le l.cursor (ahead.takeWhile Text.isSpace).length) bound)
  rw [← same] at first
  rw [rest] at second
  simp only [edit, first, second, Option.bind_eq_bind, Option.bind_some, EditLine.moveWordLeft,
    EditLine.wordStep, ← same, length]
  generalize (ahead.takeWhile Text.isSpace).length = spaces at runs
  generalize ((ahead.dropWhile Text.isSpace).takeWhile EditLine.isWordChar).length = word at runs
  split
  · rename_i still
    have none : spaces + word = 0 := by omega
    rw [if_pos none, EditLine.moveLeft, show l.cursor - min 1 l.cursor = l.cursor - 1 by omega]
    rfl
  · rename_i moved
    have some : spaces + word ≠ 0 := by omega
    rw [if_neg some, Nat.sub_sub]
    rfl

theorem wordRight_eq (l : EditLine) : edit l .wordRight = some l.moveWordRight := by
  obtain ⟨ahead, same⟩ : ∃ ahead, ahead = l.chars.drop l.cursor := ⟨_, rfl⟩
  have length : ahead.length = l.chars.length - l.cursor := by rw [same, List.length_drop]
  have runs := EditLine.wordRuns_le ahead
  have first := onWhile_eq Text.isSpace l.chars l.cursor
  have second := onWhile_eq EditLine.isWordChar l.chars
    (l.cursor + (ahead.takeWhile Text.isSpace).length)
  rw [← same] at first
  rw [← List.drop_drop, ← same, drop_length_takeWhile] at second
  simp only [edit, first, second, Option.bind_eq_bind, Option.bind_some, EditLine.moveWordRight,
    EditLine.wordStep, ← same, length, EditLine.length]
  generalize (ahead.takeWhile Text.isSpace).length = spaces at runs
  generalize ((ahead.dropWhile Text.isSpace).takeWhile EditLine.isWordChar).length = word at runs
  split
  · rename_i still
    have none : spaces + word = 0 := by omega
    rw [if_pos none, EditLine.moveRight, EditLine.length,
      show min (l.cursor + 1) l.chars.length =
        min (l.cursor + min 1 (l.chars.length - l.cursor)) l.chars.length by omega]
    rfl
  · rename_i moved
    have some : spaces + word ≠ 0 := by omega
    rw [if_neg some, Nat.add_assoc, Nat.min_eq_left (by omega)]
    rfl

theorem edit_eq {l : EditLine} (inside : l.Inside) (change : Edit) :
    edit l change = some (l.edit change) := by
  have bound : l.cursor ≤ l.chars.length := inside
  cases change with
  | insert c =>
    simp only [edit, insertAt, front_of_le bound, behind_of_le bound, Option.bind_eq_bind,
      Option.bind_some]
    rfl
  | erase =>
    obtain ⟨chars, cursor⟩ := l
    cases cursor with
    | zero => rfl
    | succ n =>
      have removed : removeAt chars n = some (chars.eraseIdx n) := if_pos bound
      simp only [edit, if_pos (Nat.succ_pos n), minus_of_le (Nat.le_add_left 1 n),
        Nat.add_sub_cancel, Option.bind_eq_bind, Option.bind_some, removed]
      rfl
  | wordLeft => exact wordLeft_eq inside
  | wordRight => exact wordRight_eq l
  | set | left | right => rfl

def quotient (a b : Nat) : Option Nat :=
  if b = 0 then none else some (a / b)

def remainder (a b : Nat) : Option Nat :=
  if b = 0 then none else some (a % b)

/- What is drawn. -/
section Screen

open Ansi

def rowsUsed (n width : Nat) : Option Nat := do
  return (← quotient n (max width 1)) + 1

/-- The row and the column of a character. -/
def position (offset width : Nat) : Option (Nat × Nat) := do
  return (← quotient offset (max width 1), ← remainder offset (max width 1))

def wipe (promptLength width : Nat) : Option Drawn → Option String
  | none => some ("\r" ++ clearLine)
  | some d => do
    let (row, _) ← position (promptLength + d.cursor) width
    let rows := (← rowsUsed (promptLength + d.length) width) + (if d.problemRow then 1 else 0)
    let more ← minus rows 1
    return cursorUp row ++ "\r" ++ clearLine ++
      String.join (List.replicate more (cursorDown 1 ++ clearLine)) ++ cursorUp more

def drawing (prompt : Prompt.Parts) (width : Nat) (shown : String) (line : EditLine)
    (problem : Option String) (previous : Option Drawn) : Option String := do
  let wiped ← wipe prompt.length width previous
  let total := prompt.length + line.length
  let spill ← remainder total (max width 1)
  let opened := if 0 < total ∧ spill = 0 then "\r\n" ++ clearLine else ""
  let bottom := (← minus (← rowsUsed total width) 1) + (if problem.isSome then 1 else 0)
  let (row, column) ← position (prompt.length + line.cursor) width
  let placed := cursorUp (← minus bottom row) ++ "\r" ++ cursorRight column
  return hideCursor ++ wiped ++ prompt.last ++ shown ++ reset ++ opened ++
    Screen.problemRow width problem ++ placed ++ showCursor

def leaving (promptLength width : Nat) : Option Drawn → Option String
  | none => some "\r\n"
  | some d => do
    let (row, _) ← position (promptLength + d.cursor) width
    let last ← minus (← rowsUsed (promptLength + d.length) width) 1
    return cursorDown (← minus last row) ++
      (if d.problemRow then cursorDown 1 ++ "\r" ++ clearLine ++ cursorUp 1 else "") ++ "\r\n"

theorem width_ne_zero (width : Nat) : max width 1 ≠ 0 := by
  omega

theorem rowsUsed_eq (n width : Nat) : rowsUsed n width = some (Layout.rowsUsed n width) := by
  simp only [rowsUsed, quotient, if_neg (width_ne_zero width)]
  rfl

theorem position_eq (offset width : Nat) :
    position offset width = some (Layout.row offset width, Layout.column offset width) := by
  simp only [position, quotient, remainder, if_neg (width_ne_zero width)]
  rfl

/- A cursor that is not behind the end of its line is not in a row below the last. -/
theorem row_le {promptLength cursor length : Nat} (inside : cursor ≤ length) (width : Nat) :
    Layout.row (promptLength + cursor) width ≤
      Layout.rowsUsed (promptLength + length) width - 1 :=
  Nat.div_le_div_right (Nat.add_le_add_left inside promptLength)

theorem wipe_eq (promptLength width : Nat) (previous : Option Drawn) :
    wipe promptLength width previous = some (Screen.wipe promptLength width previous) := by
  cases previous with
  | none => rfl
  | some d =>
    have rows : 1 ≤ Layout.rowsUsed (promptLength + d.length) width +
        (if d.problemRow then 1 else 0) :=
      Nat.le_trans (Nat.le_add_left 1 _) (Nat.le_add_right _ _)
    simp only [wipe, position_eq, rowsUsed_eq, Option.bind_eq_bind, Option.bind_some,
      minus_of_le rows]
    rfl

theorem drawing_eq (prompt : Prompt.Parts) (width : Nat) (shown : String) {line : EditLine}
    (inside : line.Inside) (problem : Option String) (previous : Option Drawn) :
    drawing prompt width shown line problem previous =
      some (Screen.draw prompt width shown line problem previous) := by
  have spill : remainder (prompt.length + line.length) (max width 1) =
      some ((prompt.length + line.length) % max width 1) :=
    if_neg (width_ne_zero width)
  have rows : 1 ≤ Layout.rowsUsed (prompt.length + line.length) width := Nat.le_add_left 1 _
  have above : Layout.row (prompt.length + line.cursor) width ≤
      Layout.rowsUsed (prompt.length + line.length) width - 1 +
        (if problem.isSome then 1 else 0) :=
    Nat.le_trans (row_le inside width) (Nat.le_add_right _ _)
  simp only [drawing, wipe_eq, spill, rowsUsed_eq, position_eq, Option.bind_eq_bind,
    Option.bind_some, minus_of_le rows, minus_of_le above]
  rfl

theorem leaving_eq (promptLength width : Nat) {drawn : Option Drawn}
    (inside : ∀ d ∈ drawn, d.cursor ≤ d.length) :
    leaving promptLength width drawn = some (Screen.leave promptLength width drawn) := by
  cases drawn with
  | none => rfl
  | some d =>
    have rows : 1 ≤ Layout.rowsUsed (promptLength + d.length) width := Nat.le_add_left 1 _
    have above : Layout.row (promptLength + d.cursor) width ≤
        Layout.rowsUsed (promptLength + d.length) width - 1 :=
      row_le (inside d rfl) width
    simp only [leaving, position_eq, rowsUsed_eq, Option.bind_eq_bind, Option.bind_some,
      minus_of_le rows, minus_of_le above]
    rfl

end Screen

/- The editor. -/
section Editing

def clear (e : Editor) : Option Editor := do
  return { e with rows := [], line := .empty, history := (← e.history.reel.toEnd).history }

def commit (e : Editor) : Option Editor := do
  clear { e with history := (← e.history.reel.add e.joined).history }

def browse (e : Editor) (turn : Reel → Option (String × Reel)) : Option Editor.Request := do
  let (shown, reel) ← turn e.history.reel
  return .edit { e with history := reel.history, line := .ofText shown }

def change (e : Editor) (c : Edit) : Option Editor.Request := do
  return .edit { e with line := ← edit e.line c }

def request (e : Editor) (key : Key) : Option Editor.Request :=
  match key with
  | .backspace => change e .erase
  | .left => change e .left
  | .right => change e .right
  | .ctrlLeft => change e .wordLeft
  | .ctrlRight => change e .wordRight
  | .up => browse e Reel.up
  | .down => browse e Reel.down
  | .char b =>
    if b = Key.endByte ∧ e.line.chars = [] ∧ e.rows = [] then some .endOfInput
    else if key.isPrintable then change e (.insert (Char.ofNat b.toNat))
    else some (.edit e)
  | .enter | .resize | .escape | .tab | .ctrlUp | .ctrlDown => some (e.request key)

end Editing

def operations : Editor.Operations Option where
  clear := clear
  request := request
  commit := commit
  draw := drawing
  leave := leaving

def reader {ε μ σ : Type} (D : Driver ε μ σ) : LineReader Option ε μ σ :=
  ⟨operations, D⟩

def readLine (e : Editor) (t : Terminal) (prompt : String) (highlighter : Option Highlighter) :
    Option (Except IoError String × Editor × Terminal) :=
  (reader Terminal.driver).play highlighter e t prompt

variable {e : Editor}

theorem clear_eq (e : Editor) : clear e = some e.clear := by
  simp only [clear, History.toEnd_reel, Option.bind_eq_bind, Option.bind_some,
    History.history_reel]
  rfl

theorem commit_eq (e : Editor) : commit e = some e.commit := by
  simp only [commit, History.add_reel, Option.bind_eq_bind, Option.bind_some,
    History.history_reel, clear_eq]
  rfl

theorem change_eq (inside : e.Inside) (c : Edit) :
    change e c = some (.edit { e with line := e.line.edit c }) := by
  simp only [change, edit_eq inside.line]
  rfl

theorem browse_eq {turn : Reel → Option (String × Reel)} {h : History}
    (turned : turn e.history.reel = some (h.shown, h.reel)) :
    browse e turn = some (.edit (e.browse h)) := by
  simp only [browse, turned, Option.bind_eq_bind, Option.bind_some, History.history_reel]
  rfl

theorem request_eq (inside : e.Inside) (key : Key) : request e key = some (e.request key) := by
  cases key with
  | backspace => exact change_eq inside .erase
  | left => exact change_eq inside .left
  | right => exact change_eq inside .right
  | ctrlLeft => exact change_eq inside .wordLeft
  | ctrlRight => exact change_eq inside .wordRight
  | up => exact browse_eq (History.up_reel inside.place)
  | down => exact browse_eq (History.down_reel inside.place)
  | char b =>
    simp only [request, Editor.request]
    split
    · rfl
    split
    · exact change_eq inside (.insert (Char.ofNat b.toNat))
    · rfl
  | enter | resize | escape | tab | ctrlUp | ctrlDown => rfl

theorem agrees_operations : operations.Agrees where
  clear := clear_eq
  request := request_eq
  commit := commit_eq
  draw prompt width shown _ inside problem drawn :=
    drawing_eq prompt width shown inside problem drawn
  leave promptLength width _ inside := leaving_eq promptLength width inside

theorem readLine_eq {ε μ σ : Type} (D : Driver ε μ σ) (e : Editor) (s : σ) (prompt : String)
    (highlighter : Option Highlighter) (atEnd : IoError) (inputs : List ε) :
    (reader D).readLine highlighter atEnd e s prompt inputs =
      some (D.reader.readLine highlighter atEnd e s prompt inputs) :=
  (LineReader.gives_readLine (R := reader D) agrees_operations D.simulatesAll_self (Eq.refl s) e
    prompt highlighter atEnd inputs).eq

end Strict

/-- A call of the editor. What its owner does to it before may change it in any way. -/
structure Visit where
  prepare : Editor → Editor
  terminal : Terminal
  prompt : String
  highlighter : Option Highlighter

/-- Reads a line at each call; a call finds the editor as the one before has left it, also if that
one has failed. -/
def Editor.visits (e : Editor) : List Visit → List (Except IoError String × Editor × Terminal)
  | [] => []
  | v :: rest =>
    let out := (v.prepare e).readLine v.terminal v.prompt v.highlighter
    out :: out.2.1.visits rest

def Strict.visits (e : Editor) :
    List Visit → Option (List (Except IoError String × Editor × Terminal))
  | [] => some []
  | v :: rest => do
    let out ← readLine (v.prepare e) v.terminal v.prompt v.highlighter
    return out :: (← visits out.2.1 rest)

/-- No operation is out of its range in any number of calls. -/
theorem visits_in_range (e : Editor) (visits : List Visit) :
    Strict.visits e visits = some (e.visits visits) := by
  induction visits generalizing e with
  | nil => rfl
  | cons v rest ih =>
    simp only [Strict.visits, Strict.readLine, LineReader.play, Strict.readLine_eq,
      Option.bind_eq_bind, Option.bind_some, ih]
    rfl

end LineShell
