import LineShell.Proofs.Room

/-!
Typing without a screen. A sheet is a text around a cursor, with the rows finished before it and a
place in the history; keys change it, and nothing is drawn. What the line editor returns, records
and keeps is what typing on a sheet comes to, whatever the prompt, the window and the features are.
-/

namespace LineShell

/-- The line with a cursor between two texts, each of them read away from the cursor. -/
def EditLine.around (left right : List Char) : EditLine :=
  ⟨left.reverse ++ right, left.length⟩

/-- `left` and `right` are the characters around the cursor, the nearest first. -/
structure Sheet where
  rows : List String
  left : List Char
  right : List Char
  place : Nat
  deriving DecidableEq, Repr

namespace Sheet

def start (entries : List String) : Sheet := ⟨[], [], [], entries.length⟩

def text (s : Sheet) : List Char :=
  s.left.reverse ++ s.right

/-- Carries characters over the cursor as long as they satisfy a test. -/
def carry (p : Char → Bool) : List Char → List Char → List Char × List Char
  | near, [] => (near, [])
  | near, c :: far => if p c then carry p (c :: near) far else (near, c :: far)

def step : List Char → List Char → List Char × List Char
  | near, [] => (near, [])
  | near, c :: far => (c :: near, far)

/-- Over white space, then over a word; if that leads nowhere, over one character. -/
def hop (near far : List Char) : List Char × List Char :=
  let spaces := carry Text.isSpace near far
  let word := carry EditLine.isWordChar spaces.1 spaces.2
  if word.2.length = far.length then step near far else word

def forth (s : Sheet) (move : List Char → List Char → List Char × List Char) : Sheet :=
  { s with left := (move s.left s.right).1, right := (move s.left s.right).2 }

def back (s : Sheet) (move : List Char → List Char → List Char × List Char) : Sheet :=
  { s with right := (move s.right s.left).1, left := (move s.right s.left).2 }

/-- Replaces the text by an entry; behind the last entry there is none, and the text is empty. -/
def recalled (entries : List String) (s : Sheet) (place : Nat) : Sheet :=
  { s with left := (entries.getD place "").toList.reverse, right := [], place := place }

/-- A key goes on with a sheet, or typing is over. -/
inductive Turn where
  | on (sheet : Sheet)
  | ended (result : Except IoError String)

def press (entries : List String) (s : Sheet) : Key → Turn
  | .enter =>
    if s.text.getLast? = some '\\' then
      .on ⟨s.rows ++ [String.ofList s.text.dropLast], [], [], s.place⟩
    else .ended (.ok (String.intercalate "; " (s.rows ++ [String.ofList s.text])))
  | .backspace => .on { s with left := s.left.tail }
  | .left => .on (s.back step)
  | .right => .on (s.forth step)
  | .ctrlLeft => .on (s.back hop)
  | .ctrlRight => .on (s.forth hop)
  | .up => .on (s.recalled entries (s.place - 1))
  | .down =>
    .on (s.recalled entries (if s.place < entries.length then s.place + 1 else s.place))
  | .char b =>
    if b = 4 ∧ s.rows = [] ∧ s.left = [] ∧ s.right = [] then
      .ended (.error (.endOfInput "end of input"))
    else if 0x20 ≤ b ∧ b ≤ 0x7e then .on { s with left := Char.ofNat b.toNat :: s.left }
    else .on s
  | .resize | .escape | .tab | .ctrlUp | .ctrlDown => .on s

def receive (entries : List String) (s : Sheet) : Event → Turn
  | .key key => s.press entries key
  | .nothing | .width _ => .on s
  | .failure e => .ended (.error e)

/-- How typing ends: its result, the last sheet and the events that are left. -/
structure Ending where
  result : Except IoError String
  sheet : Sheet
  unread : List Event

def run (entries : List String) (atEnd : IoError) (s : Sheet) : List Event → Ending
  | [] => ⟨.error atEnd, s, []⟩
  | event :: rest =>
    match s.receive entries event with
    | .on s => s.run entries atEnd rest
    | .ended result => ⟨result, s, rest⟩

/-- The editor that has a sheet's text under edit. -/
def editor (e : Editor) (s : Sheet) : Editor :=
  { e with
    rows := s.rows
    line := .around s.left s.right
    history := { e.history with place := s.place } }

/-- An entered line is recorded and cleared; without one the text stays as it is. -/
def closed (e : Editor) (s : Sheet) : Except IoError String → Editor
  | .ok input => { e with rows := [], line := .empty, history := e.history.add input }
  | .error _ => s.editor e

end Sheet

/-- Events that change nothing: resizes, reads without a key, and keys without a meaning. -/
def Event.isIdle : Event → Bool
  | .nothing | .width _ => true
  | .key .resize | .key .tab | .key .escape | .key .ctrlUp | .key .ctrlDown => true
  | .key (.char b) => b ≠ 4 ∧ ¬(0x20 ≤ b ∧ b ≤ 0x7e)
  | _ => false

namespace Sheet

variable {entries : List String} {atEnd : IoError}

theorem receive_idle (s : Sheet) {event : Event} (idle : event.isIdle = true) :
    s.receive entries event = .on s := by
  cases event with
  | nothing | width => rfl
  | failure e => cases idle
  | key key =>
    cases key with
    | char b =>
      simp only [Event.isIdle, decide_eq_true_eq] at idle
      obtain ⟨other, unprintable⟩ := idle
      simp [receive, press, other, unprintable]
    | resize | tab | escape | ctrlUp | ctrlDown => rfl
    | enter | backspace | up | down | left | right | ctrlLeft | ctrlRight => cases idle

/-- Idle events can be left out. -/
theorem run_filter (s : Sheet) (events : List Event) :
    (s.run entries atEnd events).result =
        (s.run entries atEnd (events.filter fun event => !event.isIdle)).result ∧
      (s.run entries atEnd events).sheet =
        (s.run entries atEnd (events.filter fun event => !event.isIdle)).sheet := by
  induction events generalizing s with
  | nil => exact ⟨rfl, rfl⟩
  | cons event rest ih =>
    by_cases idle : event.isIdle = true
    · rw [List.filter_cons_of_neg (by simp [idle]), run, receive_idle s idle]
      exact ih s
    · rw [List.filter_cons_of_pos (by simp [idle]), run, run]
      cases s.receive entries event with
      | on next => exact ih next
      | ended result => exact ⟨rfl, rfl⟩

theorem carry_eq (p : Char → Bool) (near far : List Char) :
    carry p near far = ((far.takeWhile p).reverse ++ near, far.dropWhile p) := by
  induction far generalizing near with
  | nil => rfl
  | cons c far ih =>
    rw [carry]
    split
    · rename_i holds
      rw [ih]
      simp [holds]
    · rename_i fails
      simp [fails]

theorem step_eq (near far : List Char) :
    step near far = ((far.take 1).reverse ++ near, far.drop 1) := by
  cases far <;> rfl

/- The two ways to find the end of a word, by carrying and by counting, agree. -/
theorem hop_eq (near far : List Char) :
    hop near far =
      ((far.take (EditLine.wordStep far)).reverse ++ near, far.drop (EditLine.wordStep far)) := by
  have parts : far.takeWhile Text.isSpace ++
      ((far.dropWhile Text.isSpace).takeWhile EditLine.isWordChar ++
        (far.dropWhile Text.isSpace).dropWhile EditLine.isWordChar) = far := by
    rw [List.takeWhile_append_dropWhile, List.takeWhile_append_dropWhile]
  have lengths := congrArg List.length parts
  simp only [List.length_append] at lengths
  simp only [hop, carry_eq, EditLine.wordStep]
  generalize far.takeWhile Text.isSpace = spaces at parts lengths
  generalize (far.dropWhile Text.isSpace).takeWhile EditLine.isWordChar = word at parts lengths
  generalize (far.dropWhile Text.isSpace).dropWhile EditLine.isWordChar = rest at parts lengths
  by_cases stuck : rest.length = far.length
  · have none : spaces.length + word.length = 0 := by omega
    rw [if_pos stuck, if_pos none, step_eq]
    cases far <;> simp
  · have moved : spaces.length + word.length ≠ 0 := by omega
    have whole : far = (spaces ++ word) ++ rest := by rw [← parts, List.append_assoc]
    rw [if_neg stuck, if_neg moved, whole, List.take_left' List.length_append,
      List.drop_left' List.length_append, List.reverse_append, List.append_assoc]

end Sheet

namespace EditLine

variable (left right : List Char)

theorem insert_around (c : Char) :
    (around left right).insert c = around (c :: left) right := by
  simp [around, insert, List.take_left', List.drop_left']

theorem erase_around : (around left right).erase = around left.tail right := by
  cases left with
  | nil => rfl
  | cons c left =>
    have gone : (left.reverse ++ c :: right).eraseIdx left.length = left.reverse ++ right := by
      rw [List.eraseIdx_append_of_length_le (by simp)]
      simp
    simp [around, erase, gone]

theorem forth_around {n : Nat} (bound : n ≤ right.length) :
    around ((right.take n).reverse ++ left) (right.drop n) =
      ⟨left.reverse ++ right, left.length + n⟩ := by
  simp only [around, List.reverse_append, List.reverse_reverse, List.append_assoc,
    List.take_append_drop, List.length_append, List.length_reverse, List.length_take]
  rw [Nat.min_eq_left bound, Nat.add_comm]

theorem back_around (n : Nat) :
    around (left.drop n) ((left.take n).reverse ++ right) =
      ⟨left.reverse ++ right, left.length - n⟩ := by
  simp only [around, ← List.append_assoc, ← List.reverse_append, List.take_append_drop,
    List.length_drop]

/- The two runs of a move by one word lie in the characters ahead. -/
theorem wordRuns_le (ahead : List Char) :
    (ahead.takeWhile Text.isSpace).length +
      ((ahead.dropWhile Text.isSpace).takeWhile isWordChar).length ≤ ahead.length := by
  have spaces := congrArg List.length (@List.takeWhile_append_dropWhile _ Text.isSpace ahead)
  have word : ((ahead.dropWhile Text.isSpace).takeWhile isWordChar).length ≤
      (ahead.dropWhile Text.isSpace).length :=
    (List.takeWhile_prefix isWordChar).length_le
  rw [List.length_append] at spaces
  omega

theorem wordStep_le (ahead : List Char) : wordStep ahead ≤ ahead.length := by
  have runs := wordRuns_le ahead
  simp only [wordStep]
  split <;> omega

theorem moveLeft_around :
    (around left right).moveLeft =
      around (Sheet.step right left).2 (Sheet.step right left).1 := by
  rw [Sheet.step_eq]
  cases left with
  | nil => rfl
  | cons c left => exact (back_around (c :: left) right 1).symm

theorem moveRight_around :
    (around left right).moveRight =
      around (Sheet.step left right).1 (Sheet.step left right).2 := by
  rw [Sheet.step_eq]
  cases right with
  | nil => simp [around, moveRight, length]
  | cons c right =>
    rw [forth_around left (c :: right) (by simp)]
    simp [around, moveRight, length]

theorem moveWordLeft_around :
    (around left right).moveWordLeft =
      around (Sheet.hop right left).2 (Sheet.hop right left).1 := by
  have taken : (left.reverse ++ right).take left.length = left.reverse :=
    List.take_left' (by simp)
  rw [Sheet.hop_eq, back_around]
  simp only [around, moveWordLeft, taken, List.reverse_reverse]

theorem moveWordRight_around :
    (around left right).moveWordRight =
      around (Sheet.hop left right).1 (Sheet.hop left right).2 := by
  have dropped : (left.reverse ++ right).drop left.length = right :=
    List.drop_left' (by simp)
  have within : left.length + wordStep right ≤ (left.reverse ++ right).length := by
    rw [List.length_append, List.length_reverse]
    exact Nat.add_le_add_left (wordStep_le right) _
  rw [Sheet.hop_eq, forth_around left right (wordStep_le right)]
  simp only [around, moveWordRight, dropped, length, Nat.min_eq_left within]

theorem ofText_eq_around (s : String) : ofText s = around s.toList.reverse [] := by
  simp [ofText, around]

end EditLine

namespace History

theorem shown_eq (h : History) : h.shown = h.entries.getD h.place "" := by
  rw [shown, slots, List.getD_eq_getElem?_getD, List.getD_eq_getElem?_getD, List.getElem?_append]
  split
  · rfl
  · rename_i outside
    rw [List.getElem?_eq_none (Nat.le_of_not_lt outside)]
    cases h.place - h.entries.length <;> rfl

theorem down_place (h : History) (place : Nat) :
    { h with place := place }.down =
      { h with place := if place < h.entries.length then place + 1 else place } := by
  unfold down
  split
  · rfl
  · rfl

/- Committing a line leaves browsing, so where it was does not matter. -/
theorem add_place (h : History) (place : Nat) (line : String) :
    { h with place := place }.add line = h.add line := by
  by_cases blank : Text.trim line = ""
  · simp [add, push?, blank, toEnd]
  · simp [add, push?, blank, toEnd]

theorem toEnd_add (h : History) (line : String) : (h.add line).toEnd = h.add line := by
  unfold add
  split <;> rfl

end History

namespace Sheet

/-- A turn on a sheet and a step of the editor that has its text. -/
inductive Follows (e : Editor) (s : Sheet) : Turn → Progress Terminal → Prop where
  | on {s' : Sheet} {r : Reading Terminal} :
      r.editor = s'.editor e → r.display.room = none → Follows e s (.on s') (.going r)
  | ended {result : Except IoError String} {r : Reading Terminal} :
      r.editor = s.closed e result → Follows e s (.ended result) (.done result r)

open Terminal (reader)

variable {e : Editor} {s : Sheet} {r : Reading Terminal}

theorem endsInBackslash_editor (e : Editor) (s : Sheet) :
    (s.editor e).line.endsInBackslash = true ↔ s.text.getLast? = some '\\' := by
  simp [EditLine.endsInBackslash, editor, EditLine.around, text]

theorem request_editor_char (e : Editor) (s : Sheet) (b : UInt8) :
    (s.editor e).request (.char b) =
      if b = 4 ∧ s.rows = [] ∧ s.left = [] ∧ s.right = [] then .endOfInput
      else if 0x20 ≤ b ∧ b ≤ 0x7e then
        .edit ({ s with left := Char.ofNat b.toNat :: s.left }.editor e)
      else .edit (s.editor e) := by
  have empty : (s.editor e).line.chars = [] ∧ (s.editor e).rows = [] ↔
      s.rows = [] ∧ s.left = [] ∧ s.right = [] := by
    simp only [editor, EditLine.around, List.append_eq_nil_iff, List.reverse_eq_nil_iff]
    exact and_comm
  have printable : Key.isPrintable (.char b) = true ↔ 0x20 ≤ b ∧ b ≤ 0x7e := by
    simp [Key.isPrintable]
  simp only [Editor.request, Key.endByte, empty, printable, Editor.editLine]
  have typed : (s.editor e).line.insert (Char.ofNat b.toNat) =
      .around (Char.ofNat b.toNat :: s.left) s.right :=
    EditLine.insert_around s.left s.right _
  rw [typed]
  rfl

theorem browse_editor (e : Editor) (s : Sheet) (place : Nat) :
    (s.editor e).browse { e.history with place := place } =
      (s.recalled e.history.entries place).editor e := by
  simp only [Editor.browse, History.shown_eq, EditLine.ofText_eq_around]
  rfl

theorem commit_editor (e : Editor) (s : Sheet) :
    (s.editor e).commit =
      s.closed e (.ok (String.intercalate "; " (s.rows ++ [String.ofList s.text]))) := by
  have added := History.add_place e.history s.place (s.editor e).joined
  simp only [Editor.commit, Editor.clear]
  have same : (s.editor e).history.add (s.editor e).joined =
      e.history.add (s.editor e).joined := added
  rw [same, History.toEnd_add]
  rfl

theorem follows_edit (same : r.editor = s.editor e) (free : r.display.room = none) {key : Key}
    {s' : Sheet} (asked : (s.editor e).request key = .edit (s'.editor e)) :
    Follows e s (.on s') (reader.press r key) := by
  rw [← same] at asked
  rw [Reading.press_edit asked]
  exact .on rfl free

/- A key that edits the text does to the line what it does to the sheet. -/
theorem follows_editLine (same : r.editor = s.editor e) (free : r.display.room = none) {key : Key}
    {f : EditLine → EditLine} {left right : List Char}
    (asked : (s.editor e).request key = (s.editor e).editLine f)
    (edited : f (.around s.left s.right) = .around left right) :
    Follows e s (.on { s with left := left, right := right }) (reader.press r key) := by
  apply follows_edit same free
  rw [asked, Editor.editLine]
  have line : f (s.editor e).line = .around left right := edited
  rw [line]
  rfl

theorem follows_enter (same : r.editor = s.editor e) (free : r.display.room = none) :
    Follows e s (s.press e.history.entries .enter) (reader.press r .enter) := by
  have backslash := endsInBackslash_editor e s
  rw [press]
  split
  · rename_i continues
    have asked : r.editor.request .enter = .continueRow := by
      rw [same, Editor.request, if_pos (backslash.mpr continues)]
    rw [Reading.press_continueRow free asked]
    exact .on (by rw [same]; rfl) rfl
  · rename_i ends
    have asked : r.editor.request .enter = .enter := by
      rw [same, Editor.request, if_neg fun h => ends (backslash.mp h)]
    rw [Reading.press_enter free asked, same]
    exact .ended (commit_editor e s)

theorem follows_char (same : r.editor = s.editor e) (free : r.display.room = none) (b : UInt8) :
    Follows e s (s.press e.history.entries (.char b)) (reader.press r (.char b)) := by
  have asked := request_editor_char e s b
  rw [press]
  split
  · rename_i ends
    rw [if_pos ends, ← same] at asked
    rw [Reading.press_endOfInput free asked]
    exact .ended same
  rename_i more
  rw [if_neg more] at asked
  split
  · rename_i printable
    rw [if_pos printable] at asked
    exact follows_edit same free asked
  · rename_i unprintable
    rw [if_neg unprintable] at asked
    exact follows_edit same free asked

theorem follows_press (same : r.editor = s.editor e) (free : r.display.room = none) (key : Key) :
    Follows e s (s.press e.history.entries key) (reader.press r key) := by
  cases key with
  | char b => exact follows_char same free b
  | enter => exact follows_enter same free
  | backspace => exact follows_editLine same free rfl (EditLine.erase_around _ _)
  | left => exact follows_editLine same free rfl (EditLine.moveLeft_around _ _)
  | right => exact follows_editLine same free rfl (EditLine.moveRight_around _ _)
  | ctrlLeft => exact follows_editLine same free rfl (EditLine.moveWordLeft_around _ _)
  | ctrlRight => exact follows_editLine same free rfl (EditLine.moveWordRight_around _ _)
  | up => exact follows_edit same free (congrArg _ (browse_editor e s _))
  | down =>
    apply follows_edit same free
    rw [← browse_editor, ← History.down_place]
    rfl
  | resize =>
    rw [Reading.press_resize rfl]
    exact .on same free
  | escape | tab | ctrlUp | ctrlDown => exact follows_edit same free rfl

theorem follows_receive (same : r.editor = s.editor e) (free : r.display.room = none)
    (event : Event) :
    Follows e s (s.receive e.history.entries event) (reader.receive r event) := by
  cases event with
  | key key => exact follows_press same free key
  | nothing => exact .on same free
  | width columns =>
    let wider : Reading Terminal := { r with terminal := { r.terminal with columns := columns } }
    exact @follows_press e s wider same free .resize
  | failure failure => exact .ended same

/-- A reading ends as typing on the sheet does. -/
theorem run_follows (same : r.editor = s.editor e) (free : r.display.room = none)
    (highlighter : Option Highlighter) (atEnd : IoError) (events : List Event) :
    (reader.run highlighter atEnd r events).result =
        (s.run e.history.entries atEnd events).result ∧
      (reader.run highlighter atEnd r events).reading.editor =
        (s.run e.history.entries atEnd events).sheet.closed e
          (s.run e.history.entries atEnd events).result ∧
      (reader.run highlighter atEnd r events).unread =
        (s.run e.history.entries atEnd events).unread := by
  induction events generalizing r s with
  | nil =>
    obtain ⟨r', drawn, free', kept⟩ := Reading.draw_unbounded free highlighter
    rw [LineReader.run_nil drawn]
    exact ⟨rfl, kept.trans same, rfl⟩
  | cons event rest ih =>
    obtain ⟨r', drawn, free', kept⟩ := Reading.draw_unbounded free highlighter
    have step := follows_receive (kept.trans same) free' event
    rw [run]
    generalize turned : s.receive e.history.entries event = turn at step
    generalize received : reader.receive r' event = progress at step
    cases step with
    | on same' free'' =>
      rw [LineReader.run_cons_going drawn received]
      exact ih same' free''
    | ended same' =>
      rw [LineReader.run_cons_done drawn received]
      exact ⟨rfl, same', rfl⟩

theorem closed_of_same {e e' : Editor} (same : e'.history = e.history) (s : Sheet)
    (result : Except IoError String) :
    (s.closed e' result).history = (s.closed e result).history ∧
      (s.closed e' result).rows = (s.closed e result).rows ∧
      (s.closed e' result).line = (s.closed e result).line := by
  cases result with
  | ok input => simp only [closed, same, and_self]
  | error failure => simp only [closed, editor, same, and_self]

end Sheet

namespace Editor

variable {e : Editor} {t : Terminal} {prompt : String} {highlighter : Option Highlighter}

/-- What typing the terminal's events on an empty sheet comes to. -/
def typed (e : Editor) (t : Terminal) : Sheet.Ending :=
  (Sheet.start e.history.entries).run e.history.entries t.atEnd t.events

theorem readLine_eq_typed (h : e.Undisturbed t prompt highlighter) :
    (e.readLine t prompt highlighter).1 = (e.typed t).result ∧
      (e.readLine t prompt highlighter).2.1 = (e.typed t).sheet.closed e (e.typed t).result ∧
      (e.readLine t prompt highlighter).2.2.events = (e.typed t).unread := by
  have cleared : (e.opening t prompt).editor = (Sheet.start e.history.entries).editor e := rfl
  have follows := Sheet.run_follows cleared rfl highlighter t.atEnd t.events
  simp only [readLine_of_fits h.saves h.sets h.fits, finished, typed]
  exact follows

theorem typed_of_same {e' : Editor} {t' : Terminal} (history : e'.history = e.history)
    (atEnd : t'.atEnd = t.atEnd)
    (events : (t'.events.filter fun event => !event.isIdle) =
      t.events.filter fun event => !event.isIdle) :
    (e'.typed t').result = (e.typed t).result ∧ (e'.typed t').sheet = (e.typed t).sheet := by
  have first := @Sheet.run_filter e.history.entries t.atEnd (.start e.history.entries) t.events
  have second := @Sheet.run_filter e.history.entries t.atEnd (.start e.history.entries) t'.events
  rw [typed, typed, history, atEnd, first.1, first.2, second.1, second.2, events]
  exact ⟨rfl, rfl⟩

/-- Reading a line is typing on a sheet, so the prompts, the window, the features and the
highlighter have no part in it, and idle events have none. -/
theorem readLine_typed (e : Editor) (t : Terminal) (prompt : String)
    (highlighter : Option Highlighter) (h : e.Undisturbed t prompt highlighter) :
    let out := e.readLine t prompt highlighter
    out.1 = (e.typed t).result ∧
      out.2.1 = (e.typed t).sheet.closed e (e.typed t).result ∧
      out.2.2.events = (e.typed t).unread ∧
      (∀ input, out.1 = .ok input → out.2.1.history = e.history.add input) ∧
      (∀ failure, out.1 = .error failure → out.2.1.history.entries = e.history.entries) ∧
      ∀ (e' : Editor) (t' : Terminal) (prompt' : String) (highlighter' : Option Highlighter),
        e'.Undisturbed t' prompt' highlighter' → e'.history = e.history → t'.atEnd = t.atEnd →
        ((t'.events.filter fun event => !event.isIdle) =
          t.events.filter fun event => !event.isIdle) →
        let out' := e'.readLine t' prompt' highlighter'
        out'.1 = out.1 ∧ out'.2.1.history = out.2.1.history ∧ out'.2.1.rows = out.2.1.rows ∧
          out'.2.1.line = out.2.1.line ∧
          (t'.events = t.events → out'.2.2.events = out.2.2.events) := by
  intro out
  obtain ⟨result, editor, unread⟩ := readLine_eq_typed h
  refine ⟨result, editor, unread, ?_, ?_, ?_⟩
  · intro input entered
    have ok : (e.typed t).result = .ok input := result.symm.trans entered
    rw [show out.2.1 = _ from editor, ok, Sheet.closed]
  · intro failure failed
    have error : (e.typed t).result = .error failure := result.symm.trans failed
    rw [show out.2.1 = _ from editor, error, Sheet.closed, Sheet.editor]
  · intro e' t' prompt' highlighter' h' history atEnd events out'
    obtain ⟨result', editor', unread'⟩ := readLine_eq_typed h'
    obtain ⟨results, sheets⟩ := typed_of_same history atEnd events
    have kept := Sheet.closed_of_same history (e.typed t).sheet (e.typed t).result
    rw [results, sheets] at editor'
    rw [← editor, ← editor'] at kept
    refine ⟨result'.trans (results.trans result.symm), kept.1, kept.2.1, kept.2.2, ?_⟩
    intro same
    have ends : e'.typed t' = e.typed t := by rw [typed, typed, history, atEnd, same]
    exact unread'.trans ((congrArg Sheet.Ending.unread ends).trans unread.symm)

/- A loaded history: the first step up shows its newest entry, in a plain narrow window with idle
events as in a wide one with colours. -/
theorem readLine_typed_recalled :
    let e := Editor.new (History.ofText 0 "help\ncd a") {}
    let plain := { e with features := ⟨false, false, false⟩, continuation := "" }
    let t : Terminal :=
      { columns := 80, events := [.key .up, .key .ctrlLeft, .key .backspace, .key .enter, .nothing],
        display := ⟨.empty, some 2000⟩, mode := 0, faults := {}, calls := [],
        atEnd := .endOfInput "" }
    let narrow : Terminal :=
      { t with
        columns := 1
        events := [.width 2, .key .up, .key .tab, .key .ctrlLeft, .key (.char 7), .nothing,
          .key .backspace, .key .escape, .key .enter]
        display := ⟨.empty, none⟩ }
    let colours : Option Highlighter := some ⟨⟨fun _ => false, fun _ => false, fun _ => false⟩, none⟩
    e.Undisturbed t "$ " colours ∧ plain.Undisturbed narrow "" none ∧
      (e.readLine t "$ " colours).1 = .ok "cda" ∧
      (plain.readLine narrow "" none).1 = .ok "cda" := by
  intro e plain t narrow colours
  have wide : e.Undisturbed t "$ " colours := by
    refine ⟨rfl, rfl, ?_⟩
    rintro room ⟨⟩
    decide +kernel
  have small : plain.Undisturbed narrow "" none := ⟨rfl, rfl, by rintro room ⟨⟩⟩
  obtain ⟨result, _, _, _, _, same⟩ := readLine_typed e t "$ " colours wide
  have entered : (e.typed t).result = .ok "cda" := by
    have some : (e.typed t).result.toOption = some "cda" := by decide +kernel
    cases ended : (e.typed t).result with
    | ok input =>
      rw [ended] at some
      cases some
      rfl
    | error failure =>
      rw [ended] at some
      cases some
  have idle : (narrow.events.filter fun event => !event.isIdle) =
      t.events.filter fun event => !event.isIdle := by decide
  obtain ⟨alike, _⟩ := same plain narrow "" none small rfl rfl idle
  exact ⟨wide, small, result.trans entered, alike.trans (result.trans entered)⟩

end Editor

end LineShell
