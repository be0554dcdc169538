import LineShell.Editor.Screen
import LineShell.Highlight
import LineShell.History
import LineShell.Terminal

/-!
The line editor. It reads keys until a line is entered, and draws the line after each of them. A row
that ends in a backslash goes on in the next row; the rows are joined by semicolons.
-/

namespace LineShell

structure Features where
  interactive : Bool := true
  showPossibleErrors : Bool := true
  syntaxHighlighting : Bool := true
  deriving DecidableEq, Repr

/-- `rows` are the finished rows of the input and `line` is the row under edit. -/
structure Editor where
  history : History
  features : Features
  continuation : String
  rows : List String
  line : EditLine
  deriving DecidableEq, Repr

namespace Editor

def new (history : History) (features : Features) : Editor :=
  ⟨history, features, "> ", [], .empty⟩

def clear (e : Editor) : Editor :=
  { e with rows := [], line := .empty, history := e.history.toEnd }

def browse (e : Editor) (history : History) : Editor :=
  { e with history := history, line := .ofText history.shown }

def inputName : String := "stdin"

def decorate (e : Editor) (highlighter : Option Highlighter) : String × Option String :=
  let f := e.features
  match highlighter with
  | some h =>
    if f.interactive && (f.showPossibleErrors || f.syntaxHighlighting) then
      let out := h.highlight inputName e.line.text
      (if f.syntaxHighlighting then out.text else e.line.text,
        if f.showPossibleErrors then out.diagnostic.map ShellError.message else none)
    else (e.line.text, none)
  | none => (e.line.text, none)

inductive Request where
  | edit (editor : Editor)
  | resize
  /-- The row ends in a backslash, and another one follows. -/
  | continueRow
  | enter
  | endOfInput
  deriving DecidableEq, Repr

def editLine (e : Editor) (f : EditLine → EditLine) : Request :=
  .edit { e with line := f e.line }

/-- End of input counts only before anything has been typed; keys without a meaning do nothing. -/
def request (e : Editor) (key : Key) : Request :=
  match key with
  | .enter => if e.line.endsInBackslash then .continueRow else .enter
  | .backspace => e.editLine .erase
  | .left => e.editLine .moveLeft
  | .right => e.editLine .moveRight
  | .ctrlLeft => e.editLine .moveWordLeft
  | .ctrlRight => e.editLine .moveWordRight
  | .up => .edit (e.browse e.history.up)
  | .down => .edit (e.browse e.history.down)
  | .resize => .resize
  | .char b =>
    if b = Key.endByte ∧ e.line.chars = [] ∧ e.rows = [] then .endOfInput
    else if key.isPrintable then e.editLine (·.insert (Char.ofNat b.toNat))
    else .edit e
  | .escape | .tab | .ctrlUp | .ctrlDown => .edit e

def finishRow (e : Editor) : Editor :=
  { e with rows := e.rows ++ [e.line.text], line := .empty }

def joined (e : Editor) : String :=
  String.intercalate "; " (e.rows ++ [e.line.text])

def commit (e : Editor) : Editor :=
  { e with history := e.history.add e.joined }.clear

end Editor

/-- The operations of the editor that go by places in the line, the history or the window. In a
reader that checks them they may have no value. -/
structure Editor.Operations (m : Type → Type) where
  clear : Editor → m Editor
  request : Editor → Key → m Editor.Request
  commit : Editor → m Editor
  draw : Prompt.Parts → Nat → String → EditLine → Option String → Option Drawn → m String
  leave : Nat → Nat → Option Drawn → m String

def Editor.operations : Editor.Operations Id where
  clear := clear
  request := request
  commit := commit
  draw := Screen.draw
  leave := Screen.leave

/-- A line being read: the editor, the terminal, the width used for drawing, the prompt of the
current row and what has been drawn of it. -/
structure Reading (σ : Type) where
  editor : Editor
  terminal : σ
  width : Nat
  prompt : Prompt.Parts
  drawn : Option Drawn

inductive Progress (σ : Type) where
  | going (reading : Reading σ)
  | done (result : Except IoError String) (reading : Reading σ)

structure Finished (ε σ : Type) where
  result : Except IoError String
  reading : Reading σ
  unread : List ε

structure LineRead (ε σ : Type) where
  result : Except IoError String
  editor : Editor
  terminal : σ
  unread : List ε

structure LineReader (m : Type → Type) (ε μ σ : Type) where
  editing : Editor.Operations m
  driver : Driver ε μ σ

namespace LineReader

variable {m : Type → Type} [Monad m] {ε μ σ α : Type} (R : LineReader m ε μ σ)

/-- Makes a call to the terminal and goes on with the answer, or ends with the failure. -/
def ask (r : Reading σ) (call : σ → Except IoError α × σ) (next : α → Reading σ → m (Progress σ)) :
    m (Progress σ) :=
  match call r.terminal with
  | (.ok a, s) => next a { r with terminal := s }
  | (.error e, s) => return .done (.error e) { r with terminal := s }

def write (r : Reading σ) (text : String) (next : Reading σ → m (Progress σ)) : m (Progress σ) :=
  ask r (R.driver.write · text) fun _ r => next r

def send (r : Reading σ) (text : String) (next : Reading σ → m (Progress σ)) : m (Progress σ) :=
  R.write r text fun r => ask r R.driver.flush fun _ r => next r

def draw (r : Reading σ) (highlighter : Option Highlighter) : m (Progress σ) := do
  let (shown, problem) := r.editor.decorate highlighter
  let line := r.editor.line
  let text ← R.editing.draw r.prompt r.width shown line problem r.drawn
  R.send r text fun r =>
    return .going { r with drawn := some ⟨line.length, line.cursor, problem.isSome⟩ }

def leave (r : Reading σ) (next : Reading σ → m (Progress σ)) : m (Progress σ) := do
  R.send r (← R.editing.leave r.prompt.length r.width r.drawn) next

def showPrompt (r : Reading σ) (prompt : Prompt.Parts) (next : Reading σ → m (Progress σ)) :
    m (Progress σ) :=
  R.write r prompt.head fun r => next { r with prompt := prompt, drawn := none }

def measure (r : Reading σ) : Reading σ :=
  let (columns, s) := R.driver.columns r.terminal
  { r with terminal := s, width := columns }

/-- Does what a key asked for. The backslash that asks for another row is taken off first. -/
def respond (r : Reading σ) : Editor.Request → m (Progress σ)
  | .edit editor => return .going { r with editor := editor }
  | .resize => return .going (R.measure r)
  | .continueRow =>
    let r := { r with editor := { r.editor with line := r.editor.line.dropLast } }
    R.leave r fun r =>
      let r := { r with editor := r.editor.finishRow }
      R.showPrompt r (Prompt.split r.editor.continuation) fun r => return .going r
  | .enter =>
    R.leave r fun r =>
      return .done (.ok r.editor.joined) { r with editor := ← R.editing.commit r.editor }
  | .endOfInput => R.leave r fun r => return .done (.error (.endOfInput "end of input")) r

def press (r : Reading σ) (key : Key) : m (Progress σ) := do
  R.respond r (← R.editing.request r.editor key)

def receive (r : Reading σ) (input : ε) : m (Progress σ) :=
  ask r (R.driver.readKey · input) fun key r =>
    match key with
    | some key => R.press r key
    | none => return .going r

/-- Draws and reads in turn until there is a result. When the inputs are used up, reading gives
`atEnd`. -/
def run (highlighter : Option Highlighter) (atEnd : IoError) (r : Reading σ) :
    List ε → m (Finished ε σ)
  | [] => do
    match ← R.draw r highlighter with
    | .done result r => return ⟨result, r, []⟩
    | .going r => return ⟨.error atEnd, r, []⟩
  | input :: rest => do
    match ← R.draw r highlighter with
    | .done result r => return ⟨result, r, input :: rest⟩
    | .going r =>
      match ← R.receive r input with
      | .done result r => return ⟨result, r, rest⟩
      | .going r => run highlighter atEnd r rest

def start (e : Editor) (s : σ) (prompt : Prompt.Parts) : m (Progress σ) := do
  let r : Reading σ :=
    { editor := ← R.editing.clear e, terminal := s, width := 0, prompt := prompt, drawn := none }
  R.showPrompt r prompt fun r => return .going (R.measure r)

variable (highlighter : Option Highlighter) (atEnd : IoError)

def readInMode (e : Editor) (s : σ) (prompt : String) (inputs : List ε) : m (LineRead ε σ) := do
  match ← R.start e s (Prompt.split prompt) with
  | .done result r => return ⟨result, r.editor, r.terminal, inputs⟩
  | .going r =>
    let f ← R.run highlighter atEnd r inputs
    return ⟨f.result, f.reading.editor, f.reading.terminal, f.unread⟩

def readSettingMode (e : Editor) (s : σ) (prompt : String) (inputs : List ε) :
    m (LineRead ε σ) :=
  match R.driver.setMode s e.features.interactive with
  | (.error failure, s) => return ⟨.error failure, e, s, inputs⟩
  | (.ok _, s) => R.readInMode highlighter atEnd e s prompt inputs

/-- Reads one line. The terminal's mode is saved, set, and restored however reading ends; if it
cannot be saved nothing else happens. A failure to restore it is not reported. -/
def readLine (e : Editor) (s : σ) (prompt : String) (inputs : List ε) : m (LineRead ε σ) :=
  match R.driver.saveMode s with
  | (.error failure, s) => return ⟨.error failure, e, s, inputs⟩
  | (.ok mode, s) => do
    let out ← R.readSettingMode highlighter atEnd e s prompt inputs
    return { out with terminal := (R.driver.restoreMode out.terminal mode).2 }

def play (R : LineReader m Event Nat Terminal) (e : Editor) (t : Terminal) (prompt : String) :
    m (Except IoError String × Editor × Terminal) := do
  let out ← R.readLine highlighter t.atEnd e { t with events := [] } prompt t.events
  return (out.result, out.editor, { out.terminal with events := out.unread })

end LineReader

abbrev Driver.reader {ε μ σ : Type} (D : Driver ε μ σ) : LineReader Id ε μ σ :=
  ⟨Editor.operations, D⟩

abbrev Terminal.reader : LineReader Id Event Nat Terminal :=
  driver.reader

def Editor.readLine (e : Editor) (t : Terminal) (prompt : String)
    (highlighter : Option Highlighter) : Except IoError String × Editor × Terminal :=
  Terminal.reader.play highlighter e t prompt

end LineShell
