import LineShell.Proofs.Rounds

/-!
Displays with enough room. A display of bounded room takes what it is given until the room is used
up, so a reading that would fit does there what it does on a display without a bound.
-/

namespace LineShell

namespace Display

/-- What `base` becomes when the bytes of `d` are written to it. -/
def onto (base d : Display) : Display :=
  ⟨base.written ++ d.written, base.room.map (· - d.written.size)⟩

def Fits (base d : Display) : Prop :=
  ∀ room ∈ base.room, d.written.size ≤ room

theorem onto_empty (base : Display) : base.onto ⟨.empty, none⟩ = base := by
  obtain ⟨written, room⟩ := base
  cases room <;> simp [onto]

theorem write_unbounded {d : Display} (free : d.room = none) (text : String) :
    d.write text = (.ok (), ⟨d.written ++ text.toUTF8, none⟩) := by
  simp [write, free]

theorem write_onto {base d : Display} (free : d.room = none) (text : String)
    (fits : base.Fits (d.write text).2) :
    (base.onto d).write text = ((d.write text).1, base.onto (d.write text).2) := by
  rw [write_unbounded free] at fits ⊢
  obtain ⟨written, room⟩ := base
  cases room with
  | none => simp [write, onto, ByteArray.append_assoc]
  | some room =>
    have total : (d.written ++ text.toUTF8).size ≤ room := fits room rfl
    rw [ByteArray.size_append] at total
    have short : text.toUTF8.size ≤ room - d.written.size := by omega
    have all : text.toUTF8.extract 0 (room - d.written.size) = text.toUTF8 := by
      rw [← Nat.max_eq_left short, ByteArray.extract_zero_max_size]
    simp only [write, onto, Option.map_some, if_pos short, all, ByteArray.append_assoc,
      ByteArray.size_append, Nat.sub_sub]

theorem Fits.mono {base d d' : Display} (h : base.Fits d')
    (size : d.written.size ≤ d'.written.size) : base.Fits d :=
  fun room bound => Nat.le_trans size (h room bound)

end Display

def Progress.reading {σ : Type} : Progress σ → Reading σ
  | .going r | .done _ r => r

namespace Reading

def display (r : Reading Terminal) : Display :=
  r.terminal.display

/-- The reading with another screen. -/
def showing (r : Reading Terminal) (d : Display) : Reading Terminal :=
  { r with terminal := { r.terminal with display := d } }

/-- The reading on another terminal, behind what has been written there. -/
def onto (base : Terminal) (r : Reading Terminal) : Reading Terminal :=
  { r with
    terminal :=
      { base with columns := r.terminal.columns, display := base.display.onto r.display } }

end Reading

def Progress.onto (base : Terminal) : Progress Terminal → Progress Terminal
  | .going r => .going (r.onto base)
  | .done result r => .done result (r.onto base)

/-- A step from a display only adds to it, and it is the same step on any terminal with room for
what it adds. -/
structure Keeps (base : Terminal) (d : Display) (p p' : Progress Terminal) : Prop where
  free : p.reading.display.room = none
  grown : d.written.size ≤ p.reading.display.written.size
  same : base.display.Fits p.reading.display → p' = p.onto base

namespace Reading

open Terminal (reader)

variable {base : Terminal} {r : Reading Terminal}

theorem write_ok {text : String} {d : Display} (taken : r.display.write text = (.ok (), d))
    (next : Reading Terminal → Progress Terminal) :
    reader.write r text next = next (r.showing d) :=
  LineReader.ask_ok (congrArg (fun p => (p.1, { r.terminal with display := p.2 })) taken) _

theorem write_error {text : String} {e : IoError} {d : Display}
    (failed : r.display.write text = (.error e, d)) (next : Reading Terminal → Progress Terminal) :
    reader.write r text next = .done (.error e) (r.showing d) :=
  LineReader.ask_error (congrArg (fun p => (p.1, { r.terminal with display := p.2 })) failed) _

theorem write_unbounded (free : r.display.room = none) (text : String)
    (next : Reading Terminal → Progress Terminal) :
    reader.write r text next = next (r.showing ⟨r.display.written ++ text.toUTF8, none⟩) :=
  write_ok (Display.write_unbounded free text) next

/- A terminal that plays its events has nothing to flush. -/
theorem send_eq_write (r : Reading Terminal) (text : String)
    (next : Reading Terminal → Progress Terminal) :
    reader.send r text next = reader.write r text next := rfl

theorem keeps_going (free : r.display.room = none) :
    Keeps base r.display (.going r) (.going (r.onto base)) :=
  ⟨free, Nat.le_refl _, fun _ => rfl⟩

theorem keeps_done (free : r.display.room = none) (result : Except IoError String) :
    Keeps base r.display (.done result r) (.done result (r.onto base)) :=
  ⟨free, Nat.le_refl _, fun _ => rfl⟩

theorem keeps_write (free : r.display.room = none) (text : String)
    {next : Reading Terminal → Progress Terminal}
    (later : ∀ written, Keeps base ⟨written, none⟩ (next (r.showing ⟨written, none⟩))
      (next ((r.showing ⟨written, none⟩).onto base))) :
    Keeps base r.display (reader.write r text next) (reader.write (r.onto base) text next) := by
  have written := Display.write_unbounded free text
  have step := write_unbounded free text next
  obtain ⟨free', grown, go⟩ := later (r.display.written ++ text.toUTF8)
  rw [← step] at free' grown go
  simp only [ByteArray.size_append] at grown
  refine ⟨free', by omega, ?_⟩
  intro fits
  have here : base.display.Fits (r.display.write text).2 := by
    rw [written]
    exact fits.mono (by simpa only [ByteArray.size_append] using grown)
  have bounded := Display.write_onto free text here
  rw [written] at bounded
  rw [← go fits]
  exact write_ok (r := r.onto base) bounded next

theorem keeps_draw (base : Terminal) (free : r.display.room = none)
    (highlighter : Option Highlighter) :
    Keeps base r.display (reader.draw r highlighter) (reader.draw (r.onto base) highlighter) := by
  rw [LineReader.draw_eq_send, LineReader.draw_eq_send, send_eq_write, send_eq_write]
  apply keeps_write free
  intro written
  exact @keeps_going base { r.showing ⟨written, none⟩ with drawn := _ } rfl

theorem keeps_leave (free : r.display.room = none) {next : Reading Terminal → Progress Terminal}
    (later : ∀ written, Keeps base ⟨written, none⟩ (next (r.showing ⟨written, none⟩))
      (next ((r.showing ⟨written, none⟩).onto base))) :
    Keeps base r.display (reader.leave r next) (reader.leave (r.onto base) next) :=
  keeps_write free _ later

theorem keeps_showPrompt (base : Terminal) (free : r.display.room = none) (prompt : Prompt.Parts) :
    Keeps base r.display (reader.showPrompt r prompt .going)
      (reader.showPrompt (r.onto base) prompt .going) := by
  apply keeps_write free
  intro written
  exact @keeps_going base { r.showing ⟨written, none⟩ with prompt := _, drawn := _ } rfl

theorem keeps_press (base : Terminal) (free : r.display.room = none) (key : Key) :
    Keeps base r.display (reader.press r key) (reader.press (r.onto base) key) := by
  have same : (r.onto base).editor.request key = r.editor.request key := rfl
  rw [LineReader.press_eq_respond, LineReader.press_eq_respond, same]
  cases r.editor.request key with
  | edit editor => exact @keeps_going base { r with editor := editor } free
  | resize => exact @keeps_going base { r with width := r.terminal.columns } free
  | continueRow =>
    refine @keeps_leave base { r with editor := { r.editor with line := r.editor.line.dropLast } }
      free _ ?_
    intro written
    exact @keeps_showPrompt { r.showing ⟨written, none⟩ with editor := _ } base rfl _
  | enter =>
    -- What committing does to the editor does not matter here.
    rw [LineReader.respond_enter, LineReader.respond_enter]
    generalize Editor.commit = commit
    refine keeps_leave free ?_
    intro written
    exact @keeps_done base { r.showing ⟨written, none⟩ with editor := commit r.editor } rfl _
  | endOfInput =>
    refine keeps_leave free ?_
    intro written
    exact @keeps_done base (r.showing ⟨written, none⟩) rfl _

theorem keeps_receive (base : Terminal) (free : r.display.room = none) (event : Event) :
    Keeps base r.display (reader.receive r event) (reader.receive (r.onto base) event) := by
  cases event with
  | key key => exact keeps_press base free key
  | nothing => exact keeps_going free
  | width columns =>
    let wider : Reading Terminal := { r with terminal := { r.terminal with columns := columns } }
    exact @keeps_press wider base free .resize
  | failure e => exact keeps_done free _

/- What the requests of a key come to on a display without a bound. -/
section Requests

variable {key : Key}

theorem press_edit {editor : Editor} (asked : r.editor.request key = .edit editor) :
    reader.press r key = .going { r with editor := editor } := by
  rw [LineReader.press_eq_respond, asked]
  rfl

theorem press_resize (asked : r.editor.request key = .resize) :
    reader.press r key = .going { r with width := r.terminal.columns } := by
  rw [LineReader.press_eq_respond, asked]
  rfl

/-- The reading when its row has been left. -/
def left (r : Reading Terminal) : Reading Terminal :=
  r.showing ⟨r.display.written ++ (Screen.leave r.prompt.length r.width r.drawn).toUTF8, none⟩

theorem leave_unbounded (free : r.display.room = none)
    (next : Reading Terminal → Progress Terminal) : reader.leave r next = next r.left := by
  rw [LineReader.leave_eq_send, send_eq_write, write_unbounded free]
  rfl

theorem press_enter (free : r.display.room = none) (asked : r.editor.request key = .enter) :
    reader.press r key =
      .done (.ok r.editor.joined) { r.left with editor := r.editor.commit } := by
  rw [LineReader.press_eq_respond, asked]
  exact leave_unbounded free _

theorem press_endOfInput (free : r.display.room = none)
    (asked : r.editor.request key = .endOfInput) :
    reader.press r key = .done (.error (.endOfInput "end of input")) r.left := by
  rw [LineReader.press_eq_respond, asked]
  exact leave_unbounded free _

theorem press_continueRow (free : r.display.room = none)
    (asked : r.editor.request key = .continueRow) :
    reader.press r key = .going
      { r.showing ⟨r.left.display.written ++
          (Prompt.split r.editor.continuation).head.toUTF8, none⟩ with
        editor := { r.editor with line := r.editor.line.dropLast }.finishRow
        prompt := Prompt.split r.editor.continuation
        drawn := none } := by
  let cut : Reading Terminal :=
    { r with editor := { r.editor with line := r.editor.line.dropLast } }
  rw [LineReader.press_eq_respond, asked]
  refine (leave_unbounded (r := cut) free _).trans ?_
  exact write_unbounded rfl _ _

end Requests

theorem draw_unbounded (free : r.display.room = none) (highlighter : Option Highlighter) :
    ∃ r', reader.draw r highlighter = .going r' ∧ r'.display.room = none ∧
      r'.editor = r.editor := by
  rw [LineReader.draw_eq_send, send_eq_write, write_unbounded free]
  exact ⟨_, rfl, rfl, rfl⟩

/-- A whole reading does the same on any terminal with room for it. -/
theorem run_onto (base : Terminal) (free : r.display.room = none)
    (highlighter : Option Highlighter) (atEnd : IoError) (events : List Event) :
    r.display.written.size ≤
        (reader.run highlighter atEnd r events).reading.display.written.size ∧
    (base.display.Fits (reader.run highlighter atEnd r events).reading.display →
      reader.run highlighter atEnd (r.onto base) events =
        { reader.run highlighter atEnd r events with
          reading := (reader.run highlighter atEnd r events).reading.onto base }) := by
  induction events generalizing r with
  | nil =>
    have drawn := keeps_draw base free highlighter
    obtain ⟨r', result, _, _⟩ := draw_unbounded free highlighter
    rw [result] at drawn
    rw [LineReader.run_nil result]
    refine ⟨drawn.grown, ?_⟩
    intro fits
    rw [LineReader.run_nil (drawn.same fits)]
  | cons event rest ih =>
    have drawn := keeps_draw base free highlighter
    obtain ⟨r', result, free', _⟩ := draw_unbounded free highlighter
    rw [result] at drawn
    have received := keeps_receive base free' event
    cases next : reader.receive r' event with
    | done outcome last =>
      rw [next] at received
      rw [LineReader.run_cons_done result next]
      refine ⟨Nat.le_trans drawn.grown received.grown, ?_⟩
      intro fits
      have here := drawn.same (fits.mono received.grown)
      rw [LineReader.run_cons_done here (received.same fits)]
    | going last =>
      rw [next] at received
      obtain ⟨grown, same⟩ := ih received.free
      rw [LineReader.run_cons_going result next]
      refine ⟨Nat.le_trans drawn.grown (Nat.le_trans received.grown grown), ?_⟩
      intro fits
      have there := fits.mono grown
      have here := drawn.same (there.mono received.grown)
      rw [LineReader.run_cons_going here (received.same there)]
      exact same fits

end Reading

namespace Editor

open Terminal (reader)

variable {e : Editor} {t : Terminal} {prompt : String} {highlighter : Option Highlighter}

/-- What reading a line writes, on a display that takes everything. -/
def output (e : Editor) (t : Terminal) (prompt : String) (highlighter : Option Highlighter) :
    ByteArray :=
  (e.readLine { t with display := ⟨.empty, none⟩ } prompt highlighter).2.2.display.written

/-- Mode calls succeed, and there is room for all that is written. -/
structure Undisturbed (e : Editor) (t : Terminal) (prompt : String)
    (highlighter : Option Highlighter) : Prop where
  saves : t.faults.save = none
  sets : t.faults.set = none
  room : ∀ room ∈ t.display.room, (e.output t prompt highlighter).size ≤ room

/-- The reading that starts when the head of the prompt has been shown, on a terminal of which only
the width matters. -/
def opening (e : Editor) (t : Terminal) (prompt : String) : Reading Terminal where
  editor := e.clear
  terminal :=
    { columns := t.columns, events := [], display := ⟨(Prompt.split prompt).head.toUTF8, none⟩,
      mode := 0, faults := {}, calls := [], atEnd := .endOfInput "" }
  width := t.columns
  prompt := Prompt.split prompt
  drawn := none

/-- The run of the reading of a line, on a display without a bound. -/
def finished (e : Editor) (t : Terminal) (prompt : String) (highlighter : Option Highlighter) :
    Finished Event Terminal :=
  reader.run highlighter t.atEnd (e.opening t prompt) t.events

theorem start_eq_write (e : Editor) (t : Terminal) (prompt : Prompt.Parts) :
    reader.start e t prompt =
      reader.write ⟨e.clear, t, 0, prompt, none⟩ prompt.head fun r =>
        .going { r with width := r.terminal.columns, prompt := prompt, drawn := none } := rfl

theorem start_ok {d : Display} (taken : t.display.write (Prompt.split prompt).head = (.ok (), d)) :
    reader.start e t (Prompt.split prompt) =
      .going ⟨e.clear, { t with display := d }, t.columns, Prompt.split prompt, none⟩ :=
  (start_eq_write e t _).trans (Reading.write_ok (r := ⟨e.clear, t, 0, _, none⟩) taken _)

/- The prompt can be shown on any terminal of the same width with room for it. -/
theorem start_onto {t' : Terminal} (columns : t'.columns = t.columns)
    (fits : t'.display.Fits (e.opening t prompt).display) :
    reader.start e t' (Prompt.split prompt) = .going ((e.opening t prompt).onto t') := by
  let head := (Prompt.split prompt).head
  have written : (⟨.empty, none⟩ : Display).write head = (.ok (), (e.opening t prompt).display) := by
    rw [Display.write_unbounded rfl, ByteArray.empty_append]
    rfl
  have shown := @Display.write_onto t'.display ⟨.empty, none⟩ rfl head
    (by rwa [written])
  rw [Display.onto_empty, written] at shown
  rw [start_ok shown]
  simp only [Reading.onto, opening, columns]

theorem readInMode_of_fits {t' : Terminal} (columns : t'.columns = t.columns)
    (fits : t'.display.Fits (e.finished t prompt highlighter).reading.display) :
    reader.readInMode highlighter t.atEnd e t' prompt t.events =
      let f := e.finished t prompt highlighter
      ⟨f.result, f.reading.editor, (f.reading.onto t').terminal, f.unread⟩ := by
  have going := @Reading.run_onto (e.opening t prompt) t' rfl highlighter t.atEnd t.events
  have start := start_onto (e := e) columns (fits.mono going.1)
  rw [LineReader.readInMode_of_going highlighter t.atEnd prompt t.events start]
  simp only [going.2 fits]
  rfl

theorem readLine_of_save_error {failure : IoError} (fault : t.faults.save = some failure) :
    e.readLine t prompt highlighter = (.error failure, e, t.call .save) := by
  have failed := Terminal.saveMode_error (t := { t with events := [] }) fault
  rw [readLine, LineReader.play,
    LineReader.readLine_of_save_error (D := Terminal.driver) highlighter t.atEnd prompt t.events
      failed]
  rfl

theorem readLine_of_save_ok (saves : t.faults.save = none) :
    e.readLine t prompt highlighter =
      let out := reader.readSettingMode highlighter t.atEnd e ({ t with events := [] }.call .save)
        prompt t.events
      (out.result, out.editor,
        { out.terminal.call (.restore t.mode) with events := out.unread }) := by
  have saved := Terminal.saveMode_ok (t := { t with events := [] }) saves
  rw [readLine, LineReader.play,
    LineReader.readLine_of_save_ok (D := Terminal.driver) highlighter t.atEnd prompt t.events saved]
  rfl

theorem readLine_of_set_error {failure : IoError} (saves : t.faults.save = none)
    (fault : t.faults.set = some failure) :
    e.readLine t prompt highlighter = (.error failure, e,
      ((t.call .save).call (.set e.features.interactive)).call (.restore t.mode)) := by
  have failed := Terminal.setMode_error (t := { t with events := [] }.call .save) fault
    e.features.interactive
  rw [readLine_of_save_ok saves,
    LineReader.readSettingMode_of_error (D := Terminal.driver) highlighter t.atEnd prompt t.events
      failed]
  rfl

/-- The terminal of a reading that starts: the mode is set, and the events are handed out. -/
def ready (e : Editor) (t : Terminal) : Terminal :=
  ({ t with events := [] }.call .save).call (.set e.features.interactive)

theorem readLine_of_modes (saves : t.faults.save = none) (sets : t.faults.set = none) :
    e.readLine t prompt highlighter =
      let out := reader.readInMode highlighter t.atEnd e (e.ready t) prompt t.events
      (out.result, out.editor,
        { out.terminal.call (.restore t.mode) with events := out.unread }) := by
  have set := Terminal.setMode_ok (t := { t with events := [] }.call .save) sets
    e.features.interactive
  rw [readLine_of_save_ok saves,
    LineReader.readSettingMode_of_ok (D := Terminal.driver) highlighter t.atEnd prompt t.events set]
  rfl

/-- If the mode calls succeed and there is room, a line is the run of its reading, put onto the
terminal's display. -/
theorem readLine_of_fits (saves : t.faults.save = none) (sets : t.faults.set = none)
    (fits : t.display.Fits (e.finished t prompt highlighter).reading.display) :
    e.readLine t prompt highlighter =
      let f := e.finished t prompt highlighter
      (f.result, f.reading.editor,
        { t with
          columns := f.reading.terminal.columns
          display := t.display.onto f.reading.display
          events := f.unread
          calls := t.calls ++ [.save, .set e.features.interactive, .restore t.mode] }) := by
  have inMode := @readInMode_of_fits e t prompt highlighter (e.ready t) rfl fits
  rw [readLine_of_modes saves sets, inMode]
  simp [ready, Terminal.call, Reading.onto]

theorem output_eq (saves : t.faults.save = none) (sets : t.faults.set = none) :
    e.output t prompt highlighter = (e.finished t prompt highlighter).reading.display.written := by
  have free := @readLine_of_fits e { t with display := ⟨.empty, none⟩ } prompt highlighter
    saves sets (by simp [Display.Fits])
  rw [output, free]
  exact ByteArray.empty_append

theorem Undisturbed.fits (h : e.Undisturbed t prompt highlighter) :
    t.display.Fits (e.finished t prompt highlighter).reading.display := by
  intro room bound
  rw [← output_eq h.saves h.sets]
  exact h.room room bound

end Editor

end LineShell
