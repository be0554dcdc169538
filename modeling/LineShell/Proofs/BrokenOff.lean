import LineShell.Proofs.InRange

/-!
How a reading leaves the line, whatever ends it. The cursor is inside the line, so that any edits
can follow, with one exception: if the cursor stands behind a last backslash and the row cannot be
left after Enter, the backslash is gone already and the cursor is behind the end.
-/

namespace LineShell

namespace Editor

/-- The cursor stands behind a backslash that ends the line. -/
def AtBackslash (e : Editor) : Prop :=
  e.line.endsInBackslash = true ∧ e.line.cursor = e.line.length

/-- Without the last character of the line. -/
def cut (e : Editor) : Editor :=
  { e with line := e.line.dropLast }

variable {e : Editor}

theorem AtBackslash.outside (h : e.AtBackslash) : ¬ e.cut.line.Inside := by
  obtain ⟨slash, last⟩ := h
  have nonempty : e.line.chars ≠ [] := by
    intro empty
    simp [EditLine.endsInBackslash, empty] at slash
  have long : 0 < e.line.chars.length := List.length_pos_of_ne_nil nonempty
  simp only [EditLine.Inside, EditLine.length, cut, EditLine.dropLast, List.length_dropLast]
    at last ⊢
  omega

theorem inside_cut (inside : e.line.Inside) (slash : e.line.endsInBackslash = true) :
    e.cut.line.Inside ∨ e.AtBackslash := by
  by_cases last : e.line.cursor = e.line.length
  · exact .inr ⟨slash, last⟩
  · left
    simp only [EditLine.Inside, EditLine.length, cut, EditLine.dropLast, List.length_dropLast]
      at inside last ⊢
    omega

theorem request_continueRow {key : Key} (asked : e.request key = .continueRow) :
    key = .enter ∧ e.line.endsInBackslash = true := by
  cases key with
  | enter =>
    refine ⟨rfl, ?_⟩
    by_contra other
    simp [request, other] at asked
  | char b =>
    simp only [request] at asked
    split at asked
    · cases asked
    · split at asked <;> cases asked
  | _ => cases asked

end Editor

theorem Display.write_error {d d' : Display} {text : String} {e : IoError}
    (failed : d.write text = (.error e, d')) : e = Display.failure := by
  unfold write at failed
  cases room : d.room with
  | none => simp [room] at failed
  | some room' =>
    simp only [room, Prod.mk.injEq] at failed
    split at failed
    · cases failed.1
    · exact (Except.error.inj failed.1).symm

namespace Reading

/-- How reading a line ends: its result, the editor it leaves and the events that are left. -/
structure Ending where
  result : Except IoError String
  editor : Editor
  unread : List Event

/-- Some events are read and drawn, the cursor stands behind a last backslash then, and reading
fails when Enter comes, with the backslash taken off and nothing else done. -/
def Ending.BreaksOff (read : List Event → Ending) (atEnd : IoError) (events : List Event) : Prop :=
  ∃ before typed rest, events = before ++ .key .enter :: rest ∧
    read before = ⟨.error atEnd, typed, []⟩ ∧ typed.AtBackslash ∧
    read events = ⟨.error Display.failure, typed.cut, rest⟩

namespace Ending.BreaksOff

variable {read read' : List Event → Ending} {atEnd : IoError} {event : Event} {events : List Event}

theorem cons (h : BreaksOff read' atEnd events)
    (step : ∀ rest, read (event :: rest) = read' rest) :
    BreaksOff read atEnd (event :: events) := by
  obtain ⟨before, typed, rest, rfl, reached, slash, ended⟩ := h
  exact ⟨event :: before, typed, rest, rfl, (step before).trans reached, slash,
    (step _).trans ended⟩

theorem outside (h : BreaksOff read atEnd events) : ¬ (read events).editor.line.Inside := by
  obtain ⟨before, typed, rest, _, _, slash, ended⟩ := h
  rw [ended]
  exact slash.outside

end Ending.BreaksOff

open Terminal (reader)

variable {r r' : Reading Terminal} {highlighter : Option Highlighter}
  {result : Except IoError String}

def ending (r : Reading Terminal) (highlighter : Option Highlighter) (atEnd : IoError)
    (events : List Event) : Ending :=
  let f := reader.run highlighter atEnd r events
  ⟨f.result, f.reading.editor, f.unread⟩

/- What ends in a write ends behind it, or the write itself fails. -/
theorem write_done {text : String} {next : Reading Terminal → Progress Terminal}
    (ended : reader.write r text next = .done result r') :
    (∃ display, next (r.showing display) = .done result r') ∨
      result = .error Display.failure ∧ r'.editor = r.editor := by
  rcases written : r.display.write text with ⟨e | _, display⟩
  · rw [write_error written] at ended
    cases ended
    exact .inr ⟨congrArg _ (Display.write_error written), rfl⟩
  · rw [write_ok written] at ended
    exact .inl ⟨display, ended⟩

theorem leave_done {next : Reading Terminal → Progress Terminal}
    (ended : reader.leave r next = .done result r') :
    (∃ display, next (r.showing display) = .done result r') ∨
      result = .error Display.failure ∧ r'.editor = r.editor :=
  write_done ended

theorem draw_done (ended : reader.draw r highlighter = .done result r') :
    r'.editor = r.editor := by
  rw [LineReader.draw_eq_send, send_eq_write] at ended
  rcases write_done ended with ⟨_, impossible⟩ | ⟨_, same⟩
  · cases impossible
  · exact same

/-- The step: what ends a reading leaves the cursor inside, or breaks off at a backslash. -/
theorem press_done (inside : r.editor.line.Inside) {key : Key}
    (ended : reader.press r key = .done result r') :
    r'.editor.line.Inside ∨ key = .enter ∧ r.editor.AtBackslash ∧
      result = .error Display.failure ∧ r'.editor = r.editor.cut := by
  rw [LineReader.press_eq_respond] at ended
  cases asked : r.editor.request key with
  | edit editor | resize => rw [asked] at ended; cases ended
  | continueRow =>
    obtain ⟨pressed, slash⟩ := Editor.request_continueRow asked
    rw [asked] at ended
    rcases leave_done ended with ⟨_, prompting⟩ | ⟨failed, same⟩
    · -- The row has been finished, and the next one is empty.
      rcases write_done prompting with ⟨_, impossible⟩ | ⟨_, same⟩
      · cases impossible
      · left
        rw [same]
        exact Nat.zero_le _
    · rcases Editor.inside_cut inside slash with kept | last
      · left
        rw [same]
        exact kept
      · exact .inr ⟨pressed, last, failed, same⟩
  | enter =>
    left
    rw [asked] at ended
    rcases leave_done ended with ⟨_, ended⟩ | ⟨_, same⟩
    · cases ended
      exact Nat.zero_le _
    · rw [same]
      exact inside
  | endOfInput =>
    left
    rw [asked] at ended
    rcases leave_done ended with ⟨_, ended⟩ | ⟨_, same⟩
    · cases ended
      exact inside
    · rw [same]
      exact inside

theorem receive_done (inside : r.editor.line.Inside) {event : Event}
    (ended : reader.receive r event = .done result r') :
    r'.editor.line.Inside ∨ event = .key .enter ∧ r.editor.AtBackslash ∧
      result = .error Display.failure ∧ r'.editor = r.editor.cut := by
  cases event with
  | key key =>
    rcases press_done inside ended with kept | ⟨rfl, broken⟩
    · exact .inl kept
    · exact .inr ⟨rfl, broken⟩
  | nothing => cases ended
  | width columns => cases ended
  | failure e =>
    cases ended
    exact .inl inside

theorem inside_of_stopped (inside : r.editor.line.Inside)
    (drew : reader.draw r highlighter = .done result r') (atEnd : IoError) (events : List Event) :
    (r.ending highlighter atEnd events).editor.line.Inside := by
  rw [ending, LineReader.run_stopped drew]
  change r'.editor.line.Inside
  rw [draw_done drew]
  exact inside

/-- The run: the step at the end of it decides. -/
theorem ending_inside (inside : r.Inside) (highlighter : Option Highlighter) (atEnd : IoError)
    (events : List Event) :
    (r.ending highlighter atEnd events).editor.line.Inside ∨
      Ending.BreaksOff (r.ending highlighter atEnd) atEnd events := by
  induction events generalizing r with
  | nil =>
    left
    cases drew : reader.draw r highlighter with
    | done result r' => exact inside_of_stopped inside.editor.line drew atEnd []
    | going r' =>
      rw [ending, LineReader.run_nil drew]
      exact (inside.draw drew).editor.line
  | cons event rest ih =>
    cases drew : reader.draw r highlighter with
    | done result r' => exact .inl (inside_of_stopped inside.editor.line drew atEnd _)
    | going r' =>
      have inside' := inside.draw drew
      cases got : reader.receive r' event with
      | done result r'' =>
        have ended : r.ending highlighter atEnd (event :: rest) = ⟨result, r''.editor, rest⟩ := by
          rw [ending, LineReader.run_cons_done drew got]
        rcases receive_done inside'.editor.line got with kept | ⟨rfl, slash, rfl, cut⟩
        · left
          rw [ended]
          exact kept
        · right
          refine ⟨[], r'.editor, rest, rfl, ?_, slash, ?_⟩
          · rw [ending, LineReader.run_nil drew]
          · rw [ended, cut]
      | going r'' =>
        have step (rest : List Event) : r.ending highlighter atEnd (event :: rest) =
            r''.ending highlighter atEnd rest := by
          rw [ending, LineReader.run_cons_going drew got]
          rfl
        rcases ih (inside'.receive got) with kept | broken
        · left
          rw [step]
          exact kept
        · exact .inr (broken.cons step)

end Reading

namespace Editor

variable {e : Editor} {t : Terminal}

/-- Reading a line from these events instead of those of the terminal. -/
def ending (e : Editor) (t : Terminal) (prompt : String) (highlighter : Option Highlighter)
    (events : List Event) : Reading.Ending :=
  let out := e.readLine { t with events := events } prompt highlighter
  ⟨out.1, out.2.1, out.2.2.events⟩

theorem ending_of_fault (fault : t.faults.save ≠ none ∨ t.faults.set ≠ none) (prompt : String)
    (highlighter : Option Highlighter) :
    ∃ failure, ∀ events, e.ending t prompt highlighter events = ⟨.error failure, e, events⟩ := by
  cases saved : t.faults.save with
  | some failure =>
    refine ⟨failure, fun events => ?_⟩
    rw [ending, readLine_of_save_error (t := { t with events := events }) saved]
    rfl
  | none =>
    have set : t.faults.set ≠ none := fault.resolve_left (by simp [saved])
    obtain ⟨failure, set⟩ := Option.ne_none_iff_exists'.mp set
    refine ⟨failure, fun events => ?_⟩
    rw [ending, readLine_of_set_error (t := { t with events := events }) saved set]
    rfl

/- With the mode set, the prompt cannot be shown or a reading of the events starts. -/
theorem ending_of_modes (saves : t.faults.save = none) (sets : t.faults.set = none)
    (prompt : String) (highlighter : Option Highlighter) :
    (∃ result, ∀ events, e.ending t prompt highlighter events = ⟨result, e.clear, events⟩) ∨
      ∃ r : Reading Terminal, r.Inside ∧
        e.ending t prompt highlighter = r.ending highlighter t.atEnd := by
  have reads (events : List Event) : e.ending t prompt highlighter events =
      let out := Terminal.reader.readInMode highlighter t.atEnd e (e.ready t) prompt events
      ⟨out.result, out.editor, out.unread⟩ := by
    rw [ending, readLine_of_modes (t := { t with events := events }) saves sets]
    rfl
  cases shown : Terminal.reader.start e (e.ready t) (Prompt.split prompt) with
  | done result r =>
    left
    have same : r.editor = e.clear := by
      rw [start_eq_write] at shown
      rcases Reading.write_done shown with ⟨_, impossible⟩ | ⟨_, same⟩
      · cases impossible
      · exact same
    refine ⟨result, fun events => ?_⟩
    rw [reads, LineReader.readInMode_of_done highlighter t.atEnd prompt events shown, same]
  | going r =>
    right
    refine ⟨r, Reading.inside_start shown, ?_⟩
    funext events
    rw [reads, LineReader.readInMode_of_going highlighter t.atEnd prompt events shown]
    rfl

end Editor

/- Any edits can be made one after the other exactly if the cursor is inside. -/
theorem Strict.edits_iff (l : EditLine) :
    (∀ edits : List Edit, edits.foldlM edit l = some (edits.foldl EditLine.edit l)) ↔ l.Inside := by
  constructor
  · intro all
    by_contra outside
    have short : front l.chars l.cursor = none := if_neg outside
    have inserted := all [.insert ' ']
    simp [edit, insertAt, short] at inserted
  · intro inside edits
    induction edits generalizing l with
    | nil => rfl
    | cons change rest ih =>
      rw [List.foldlM_cons, edit_eq inside]
      exact ih _ (inside.edit change)

/-- Reading a line leaves an editor to which any edits can be made, in range, exactly if the cursor
is inside. It is outside in two cases only: if it was outside before and the mode could not be
changed, so that nothing was touched, and if reading broke off at a backslash. -/
theorem readLine_leaves_inside (e : Editor) (t : Terminal) (prompt : String)
    (highlighter : Option Highlighter) :
    let left := (e.readLine t prompt highlighter).2.1
    ((∀ edits : List Edit, edits.foldlM Strict.edit left.line =
        some (edits.foldl EditLine.edit left.line)) ↔ left.line.Inside) ∧
      (¬ left.line.Inside ↔
        (t.faults.save ≠ none ∨ t.faults.set ≠ none) ∧ ¬ e.line.Inside ∨
          Reading.Ending.BreaksOff (e.ending t prompt highlighter) t.atEnd t.events) := by
  intro left
  refine ⟨Strict.edits_iff left.line, ?_⟩
  change ¬ (e.ending t prompt highlighter t.events).editor.line.Inside ↔ _
  by_cases fault : t.faults.save ≠ none ∨ t.faults.set ≠ none
  · obtain ⟨failure, untouched⟩ := Editor.ending_of_fault (e := e) fault prompt highlighter
    constructor
    · intro outside
      rw [untouched] at outside
      exact .inl ⟨fault, outside⟩
    · rintro (⟨_, outside⟩ | broken)
      · rw [untouched]
        exact outside
      · exact broken.outside
  · have saves : t.faults.save = none := not_not.mp (not_or.mp fault).1
    have sets : t.faults.set = none := not_not.mp (not_or.mp fault).2
    constructor
    · intro outside
      right
      rcases Editor.ending_of_modes (e := e) saves sets prompt highlighter with
        ⟨result, cleared⟩ | ⟨r, inside, same⟩
      · rw [cleared] at outside
        exact absurd (Nat.zero_le _) outside
      · rw [same] at outside ⊢
        exact (Reading.ending_inside inside highlighter t.atEnd t.events).resolve_left outside
    · rintro (⟨impossible, _⟩ | broken)
      · exact absurd impossible fault
      · exact broken.outside

/- The screen has room for three drawings and no more: the row cannot be left. -/
theorem readLine_leaves_outside :
    let e := Editor.new (History.empty 0) ⟨false, true, true⟩
    let t : Terminal :=
      { columns := 80
        events := [.key (.char 97), .key (.char 92), .key .enter, .key (.char 98), .key .enter]
        display := ⟨.empty, some 87⟩, mode := 7, faults := {}, calls := [],
        atEnd := .endOfInput "" }
    let left := (e.readLine t "$ " none).2.1
    e.line.Inside ∧ left.line = ⟨['a'], 2⟩ ∧ Strict.edit left.line (.insert 'b') = none := by
  refine ⟨Nat.le_refl 0, ?_, ?_⟩ <;> decide +kernel

end LineShell
