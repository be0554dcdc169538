import LineShell.Proofs.Editing
import LineShell.Proofs.Prompts
import LineShell.Text.Utf8

/-!
What is drawn is what is edited. After every drawing of a line the screen shows the prompt and the
text, wrapped, with the first problem in a row of its own under them, and the cursor at its place,
however many rows the drawings before it took.
-/

namespace LineShell

open Text (isVisible Legible)

namespace Text

theorem decode_toUTF8 (s : String) : decode s.toUTF8 = s := by
  rw [decode, String.fromUTF8?, String.toUTF8_eq_toByteArray, dif_pos s.isValidUTF8]
  rfl

theorem valid_append {bytes : ByteArray} (valid : bytes.IsValidUTF8) (s : String) :
    (bytes ++ s.toUTF8).IsValidUTF8 :=
  valid.append s.isValidUTF8

theorem decode_append {bytes : ByteArray} (valid : bytes.IsValidUTF8) (s : String) :
    decode (bytes ++ s.toUTF8) = decode bytes ++ s := by
  let before : String := ⟨bytes, valid⟩
  have whole : bytes ++ s.toUTF8 = (before ++ s).toUTF8 :=
    (String.toByteArray_append (s := before) (t := s)).symm
  have first : decode bytes = before := decode_toUTF8 before
  rw [whole, decode_toUTF8, first]

end Text

/-- The screen when the bytes have been written to it. -/
def Glass.after (g : Glass) (bytes : ByteArray) : Glass :=
  g.feed (Text.decode bytes).toList

theorem Glass.after_toUTF8 (g : Glass) (s : String) : g.after s.toUTF8 = g.feed s.toList := by
  rw [after, Text.decode_toUTF8]

theorem Glass.after_append (g : Glass) {bytes : ByteArray} (valid : bytes.IsValidUTF8)
    (s : String) : g.after (bytes ++ s.toUTF8) = (g.after bytes).feed s.toList := by
  rw [after, Text.decode_append valid, String.toList_append, feed_append]
  rfl

/-- A reading when its line has just been drawn, and what had been written when the row of the
prompt was started. -/
structure Rendering where
  opened : ByteArray
  reading : Reading Terminal

open Terminal (reader)

namespace Reading

/-- The line is drawn before each event, and a new row of the prompt starts where nothing of it is
drawn. -/
def renderings (highlighter : Option Highlighter) (opened : ByteArray) (r : Reading Terminal) :
    List Event → List Rendering
  | [] =>
    match reader.draw r highlighter with
    | .done _ _ => []
    | .going r => [⟨opened, r⟩]
  | event :: rest =>
    match reader.draw r highlighter with
    | .done _ _ => []
    | .going r =>
      ⟨opened, r⟩ ::
        match reader.receive r event with
        | .done _ _ => []
        | .going r =>
          r.renderings highlighter (if r.drawn.isSome then opened else r.display.written) rest

variable {highlighter : Option Highlighter} {opened : ByteArray} {r r' : Reading Terminal}
  {event : Event}

/-- The reading that a drawing leaves on a display without a bound. -/
def rendered (r : Reading Terminal) (highlighter : Option Highlighter) : Reading Terminal :=
  let line := r.editor.line
  let problem := (r.editor.decorate highlighter).2
  { r.showing ⟨r.display.written ++
      (Screen.draw r.prompt r.width (r.editor.decorate highlighter).1 line problem
        r.drawn).toUTF8, none⟩ with
    drawn := some ⟨line.length, line.cursor, problem.isSome⟩ }

theorem draw_eq_rendered (free : r.display.room = none) :
    reader.draw r highlighter = .going (r.rendered highlighter) := by
  rw [LineReader.draw_eq_send, send_eq_write]
  exact write_unbounded free _ _

theorem renderings_nil (free : r.display.room = none) :
    r.renderings highlighter opened [] = [⟨opened, r.rendered highlighter⟩] := by
  rw [renderings, draw_eq_rendered free]

theorem renderings_cons_done (free : r.display.room = none) {result : Except IoError String}
    (received : reader.receive (r.rendered highlighter) event = .done result r')
    (rest : List Event) :
    r.renderings highlighter opened (event :: rest) = [⟨opened, r.rendered highlighter⟩] := by
  rw [renderings, draw_eq_rendered free]
  simp only [received]

theorem renderings_cons_going (free : r.display.room = none)
    (received : reader.receive (r.rendered highlighter) event = .going r') (rest : List Event) :
    r.renderings highlighter opened (event :: rest) = ⟨opened, r.rendered highlighter⟩ ::
      r'.renderings highlighter (if r'.drawn.isSome then opened else r'.display.written) rest := by
  rw [renderings, draw_eq_rendered free]
  simp only [received]

theorem receive_free (free : r.display.room = none) (received : reader.receive r event = .going r') :
    r'.display.room = none := by
  have kept := keeps_receive r.terminal free event
  rw [received] at kept
  exact kept.free

theorem run_nil_rendered (free : r.display.room = none) (atEnd : IoError) :
    reader.run highlighter atEnd r [] = ⟨.error atEnd, r.rendered highlighter, []⟩ :=
  LineReader.run_nil (draw_eq_rendered free)

/- Each rendering is what reading leaves if the events end there. -/
theorem run_of_mem_renderings (free : r.display.room = none) {events : List Event} {f : Rendering}
    (member : f ∈ r.renderings highlighter opened events) :
    ∃ k, ∀ atEnd,
      reader.run highlighter atEnd r (events.take k) = ⟨.error atEnd, f.reading, []⟩ := by
  induction events generalizing r opened with
  | nil =>
    rw [renderings_nil free, List.mem_singleton] at member
    rw [member]
    exact ⟨0, run_nil_rendered free⟩
  | cons event rest ih =>
    cases received : reader.receive (r.rendered highlighter) event with
    | done result last =>
      rw [renderings_cons_done free received, List.mem_singleton] at member
      rw [member]
      exact ⟨0, run_nil_rendered free⟩
    | going next =>
      rw [renderings_cons_going free received, List.mem_cons] at member
      rcases member with rfl | member
      · exact ⟨0, run_nil_rendered free⟩
      · obtain ⟨k, later⟩ := ih (receive_free rfl received) member
        refine ⟨k + 1, ?_⟩
        intro atEnd
        rw [List.take_succ_cons, LineReader.run_cons_going (draw_eq_rendered free) received]
        exact later atEnd

/- If only the end of the events ends a reading, it has just been drawn. -/
theorem exists_rendering (free : r.display.room = none) {events : List Event} {k : Nat}
    (waits : ∀ atEnd, (reader.run highlighter atEnd r (events.take k)).result = .error atEnd) :
    ∃ f ∈ r.renderings highlighter opened events, ∀ atEnd,
      reader.run highlighter atEnd r (events.take k) = ⟨.error atEnd, f.reading, []⟩ := by
  induction events generalizing r opened k with
  | nil =>
    rw [renderings_nil free, List.take_nil]
    exact ⟨_, List.mem_cons_self, run_nil_rendered free⟩
  | cons event rest ih =>
    cases received : reader.receive (r.rendered highlighter) event with
    | done result last =>
      rw [renderings_cons_done free received]
      cases k with
      | zero => exact ⟨_, List.mem_cons_self, run_nil_rendered free⟩
      | succ k =>
        -- A result of its own cannot be every error that may stand at the end.
        have ended : ∀ atEnd, result = .error atEnd := by
          intro atEnd
          have same := waits atEnd
          rwa [List.take_succ_cons, LineReader.run_cons_done (draw_eq_rendered free) received]
            at same
        cases (ended (.endOfInput "")).symm.trans (ended (.other ""))
    | going next =>
      rw [renderings_cons_going free received]
      cases k with
      | zero => exact ⟨_, List.mem_cons_self, run_nil_rendered free⟩
      | succ k =>
        have step : ∀ atEnd, reader.run highlighter atEnd r ((event :: rest).take (k + 1)) =
            reader.run highlighter atEnd next (rest.take k) := by
          intro atEnd
          rw [List.take_succ_cons, LineReader.run_cons_going (draw_eq_rendered free) received]
        simp only [step] at waits ⊢
        obtain ⟨f, member, same⟩ := ih (receive_free rfl received) waits
        exact ⟨f, List.mem_cons_of_mem _ member, same⟩

end Reading

theorem Highlighter.coloured_highlight (h : Highlighter) (path source : String) :
    Coloured (h.highlight path source).text.toList source.toList := by
  have painted := (h.coloured_paint none (Token.scan path source)).behind coloured_reset
  rw [(Token.scans_scan path source).concat, String.toList_ofList] at painted
  simpa only [highlight, String.toList_append] using painted

namespace Editor

theorem coloured_decorate (e : Editor) (highlighter : Option Highlighter) :
    Coloured (e.decorate highlighter).1.toList e.line.chars := by
  have text : e.line.text.toList = e.line.chars := String.toList_ofList
  have plain : Coloured e.line.text.toList e.line.chars := by
    rw [text]
    exact .plain _
  cases highlighter with
  | none => exact plain
  | some h =>
    have painted := h.coloured_highlight inputName e.line.text
    rw [text] at painted
    simp only [decorate]
    split
    · split
      · exact painted
      · exact plain
    · exact plain

theorem legible_decorate {e : Editor} (visible : ∀ c ∈ e.line.chars, isVisible c = true)
    (highlighter : Option Highlighter) :
    ∀ message ∈ (e.decorate highlighter).2, Legible message := by
  have shown : Legible e.line.text := by
    intro c member
    exact visible c (by simpa [EditLine.text] using member)
  intro message found
  cases highlighter with
  | none => cases found
  | some h =>
    simp only [decorate] at found
    split at found
    · dsimp only at found
      split at found
      · obtain ⟨problem, there, rfl⟩ := Option.map_eq_some_iff.mp found
        exact Highlighter.legible_diagnostic (by decide) shown there
      · cases found
    · cases found

theorem rows_of_request {e e' : Editor} {key : Key} (asked : e.request key = .edit e') :
    e'.rows = e.rows := by
  unfold request at asked
  repeat' split at asked
  all_goals cases asked
  all_goals rfl

end Editor

namespace Reading

variable {r r' : Reading Terminal} {event : Event}

/-- What an event can do to a reading that goes on, in a window of fixed width: the line is edited,
or its row is left and the next one opened. -/
theorem receive_going (free : r.display.room = none) (fixed : ∀ n, event ≠ .width n)
    (received : reader.receive r event = .going r') :
    (∃ editor width, r' = { r with editor := editor, width := width } ∧
      editor.rows = r.editor.rows ∧ (width = r.width ∨ width = r.terminal.columns)) ∨
    r' = { r.showing ⟨r.left.display.written ++
        (Prompt.split r.editor.continuation).head.toUTF8, none⟩ with
      editor := { r.editor with line := r.editor.line.dropLast }.finishRow
      prompt := Prompt.split r.editor.continuation
      drawn := none } := by
  cases event with
  | nothing =>
    cases received
    exact .inl ⟨r.editor, r.width, rfl, rfl, .inl rfl⟩
  | width n => exact absurd rfl (fixed n)
  | failure => cases received
  | key key =>
    change reader.press r key = .going r' at received
    cases asked : r.editor.request key with
    | edit editor =>
      rw [press_edit asked] at received
      cases received
      exact .inl ⟨editor, r.width, rfl, Editor.rows_of_request asked, .inl rfl⟩
    | resize =>
      rw [press_resize asked] at received
      cases received
      exact .inl ⟨r.editor, r.terminal.columns, rfl, rfl, .inr rfl⟩
    | continueRow =>
      rw [press_continueRow free asked] at received
      cases received
      exact .inr rfl
    | enter =>
      rw [press_enter free asked] at received
      cases received
    | endOfInput =>
      rw [press_endOfInput free asked] at received
      cases received

/-- The prompt in front of the row under edit. -/
def promptText (r : Reading Terminal) (prompt : String) : String :=
  if r.editor.rows = [] then prompt else r.editor.continuation

/-- What is to be seen: the last line of the prompt and the row under edit. -/
def shownText (r : Reading Terminal) (prompt : String) : List Char :=
  Prompt.lastLine (r.promptText prompt) ++ r.editor.line.chars

/-- Where in it the cursor is to be. -/
def shownOffset (r : Reading Terminal) (prompt : String) : Nat :=
  (Prompt.lastLine (r.promptText prompt)).length + r.editor.line.cursor

end Reading

/-- The screen shows what is edited, and leaving the row takes only the note away. -/
structure Rendering.Faithful (f : Rendering) (g : Glass) (w : Nat) (prompt : String)
    (highlighter : Option Highlighter) : Prop where
  shows : (g.after f.reading.display.written).Shows w (g.after f.opened).row
    (f.reading.shownText prompt) (Screen.note w (f.reading.editor.decorate highlighter).2)
    (f.reading.shownOffset prompt)
  leaves : ∃ display : Display,
    (∀ editor next, reader.leave { f.reading with editor := editor } next =
      next { f.reading.showing display with editor := editor }) ∧
    (g.after display.written).Page w (g.after f.opened).row (f.reading.shownText prompt) []
      ((f.reading.shownText prompt).length / w + 1) ∧
    (g.after display.written).column = 0

section Steps

variable {e : Editor} {prompt : String} {g : Glass} {w : Nat} {highlighter : Option Highlighter}
  {opened : ByteArray} {r r' : Reading Terminal} {event : Event}

/-- What holds before each drawing. -/
structure Prepared (e : Editor) (prompt : String) (g : Glass) (w : Nat) (opened : ByteArray)
    (r : Reading Terminal) : Prop where
  free : r.display.room = none
  valid : r.display.written.IsValidUTF8
  columns : r.terminal.columns = w
  width : r.width = w
  editor : ∃ s : Sheet, r.editor = s.editor e
  parts : r.prompt = Prompt.split (r.promptText prompt)
  ready : (g.after r.display.written).Ready w (g.after opened).row r.prompt.length r.drawn

theorem Prepared.continuation (h : Prepared e prompt g w opened r) :
    r.editor.continuation = e.continuation := by
  obtain ⟨s, same⟩ := h.editor
  rw [same]
  rfl

theorem Prepared.tame (h : Prepared e prompt g w opened r) (tame : Prompt.Tame prompt.toList)
    (further : Prompt.Tame e.continuation.toList) :
    Prompt.Tame (r.promptText prompt).toList := by
  unfold Reading.promptText
  split
  · exact tame
  · rw [h.continuation]
    exact further

theorem Prepared.draw (h : Prepared e prompt g w opened r) (wide : 0 < w)
    (tame : Prompt.Tame (r.promptText prompt).toList)
    (visible : ∀ c ∈ r.editor.line.chars, isVisible c = true)
    (highlighter : Option Highlighter) :
    Prepared e prompt g w opened (r.rendered highlighter) ∧
      Rendering.Faithful ⟨opened, r.rendered highlighter⟩ g w prompt highlighter := by
  obtain rfl := h.width
  obtain ⟨s, same⟩ := h.editor
  have inside : r.editor.line.cursor ≤ r.editor.line.length := by
    rw [same]
    simp [Sheet.editor, EditLine.around, EditLine.length]
  have prompted := Prompt.coloured_last tame
  have length := Prompt.length_split (r.promptText prompt)
  rw [← h.parts] at prompted length
  have all : ∀ c ∈ Prompt.lastLine (r.promptText prompt) ++ r.editor.line.chars,
      isVisible c = true := by
    intro c member
    rcases List.mem_append.mp member with member | member
    · exact Prompt.visible_lastLine tame c member
    · exact visible c member
  have shows := h.ready.shows_draw wide prompted length (r.editor.coloured_decorate highlighter)
    inside all (Editor.legible_decorate visible highlighter)
  rw [← g.after_append h.valid, length] at shows
  have kept : Drawn.Recalls
      ⟨r.editor.line.length, r.editor.line.cursor, (r.editor.decorate highlighter).2.isSome⟩
      r.prompt.length (r.shownText prompt)
      (Screen.note r.width (r.editor.decorate highlighter).2) (r.shownOffset prompt) := by
    constructor
    · simp [Reading.shownText, length, EditLine.length]
    · simp [Reading.shownOffset, length]
    · simpa [Reading.shownText, Reading.shownOffset, EditLine.length] using inside
    · intro none
      rw [Option.isSome_eq_false_iff, Option.isNone_iff_eq_none] at none
      rw [none]
      rfl
  have valid := Text.valid_append h.valid (Screen.draw r.prompt r.width
    (r.editor.decorate highlighter).1 r.editor.line (r.editor.decorate highlighter).2 r.drawn)
  refine ⟨⟨rfl, valid, h.columns, rfl, h.editor, h.parts, .again shows kept⟩, shows, ?_⟩
  have left := shows.page_leave kept wide
  rw [← g.after_append valid] at left
  refine ⟨⟨_, none⟩, fun editor next => ?_, left⟩
  exact Reading.leave_unbounded (r := { r.rendered highlighter with editor := editor }) rfl next

theorem Prepared.receive (h : Prepared e prompt g w opened r) (wide : 0 < w)
    (further : Prompt.Tame e.continuation.toList) (drawn : r.drawn.isSome = true)
    (fixed : ∀ n, event ≠ .width n) (received : reader.receive r event = .going r') :
    Prepared e prompt g w (if r'.drawn.isSome then opened else r'.display.written) r' := by
  obtain ⟨s, same⟩ := h.editor
  have editor : ∃ s' : Sheet, r'.editor = s'.editor e := by
    have follows := Sheet.follows_receive same h.free event
    rw [received] at follows
    generalize s.receive e.history.entries event = turn at follows
    cases follows with
    | on same' _ => exact ⟨_, same'⟩
  rcases Reading.receive_going h.free fixed received with
    ⟨line, width, rfl, rows, window⟩ | rfl
  · -- Nothing is written, so the last drawing is still there.
    have text : { r with editor := line, width := width }.promptText prompt =
        r.promptText prompt := by
      obtain ⟨s', same'⟩ := editor
      have next : line.continuation = (s'.editor e).continuation :=
        congrArg Editor.continuation same'
      have continuation : line.continuation = r.editor.continuation := by
        rw [next, h.continuation]
        rfl
      simp only [Reading.promptText, rows, continuation]
    have fixed : width = w := by
      rcases window with rfl | rfl
      · exact h.width
      · exact h.columns
    refine ⟨h.free, h.valid, h.columns, fixed, editor, ?_, ?_⟩
    · rw [text]
      exact h.parts
    · rw [if_pos drawn]
      exact h.ready
  · -- The row is left without its note, and the head of the next prompt is written under it.
    have valid := Text.valid_append h.valid (Screen.leave r.prompt.length r.width r.drawn)
    refine ⟨rfl, Text.valid_append valid _, h.columns, h.width, editor, ?_, ?_⟩
    · simp [Reading.promptText, Editor.finishRow]
    · apply Glass.Ready.fresh _ rfl
      have ready := h.ready
      obtain ⟨d, recalled⟩ := Option.isSome_iff_exists.mp drawn
      rw [recalled] at ready
      change (g.after (r.display.written ++ (Screen.leave r.prompt.length r.width r.drawn).toUTF8 ++
        (Prompt.split r.editor.continuation).head.toUTF8)).Fresh w
      rw [g.after_append valid, g.after_append h.valid, h.width, recalled, h.continuation]
      cases ready with
      | again shows kept => exact ((shows.page_leave kept wide).1.fresh wide).feed_head further

/-- After every drawing of a reading that was prepared for it the screen shows what is edited. -/
theorem Prepared.renderings (h : Prepared e prompt g w opened r) (wide : 0 < w)
    (tame : Prompt.Tame prompt.toList) (further : Prompt.Tame e.continuation.toList)
    {events : List Event} (fixed : ∀ n, .width n ∉ events)
    (visible : ∀ f ∈ r.renderings highlighter opened events,
      ∀ c ∈ f.reading.editor.line.chars, isVisible c = true) :
    ∀ f ∈ r.renderings highlighter opened events, f.Faithful g w prompt highlighter := by
  induction events generalizing r opened with
  | nil =>
    rw [Reading.renderings_nil h.free] at visible ⊢
    have drawn := h.draw wide (h.tame tame further) (visible _ List.mem_cons_self) highlighter
    exact List.forall_mem_singleton.mpr drawn.2
  | cons event rest ih =>
    have window : ∀ n, event ≠ .width n := by
      rintro n rfl
      exact fixed n List.mem_cons_self
    cases received : reader.receive (r.rendered highlighter) event with
    | done result last =>
      rw [Reading.renderings_cons_done h.free received] at visible ⊢
      have drawn := h.draw wide (h.tame tame further) (visible _ List.mem_cons_self) highlighter
      exact List.forall_mem_singleton.mpr drawn.2
    | going next =>
      rw [Reading.renderings_cons_going h.free received] at visible ⊢
      obtain ⟨here, later⟩ := List.forall_mem_cons.mp visible
      obtain ⟨kept, faithful⟩ := h.draw wide (h.tame tame further) here highlighter
      have prepared := kept.receive wide further rfl window received
      have rest := ih prepared (fun n member => fixed n (List.mem_cons_of_mem event member)) later
      exact List.forall_mem_cons.mpr ⟨faithful, rest⟩

end Steps

namespace Editor

/-- What is drawn while a line is read. -/
def renderings (e : Editor) (t : Terminal) (prompt : String) (highlighter : Option Highlighter) :
    List Rendering :=
  (e.opening t prompt).renderings highlighter (e.opening t prompt).display.written t.events

theorem prepared_opening {e : Editor} {t : Terminal} {prompt : String} {g : Glass}
    (fresh : g.Fresh t.columns) (tame : Prompt.Tame prompt.toList) :
    Prepared e prompt g t.columns (e.opening t prompt).display.written (e.opening t prompt) := by
  have written : (e.opening t prompt).display.written = (Prompt.split prompt).head.toUTF8 := by
    rw [Reading.display, opening]
  have valid : (Prompt.split prompt).head.toUTF8.IsValidUTF8 :=
    (Prompt.split prompt).head.isValidUTF8
  have ready := Glass.Ready.fresh (p := (Prompt.split prompt).length) (fresh.feed_head tame) rfl
  rw [← g.after_toUTF8, ← written] at ready
  rw [← written] at valid
  exact ⟨rfl, valid, rfl, rfl, ⟨.start e.history.entries, rfl⟩, rfl, ready⟩

/-- Reading ends for no other reason than that the events do. -/
def Waits (e : Editor) (t : Terminal) (prompt : String) (highlighter : Option Highlighter) : Prop :=
  ∀ atEnd, (e.readLine { t with display := ⟨.empty, none⟩, atEnd := atEnd } prompt highlighter).1 =
    .error atEnd

theorem waits_iff {e : Editor} {t : Terminal} {prompt : String} {highlighter : Option Highlighter}
    (saves : t.faults.save = none) (sets : t.faults.set = none) :
    e.Waits t prompt highlighter ↔ ∀ atEnd,
      (reader.run highlighter atEnd (e.opening t prompt) t.events).result = .error atEnd := by
  have result : ∀ atEnd, (e.readLine { t with display := ⟨.empty, none⟩, atEnd := atEnd } prompt
      highlighter).1 = (reader.run highlighter atEnd (e.opening t prompt) t.events).result := by
    intro atEnd
    have free := @readLine_of_fits e { t with display := ⟨.empty, none⟩, atEnd := atEnd } prompt
      highlighter saves sets (by simp [Display.Fits])
    rw [free]
    rfl
  simp only [Waits, result]

/- The renderings are what reading has written whenever it waits for an event. -/
theorem exists_rendering_iff {e : Editor} {t : Terminal} {prompt : String}
    {highlighter : Option Highlighter} (saves : t.faults.save = none)
    (sets : t.faults.set = none) (bytes : ByteArray) :
    (∃ f ∈ e.renderings t prompt highlighter, f.reading.display.written = bytes) ↔
      ∃ k, e.Waits { t with events := t.events.take k } prompt highlighter ∧
        e.output { t with events := t.events.take k } prompt highlighter = bytes := by
  have free : (e.opening t prompt).display.room = none := rfl
  have waits := fun k => @waits_iff e { t with events := t.events.take k } prompt highlighter
    saves sets
  have output := fun k => @output_eq e { t with events := t.events.take k } prompt highlighter
    saves sets
  constructor
  · rintro ⟨f, member, rfl⟩
    obtain ⟨k, same⟩ := Reading.run_of_mem_renderings free member
    refine ⟨k, (waits k).mpr fun atEnd => congrArg Finished.result (same atEnd), ?_⟩
    exact (output k).trans (congrArg (·.reading.display.written) (same t.atEnd))
  · rintro ⟨k, pausing, rfl⟩
    obtain ⟨f, member, same⟩ := Reading.exists_rendering free ((waits k).mp pausing)
    refine ⟨f, member, ?_⟩
    exact ((output k).trans (congrArg (·.reading.display.written) (same t.atEnd))).symm

/-- In a window of fixed width with nothing under the cursor, each drawing shows on the screen what
is edited; there is one whenever reading a line waits for an event, and no other. -/
theorem renderings_faithful (e : Editor) (t : Terminal) (prompt : String)
    (highlighter : Option Highlighter) (g : Glass) (saves : t.faults.save = none)
    (sets : t.faults.set = none) (wide : 1 ≤ t.columns) (fixed : ∀ n, .width n ∉ t.events)
    (fresh : g.Fresh t.columns) (tame : Prompt.Tame prompt.toList)
    (further : Prompt.Tame e.continuation.toList)
    (visible : ∀ f ∈ e.renderings t prompt highlighter,
      ∀ c ∈ f.reading.editor.line.chars, isVisible c = true) :
    (∀ f ∈ e.renderings t prompt highlighter, f.Faithful g t.columns prompt highlighter) ∧
      ∀ bytes, (∃ f ∈ e.renderings t prompt highlighter, f.reading.display.written = bytes) ↔
        ∃ k, e.Waits { t with events := t.events.take k } prompt highlighter ∧
          e.output { t with events := t.events.take k } prompt highlighter = bytes := by
  constructor
  · exact (prepared_opening fresh tame).renderings wide tame further fixed visible
  · exact exists_rendering_iff saves sets

/- A drawing wipes the rows of the drawing before it, and those it opens itself, but not a row that
the terminal wraps into. With an X left in the second row the entry that Up shows, drawn over two
rows, is followed by the X. -/
theorem renderings_stale :
    let e := Editor.new (History.ofText 0 "abc") {}
    let t : Terminal :=
      { columns := 4, events := [.key .up], display := ⟨.empty, none⟩, mode := 0, faults := {},
        calls := [], atEnd := .endOfInput "" }
    let g : Glass := ⟨4, fun r c => if r = 1 ∧ c = 3 then some 'X' else none, 0, 0, false, .ground⟩
    (t.faults.save = none ∧ t.faults.set = none ∧ 1 ≤ t.columns ∧ (∀ n, .width n ∉ t.events) ∧
      g.phase = .ground ∧ g.width = t.columns ∧ Prompt.Tame "$ ".toList ∧
      Prompt.Tame e.continuation.toList ∧
      ∀ f ∈ e.renderings t "$ " none, ∀ c ∈ f.reading.editor.line.chars, isVisible c = true) ∧
    ∃ f ∈ e.renderings t "$ " none, f.reading.shownText "$ " = "$ abc".toList ∧
      (g.after f.reading.display.written).cells 1 0 = some 'c' ∧
      (g.after f.reading.display.written).cells 1 3 = some 'X' ∧
      ¬ f.Faithful g t.columns "$ " none := by
  intro e t g
  have tame : Prompt.Tame "$ ".toList := .char (.inl rfl) (.char (.inl rfl) .nil)
  have further : Prompt.Tame e.continuation.toList := by
    have text : e.continuation.toList = ['>', ' '] := by decide
    rw [text]
    exact .char (.inl rfl) (.char (.inl rfl) .nil)
  have visible : ∀ f ∈ e.renderings t "$ " none,
      ∀ c ∈ f.reading.editor.line.chars, isVisible c = true := by
    have shown : ((e.renderings t "$ " none).all fun f =>
        f.reading.editor.line.chars.all isVisible) = true := by decide +kernel
    intro f member
    exact List.all_eq_true.mp (List.all_eq_true.mp shown f member)
  refine ⟨⟨rfl, rfl, by decide, by simp [t], rfl, rfl, tame, further, visible⟩, ?_⟩
  let picture (f : Rendering) : Nat × List Char × Option Char × Option Char :=
    ((g.after f.opened).row, f.reading.shownText "$ ",
      (g.after f.reading.display.written).cells 1 0, (g.after f.reading.display.written).cells 1 3)
  have pictures : (e.renderings t "$ " none).map picture =
      [(0, "$ ".toList, none, some 'X'), (0, "$ abc".toList, some 'c', some 'X')] := by
    decide +kernel
  have last : (0, "$ abc".toList, some 'c', some 'X') ∈ (e.renderings t "$ " none).map picture := by
    rw [pictures]
    decide
  obtain ⟨f, member, same⟩ := List.mem_map.mp last
  simp only [picture, Prod.mk.injEq] at same
  obtain ⟨top, text, first, stale⟩ := same
  refine ⟨f, member, text, first, stale, ?_⟩
  intro faithful
  -- The eighth place of the two rows is behind the text.
  have blank := faithful.shows.cells 1 3 (by decide)
  rw [top, stale, text, if_neg (by decide)] at blank
  exact absurd blank (by decide)

/- An open quote in a window of four columns: the text fills its first row, the empty row behind it
holds the cursor, and the problem stands in the third. When a character is taken back the problem
moves up and the third row is blank again. -/
theorem renderings_faithful_quote :
    let colours : Option Highlighter := some ⟨⟨fun _ => false, fun _ => false, fun _ => false⟩, none⟩
    let e := Editor.new (History.ofText 0 "") {}
    let prompt := "\x01\x1b[32m\x02$\x01\x1b[0m\x02 "
    let t : Terminal :=
      { columns := 4, events := [.key (.char 39), .key (.char 97), .key .backspace, .key .left],
        display := ⟨.empty, none⟩, mode := 0, faults := {}, calls := [], atEnd := .endOfInput "" }
    let g : Glass := ⟨4, fun _ _ => none, 0, 0, false, .ground⟩
    (∃ f ∈ e.renderings t prompt colours,
      (g.after f.reading.display.written).Shows 4 0 "$ 'a".toList "Err".toList 4) ∧
    ∃ f ∈ e.renderings t prompt colours,
      (g.after f.reading.display.written).Shows 4 0 "$ '".toList "Err".toList 2 := by
  intro colours e prompt t g
  have green : Coloured Ansi.green.toList [] := coloured_control ['3', '2'] (List.all_eq_true.mp rfl)
  have tame : Prompt.Tame prompt.toList := by
    have text : prompt.toList = Prompt.hideMark :: (Ansi.green.toList ++ Prompt.showMark :: '$' ::
        Prompt.hideMark :: (Ansi.reset.toList ++ Prompt.showMark :: [' '])) := by decide
    rw [text]
    exact .region green (.char (.inl rfl) (.region coloured_reset (.char (.inl rfl) .nil)))
  have further : Prompt.Tame e.continuation.toList := by
    have text : e.continuation.toList = ['>', ' '] := by decide
    rw [text]
    exact .char (.inl rfl) (.char (.inl rfl) .nil)
  have fixed : ∀ n, .width n ∉ t.events := by
    intro n
    simp [t]
  have fresh : g.Fresh t.columns := ⟨rfl, rfl, fun _ _ _ _ => rfl⟩
  have visible : ∀ f ∈ e.renderings t prompt colours,
      ∀ c ∈ f.reading.editor.line.chars, isVisible c = true := by
    have shown : ((e.renderings t prompt colours).all fun f =>
        f.reading.editor.line.chars.all isVisible) = true := by decide +kernel
    intro f member
    exact List.all_eq_true.mp (List.all_eq_true.mp shown f member)
  have faithful := (renderings_faithful e t prompt colours g rfl rfl (by decide) fixed fresh tame
    further visible).1
  let picture (f : Rendering) : Nat × List Char × List Char × Nat :=
    ((g.after f.opened).row, f.reading.shownText prompt,
      Screen.note 4 (f.reading.editor.decorate colours).2, f.reading.shownOffset prompt)
  have pictures : (e.renderings t prompt colours).map picture =
      [(0, "$ ".toList, [], 2), (0, "$ '".toList, "Err".toList, 3),
        (0, "$ 'a".toList, "Err".toList, 4), (0, "$ '".toList, "Err".toList, 3),
        (0, "$ '".toList, "Err".toList, 2)] := by decide +kernel
  have drawn : ∀ {text note : List Char} {offset : Nat},
      (0, text, note, offset) ∈ (e.renderings t prompt colours).map picture →
      ∃ f ∈ e.renderings t prompt colours,
        (g.after f.reading.display.written).Shows 4 0 text note offset := by
    intro text note offset there
    obtain ⟨f, member, same⟩ := List.mem_map.mp there
    have shows := (faithful f member).shows
    simp only [picture, Prod.mk.injEq] at same
    obtain ⟨row, rfl, rfl, rfl⟩ := same
    rw [row] at shows
    exact ⟨f, member, shows⟩
  rw [pictures] at drawn
  exact ⟨drawn (by decide), drawn (by decide)⟩

end Editor

end LineShell
