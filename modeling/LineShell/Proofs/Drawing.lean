import LineShell.Editor.Screen
import LineShell.Proofs.Glass

/-!
Drawing on a screen. Each part of a drawing takes the screen from one known state to the next: the
old rows are wiped, the text is written, the row behind a full row is opened, the note is written
under the text, and the cursor goes to its place.
-/

namespace LineShell

open Ansi Screen
open Text (isVisible Legible)

namespace Glass

variable {g : Glass} {w top : Nat} {text note : List Char}

/-- The rows from `top` on hold a text, wrapped at the width, a note in the row under it, and nothing
else. The cursor is in the given line of them. -/
structure Page (g : Glass) (w top : Nat) (text note : List Char) (line : Nat) : Prop where
  ground : g.phase = .ground
  width : g.width = w
  still : g.wrapping = false
  row : g.row = top + line
  cells : ∀ r c, c < w → g.cells (top + r) c =
    if r = text.length / w + 1 then note[c]? else text[r * w + c]?

/-- A page with the cursor in front of the character at an offset. -/
structure Shows (g : Glass) (w top : Nat) (text note : List Char) (offset : Nat) : Prop extends
    Page g w top text note (offset / w) where
  column : g.column = offset % w

/-- No row under the cursor holds anything. -/
structure Fresh (g : Glass) (w : Nat) : Prop where
  ground : g.phase = .ground
  width : g.width = w
  below : ∀ r c, g.row < r → c < w → g.cells r c = none

/-- The cursor is at the start of the first of many blank rows. -/
structure Clear (g : Glass) (w top : Nat) : Prop where
  ground : g.phase = .ground
  width : g.width = w
  still : g.wrapping = false
  row : g.row = top
  column : g.column = 0
  cells : ∀ r c, top ≤ r → c < w → g.cells r c = none

theorem getElem?_beyond (wide : 0 < w) {r : Nat} (beyond : text.length / w < r) (c : Nat) :
    text[r * w + c]? = none := by
  have far : text.length < r * w := (Nat.div_lt_iff_lt_mul wide).mp beyond
  exact List.getElem?_eq_none (by omega)

theorem Page.blank {line : Nat} (h : g.Page w top text note line) (wide : 0 < w) {r c : Nat}
    (under : text.length / w < r) (free : r = text.length / w + 1 → note = []) (inside : c < w) :
    g.cells (top + r) c = none := by
  rw [h.cells r c inside]
  split
  · rename_i here
    rw [free here, List.getElem?_nil]
  · exact getElem?_beyond wide under c

end Glass

/-- What is remembered of a drawing whose prompt has `p` characters. -/
structure Drawn.Recalls (d : Drawn) (p : Nat) (text note : List Char) (offset : Nat) : Prop where
  length : p + d.length = text.length
  cursor : p + d.cursor = offset
  inside : offset ≤ text.length
  problem : d.problemRow = false → note = []

namespace Layout

variable {w : Nat}

theorem rowsUsed_eq (wide : 0 < w) (n : Nat) : rowsUsed n w = n / w + 1 := by
  rw [rowsUsed, Nat.max_eq_left wide]

theorem row_eq (wide : 0 < w) (offset : Nat) : row offset w = offset / w := by
  rw [row, Nat.max_eq_left wide]

theorem column_eq (wide : 0 < w) (offset : Nat) : column offset w = offset % w := by
  rw [column, Nat.max_eq_left wide]

end Layout

namespace Glass

variable {g : Glass} {w top : Nat} {text note : List Char}

section Wiping

/-- The cursor goes down `n` rows, which are wiped. -/
def clearDown (g : Glass) (n : Nat) : Glass :=
  { g with
    row := g.row + n
    cells := fun r c => if g.row < r ∧ r ≤ g.row + n then none else g.cells r c }

theorem feed_clearDown (ground : g.phase = .ground) (still : g.wrapping = false) (n : Nat) :
    g.feed (String.join (List.replicate n (cursorDown 1 ++ clearLine))).toList =
      g.clearDown n := by
  induction n generalizing g with
  | zero =>
    have same : (fun r c => if g.row < r ∧ r ≤ g.row + 0 then none else g.cells r c) = g.cells := by
      funext r c
      exact if_neg (by omega)
    rw [clearDown, same]
    rfl
  | succ n ih =>
    let next := (g.moveTo (g.row + 1) g.column).clearRow
    have first : g.feed (cursorDown 1 ++ clearLine).toList = next := by
      rw [String.toList_append, feed_append, feed_cursorDown ground still]
      exact feed_clearLine ground
    rw [List.replicate_succ, String.join_cons, String.toList_append, feed_append, first,
      ih (g := next) ground rfl]
    simp only [clearDown, next, clearRow, moveTo, still]
    congr 1
    · funext r c
      have rows : g.row < r ∧ r ≤ g.row + (n + 1) ↔
          (g.row + 1 < r ∧ r ≤ g.row + 1 + n) ∨ r = g.row + 1 := by omega
      grind
    · omega

theorem Fresh.clear (h : g.Fresh w) (row : g.row = top) :
    (g.feed ("\r" ++ clearLine).toList).Clear w top := by
  have wiped : g.feed ("\r" ++ clearLine).toList = (g.moveTo g.row 0).clearRow := by
    rw [String.toList_append, feed_append, feed_return h.ground]
    exact feed_clearLine h.ground
  rw [wiped]
  constructor
  · exact h.ground
  · exact h.width
  · rfl
  · exact row
  · rfl
  · intro r c under inside
    by_cases here : r = g.row
    · exact if_pos here
    · have old := h.below r c (by omega) inside
      exact (if_neg here).trans old

/- A page is wiped row by row, from its first to its last. -/
theorem Shows.clear_wipe {d : Drawn} {p offset : Nat} (h : g.Shows w top text note offset)
    (kept : d.Recalls p text note offset) (wide : 0 < w) :
    (g.feed (wipe p w (some d)).toList).Clear w top := by
  let first := (g.moveTo top 0).clearRow
  have up : g.feed (cursorUp (offset / w)).toList = g.moveTo top g.column := by
    rw [feed_cursorUp h.ground h.still, h.row, Nat.add_sub_cancel]
  have home : (g.moveTo top g.column).feed "\r".toList = g.moveTo top 0 := feed_return h.ground
  have wiped : (g.moveTo top 0).feed clearLine.toList = first := feed_clearLine h.ground
  simp only [wipe, kept.length, kept.cursor, Layout.rowsUsed_eq wide, Layout.row_eq wide,
    String.toList_append, feed_append, up, home, wiped]
  generalize count : text.length / w + 1 + (if d.problemRow then 1 else 0) - 1 = more
  rw [feed_clearDown (g := first) h.ground rfl,
    feed_cursorUp (g := first.clearDown more) h.ground rfl]
  constructor
  · exact h.ground
  · exact h.width
  · rfl
  · exact Nat.add_sub_cancel top more
  · rfl
  · intro r c under inside
    obtain ⟨k, rfl⟩ := Nat.exists_eq_add_of_le under
    by_cases rows : top < top + k ∧ top + k ≤ top + more
    · exact if_pos rows
    refine (if_neg rows).trans ?_
    by_cases start : top + k = top
    · exact if_pos start
    refine (if_neg start).trans ?_
    -- Under the last of these rows there was nothing before.
    have under : text.length / w < k := by
      split at count <;> omega
    apply h.blank wide under ?_ inside
    intro here
    apply kept.problem
    rw [← Bool.not_eq_true]
    intro problem
    rw [if_pos problem] at count
    omega

end Wiping

section Writing

theorem Clear.wrote_nil (h : g.Clear w top) : g.Wrote g top [] := by
  constructor
  · exact h.ground
  · rfl
  · intros
    rfl
  · intro r c inside
    rw [List.getElem?_nil]
    exact h.cells _ c (Nat.le_add_right top r) (h.width ▸ inside)
  · simp [h.still]
  · simp [h.still, h.row]
  · simp [h.column]

theorem Clear.wrote (h : g.Clear w top) (wide : 0 < w) {inked : List Char}
    (coloured : Coloured inked text) (visible : ∀ c ∈ text, isVisible c = true) :
    (g.feed inked).Wrote g top text := by
  have width : 0 < g.width := by
    rw [h.width]
    exact wide
  rw [feed_coloured h.ground coloured fun c member => ne_escape (visible c member)]
  exact h.wrote_nil.feed width visible

/- A text that ends in a full row gets an empty row behind it. -/
theorem Wrote.page_openRow {before : Glass} (h : g.Wrote before top text) (width : before.width = w)
    (wide : 0 < w) :
    (g.feed (openRow text.length w).toList).Page w top text [] (text.length / w) := by
  subst width
  have cells : ∀ r c, c < before.width → g.cells (top + r) c =
      if r = text.length / before.width + 1 then ([] : List Char)[c]?
      else text[r * before.width + c]? := by
    intro r c inside
    rw [h.cells r c inside]
    split
    · rename_i here
      rw [getElem?_beyond wide (by omega), List.getElem?_nil]
    · rfl
  have waits := h.waits
  have row := h.row
  rw [openRow, Nat.max_eq_left wide]
  split
  · rename_i full
    rw [if_pos (waits.mpr full)] at row
    rw [feed_freshRow h.ground]
    refine ⟨h.ground, h.width, rfl, row, ?_⟩
    intro r c inside
    rw [← cells r c inside]
    by_cases here : top + r = g.row + 1
    · have last : r = text.length / before.width := by omega
      have length : r * before.width = text.length := by
        rw [last]
        exact Nat.div_mul_cancel (Nat.dvd_of_mod_eq_zero full.2)
      rw [h.cells r c inside, length, List.getElem?_eq_none (Nat.le_add_right _ c)]
      exact if_pos here
    · exact if_neg here
  · rename_i inner
    have still : g.wrapping = false := Bool.eq_false_iff.mpr fun full => inner (waits.mp full)
    rw [still] at row
    exact ⟨h.ground, h.width, still, row, cells⟩

end Writing

end Glass

/-- What the row under the text says, cut to fit. -/
def Screen.note (w : Nat) : Option String → List Char
  | none => []
  | some message => ("Error: " ++ message).toList.take (w - 1)

namespace Glass

variable {g : Glass} {w top : Nat} {text note : List Char}

section Finishing

theorem Page.move {line : Nat} (h : g.Page w top text note line) (next column : Nat) :
    (g.moveTo (top + next) column).Page w top text note next :=
  ⟨h.ground, h.width, rfl, rfl, h.cells⟩

theorem Page.clear_under (h : g.Page w top text [] (text.length / w)) (wide : 0 < w) :
    (g.moveTo (g.row + 1) 0).clearRow.Clear w (top + (text.length / w + 1)) := by
  constructor
  · exact h.ground
  · exact h.width
  · rfl
  · exact congrArg (· + 1) h.row
  · rfl
  · intro r c under inside
    obtain ⟨k, rfl⟩ := Nat.exists_eq_add_of_le under
    by_cases here : top + (text.length / w + 1) + k = g.row + 1
    · exact if_pos here
    refine (if_neg here).trans ?_
    rw [Nat.add_assoc]
    exact h.blank wide (by omega) (fun _ => rfl) inside

/- A note is shorter than a row, so the cursor stays in it. -/
theorem Page.page_note (h : g.Page w top text [] (text.length / w)) (wide : 0 < w) {g' : Glass}
    (wrote : g'.Wrote (g.moveTo (g.row + 1) 0).clearRow (top + (text.length / w + 1)) note)
    (short : note.length < w) : g'.Page w top text note (text.length / w + 1) := by
  have width : (g.moveTo (g.row + 1) 0).clearRow.width = w := h.width
  have bottom := h.row
  have waits := wrote.waits
  have row := wrote.row
  have cells := wrote.cells
  rw [width, Nat.mod_eq_of_lt short] at waits
  rw [width, Nat.div_eq_of_lt short] at row
  rw [width] at cells
  have still : g'.wrapping = false := Bool.eq_false_iff.mpr fun full => by
    have := waits.mp full
    omega
  rw [still] at row
  refine ⟨wrote.ground, wrote.width.trans width, still, row, ?_⟩
  intro r c inside
  by_cases higher : r ≤ text.length / w
  · have inner : r ≠ text.length / w + 1 := by omega
    have other : ¬ top + r = g.row + 1 := by omega
    have old := h.cells r c inside
    rw [if_neg inner] at old ⊢
    rw [wrote.above _ c (by omega)]
    exact (if_neg other).trans old
  · obtain ⟨k, rfl⟩ := Nat.exists_eq_add_of_le (Nat.lt_of_not_le higher)
    have here := cells k c inside
    rw [Nat.add_assoc] at here
    rw [here]
    cases k with
    | zero =>
      rw [if_pos rfl]
      simp
    | succ k =>
      have later : text.length / w < text.length / w + 1 + (k + 1) := by omega
      have beyond : note.length / w < k + 1 := by
        rw [Nat.div_eq_of_lt short]
        omega
      rw [if_neg (by omega), getElem?_beyond wide later, getElem?_beyond wide beyond]

theorem Page.page_problemRow (h : g.Page w top text [] (text.length / w)) (wide : 0 < w)
    {problem : Option String} (legible : ∀ message ∈ problem, Legible message) :
    (g.feed (problemRow w problem).toList).Page w top text (Screen.note w problem)
      (text.length / w + if problem.isSome then 1 else 0) := by
  cases problem with
  | none => exact h
  | some message =>
    have short : (Screen.note w (some message)).length < w := by
      have := List.length_take_le (w - 1) ("Error: " ++ message).toList
      simp only [Screen.note]
      omega
    have shown : ∀ c ∈ Screen.note w (some message), isVisible c = true := by
      have whole : Legible ("Error: " ++ message) :=
        Legible.append (by decide) (legible message rfl)
      exact fun c member => whole c (List.mem_of_mem_take member)
    have colour : Coloured grey.toList [] := coloured_control ['9', '0'] (List.all_eq_true.mp rfl)
    have coloured := (colour.before (.plain (Screen.note w (some message)))).behind coloured_reset
    have wrote := (h.clear_under wide).wrote wide coloured shown
    have page := h.page_note wide wrote short
    rw [← feed_freshRow h.ground, ← feed_append] at page
    simpa only [problemRow, Screen.note, String.toList_append, String.toList_ofList,
      List.append_assoc, Option.isSome_some, if_true] using page

theorem Page.shows_placeCursor {bottom offset : Nat} (h : g.Page w top text note bottom)
    (wide : 0 < w) (higher : offset / w ≤ bottom) :
    (g.feed (placeCursor bottom offset w).toList).Shows w top text note offset := by
  let there := g.moveTo (top + offset / w) 0
  have up : g.feed (cursorUp (bottom - offset / w)).toList =
      g.moveTo (top + offset / w) g.column := by
    have row : g.row - (bottom - offset / w) = top + offset / w := by
      rw [h.row]
      generalize offset / w = line at higher
      omega
    rw [feed_cursorUp h.ground h.still, row]
  have home : (g.moveTo (top + offset / w) g.column).feed "\r".toList = there :=
    feed_return h.ground
  have fits : there.column + offset % w < there.width := by
    have := Nat.mod_lt offset wide
    have width : there.width = w := h.width
    change 0 + offset % w < there.width
    omega
  have right := feed_cursorRight (g := there) h.ground rfl fits
  simp only [placeCursor, Layout.row_eq wide, Layout.column_eq wide, String.toList_append,
    feed_append, up, home, right]
  exact ⟨h.move _ _, Nat.zero_add _⟩

theorem Page.page_eraseNote (h : g.Page w top text note (text.length / w)) :
    (g.feed (cursorDown 1 ++ "\r" ++ clearLine ++ cursorUp 1).toList).Page w top text []
      (text.length / w) := by
  let under := g.moveTo (g.row + 1) 0
  have down : g.feed (cursorDown 1).toList = g.moveTo (g.row + 1) g.column :=
    feed_cursorDown h.ground h.still 1
  have home : (g.moveTo (g.row + 1) g.column).feed "\r".toList = under := feed_return h.ground
  have wiped : under.feed clearLine.toList = under.clearRow := feed_clearLine h.ground
  have up : under.clearRow.feed (cursorUp 1).toList = under.clearRow.moveTo g.row 0 :=
    feed_cursorUp (g := under.clearRow) h.ground rfl 1
  simp only [String.toList_append, feed_append, down, home, wiped, up]
  refine ⟨h.ground, h.width, rfl, h.row, ?_⟩
  intro r c inside
  have old := h.cells r c inside
  have place : top + r = g.row + 1 ↔ r = text.length / w + 1 := by
    rw [h.row]
    omega
  split
  · rename_i here
    exact if_pos (place.mpr here)
  · rename_i other
    rw [if_neg other] at old
    exact (if_neg fun here => other (place.mp here)).trans old

theorem Page.fresh (h : g.Page w top text [] (text.length / w + 1)) (wide : 0 < w) : g.Fresh w := by
  refine ⟨h.ground, h.width, ?_⟩
  intro r c under inside
  rw [h.row] at under
  have start : top ≤ r := Nat.le_trans (Nat.le_add_right top _) (Nat.le_of_lt under)
  obtain ⟨k, rfl⟩ := Nat.exists_eq_add_of_le start
  exact h.blank wide (by omega) (fun _ => rfl) inside

/- Leaving a page takes the note away. -/
theorem Shows.page_leave {d : Drawn} {p offset : Nat} (h : g.Shows w top text note offset)
    (kept : d.Recalls p text note offset) (wide : 0 < w) :
    (g.feed (leave p w (some d)).toList).Page w top text [] (text.length / w + 1) ∧
      (g.feed (leave p w (some d)).toList).column = 0 := by
  have higher : offset / w ≤ text.length / w := Nat.div_le_div_right kept.inside
  have down : g.feed (cursorDown (text.length / w - offset / w)).toList =
      g.moveTo (top + text.length / w) g.column := by
    rw [feed_cursorDown h.ground h.still, h.row, Nat.add_assoc, Nat.add_sub_cancel' higher]
  have page := h.move (text.length / w) g.column
  simp only [leave, kept.length, kept.cursor, Layout.rowsUsed_eq wide, Layout.row_eq wide,
    Nat.add_sub_cancel, String.toList_append, feed_append, down]
  generalize g.moveTo (top + text.length / w) g.column = bottom at page
  have erased : (bottom.feed (if d.problemRow then cursorDown 1 ++ "\r" ++ clearLine ++ cursorUp 1
      else "").toList).Page w top text [] (text.length / w) := by
    split
    · exact page.page_eraseNote
    · rename_i free
      rw [kept.problem (Bool.eq_false_iff.mpr free)] at page
      exact page
  rw [feed_newline erased.ground, erased.row]
  exact ⟨erased.move (text.length / w + 1) 0, rfl⟩

end Finishing

/-- What a drawing may start from: the row behind which nothing is, or the drawing before it. -/
inductive Ready (g : Glass) (w top p : Nat) : Option Drawn → Prop where
  | fresh : g.Fresh w → g.row = top → Ready g w top p none
  | again {text note : List Char} {offset : Nat} {d : Drawn} : g.Shows w top text note offset →
      d.Recalls p text note offset → Ready g w top p (some d)

theorem Ready.clear {p : Nat} {previous : Option Drawn} (h : g.Ready w top p previous)
    (wide : 0 < w) : (g.feed (wipe p w previous).toList).Clear w top := by
  cases h with
  | fresh fresh row => exact fresh.clear row
  | again shows kept => exact shows.clear_wipe kept wide

theorem Ready.ground {p : Nat} {previous : Option Drawn} (h : g.Ready w top p previous) :
    g.phase = .ground := by
  cases h with
  | fresh fresh => exact fresh.ground
  | again shows => exact shows.ground

/-- A drawing shows the prompt and the line, whatever was drawn before. -/
theorem Ready.shows_draw {prompt : Prompt.Parts} {previous : Option Drawn}
    (h : g.Ready w top prompt.length previous) (wide : 0 < w) {seen : List Char}
    (prompted : Coloured prompt.last.toList seen) (length : prompt.length = seen.length)
    {shown : String} {line : EditLine} (painted : Coloured shown.toList line.chars)
    (inside : line.cursor ≤ line.length) (visible : ∀ c ∈ seen ++ line.chars, isVisible c = true)
    {problem : Option String} (legible : ∀ message ∈ problem, Legible message) :
    (g.feed (draw prompt w shown line problem previous).toList).Shows w top (seen ++ line.chars)
      (Screen.note w problem) (prompt.length + line.cursor) := by
  have total : prompt.length + line.length = (seen ++ line.chars).length := by
    rw [length, List.length_append]
    rfl
  have clear := h.clear wide
  have inked := (prompted.append painted).behind coloured_reset
  have wrote := clear.wrote wide inked visible
  have page := (wrote.page_openRow clear.width wide).page_problemRow wide legible
  have higher : (prompt.length + line.cursor) / w ≤
      (seen ++ line.chars).length / w + if problem.isSome then 1 else 0 := by
    apply Nat.le_add_right_of_le
    apply Nat.div_le_div_right
    omega
  have placed := page.shows_placeCursor wide higher
  have final := feed_showCursor placed.ground
  simp only [draw, String.toList_append, feed_append, feed_hideCursor h.ground, total,
    Layout.rowsUsed_eq wide, Nat.add_sub_cancel] at final ⊢
  rw [final]
  simpa only [feed_append] using placed

end Glass

end LineShell
