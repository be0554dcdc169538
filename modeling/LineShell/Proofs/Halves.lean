import LineShell.Proofs.BrokenOff
import Mathlib.Data.List.DropRight

/-!
A line as the two texts around its cursor. Typing adds to the left one and erasing takes from it; a
move carries characters over and leaves the whole as it is. A line that is edited by places comes to
the same as these halves.
-/

namespace LineShell

/-- The texts left and right of a cursor, both in reading order. -/
structure Halves where
  left : List Char
  right : List Char
  deriving DecidableEq, Repr

def Edit.isMove : Edit → Bool
  | .left | .right | .wordLeft | .wordRight => true
  | .set _ | .insert _ | .erase => false

namespace Halves

def empty : Halves := ⟨[], []⟩

def text (h : Halves) : List Char :=
  h.left ++ h.right

def stepLeft (h : Halves) : Halves :=
  ⟨h.left.dropLast, h.left.getLast?.toList ++ h.right⟩

def stepRight (h : Halves) : Halves :=
  ⟨h.left ++ h.right.head?.toList, h.right.tail⟩

/-- Carries the last characters on the left over, as long as they satisfy a test. -/
def skipLeft (p : Char → Bool) (h : Halves) : Halves :=
  ⟨h.left.rdropWhile p, h.left.rtakeWhile p ++ h.right⟩

/-- Carries the first characters on the right over, as long as they satisfy a test. -/
def skipRight (p : Char → Bool) (h : Halves) : Halves :=
  ⟨h.left ++ h.right.takeWhile p, h.right.dropWhile p⟩

def wordLeft (h : Halves) : Halves :=
  let moved := (h.skipLeft Text.isSpace).skipLeft EditLine.isWordChar
  if moved = h then h.stepLeft else moved

def wordRight (h : Halves) : Halves :=
  let moved := (h.skipRight Text.isSpace).skipRight EditLine.isWordChar
  if moved = h then h.stepRight else moved

def edit (h : Halves) : Edit → Halves
  | .set text => ⟨text.toList, []⟩
  | .insert c => { h with left := h.left ++ [c] }
  | .erase => { h with left := h.left.dropLast }
  | .left => h.stepLeft
  | .right => h.stepRight
  | .wordLeft => h.wordLeft
  | .wordRight => h.wordRight

variable (h : Halves)

theorem text_stepLeft : h.stepLeft.text = h.text := by
  have whole : h.left.dropLast ++ h.left.getLast?.toList = h.left := by
    cases last : h.left.getLast? with
    | none => simp [List.getLast?_eq_none_iff.mp last]
    | some c => exact List.dropLast_append_getLast? c last
  rw [text, stepLeft, ← List.append_assoc, whole, text]

theorem text_stepRight : h.stepRight.text = h.text := by
  have whole : h.right.head?.toList ++ h.right.tail = h.right := by
    cases h.right <;> rfl
  rw [text, stepRight, List.append_assoc, whole, text]

theorem text_skipLeft (p : Char → Bool) : (h.skipLeft p).text = h.text := by
  rw [text, skipLeft, ← List.append_assoc, List.rdropWhile_append_rtakeWhile, text]

theorem text_skipRight (p : Char → Bool) : (h.skipRight p).text = h.text := by
  rw [text, skipRight, List.append_assoc, List.takeWhile_append_dropWhile, text]

/-- A move leaves the whole text as it is. -/
theorem text_edit {move : Edit} (moves : move.isMove = true) : (h.edit move).text = h.text := by
  cases move with
  | left => exact h.text_stepLeft
  | right => exact h.text_stepRight
  | wordLeft =>
    rw [edit, wordLeft]
    split
    · exact h.text_stepLeft
    · rw [text_skipLeft, text_skipLeft]
  | wordRight =>
    rw [edit, wordRight]
    split
    · exact h.text_stepRight
    · rw [text_skipRight, text_skipRight]
  | set | insert | erase => cases moves

/-- The line with the cursor between the halves. -/
def line : EditLine :=
  ⟨h.left ++ h.right, h.left.length⟩

theorem line_eq_around : h.line = .around h.left.reverse h.right := by
  simp [line, EditLine.around]

/- A cursor that has not moved has the same halves around it. -/
theorem eq_iff_of_text {h h' : Halves} (same : h.text = h'.text) :
    h = h' ↔ h.right.length = h'.right.length := by
  constructor
  · rintro rfl
    rfl
  · intro length
    obtain ⟨left, right⟩ := List.append_inj' same length
    cases h
    cases h'
    exact congrArg₂ mk left right

theorem carry_right (p : Char → Bool) :
    Sheet.carry p h.left.reverse h.right =
      ((h.skipRight p).left.reverse, (h.skipRight p).right) := by
  rw [Sheet.carry_eq, skipRight, List.reverse_append]

theorem carry_left (p : Char → Bool) :
    Sheet.carry p h.right h.left.reverse =
      ((h.skipLeft p).right, (h.skipLeft p).left.reverse) := by
  rw [Sheet.carry_eq, skipLeft, List.rdropWhile, List.reverse_reverse]
  rfl

theorem step_right :
    Sheet.step h.left.reverse h.right = (h.stepRight.left.reverse, h.stepRight.right) := by
  cases right : h.right <;> simp [Sheet.step, stepRight, right]

theorem step_left :
    Sheet.step h.right h.left.reverse = (h.stepLeft.right, h.stepLeft.left.reverse) := by
  rw [Sheet.step_eq, stepLeft, List.take_one, List.head?_reverse, List.drop_one,
    List.tail_reverse]
  cases h.left.getLast? <;> rfl

theorem hop_right :
    Sheet.hop h.left.reverse h.right = (h.wordRight.left.reverse, h.wordRight.right) := by
  obtain ⟨moved, same⟩ :
      ∃ moved, moved = (h.skipRight Text.isSpace).skipRight EditLine.isWordChar := ⟨_, rfl⟩
  have whole : moved.text = h.text := by rw [same, text_skipRight, text_skipRight]
  simp only [Sheet.hop, carry_right, wordRight, ← same, eq_iff_of_text whole]
  split
  · exact h.step_right
  · rfl

theorem hop_left :
    Sheet.hop h.right h.left.reverse = (h.wordLeft.right, h.wordLeft.left.reverse) := by
  obtain ⟨moved, same⟩ :
      ∃ moved, moved = (h.skipLeft Text.isSpace).skipLeft EditLine.isWordChar := ⟨_, rfl⟩
  have whole : moved.text = h.text := by rw [same, text_skipLeft, text_skipLeft]
  have lengths := congrArg List.length whole
  rw [text, text, List.length_append, List.length_append] at lengths
  have still : moved = h ↔ moved.left.reverse.length = h.left.reverse.length := by
    rw [eq_iff_of_text whole, List.length_reverse, List.length_reverse]
    omega
  simp only [Sheet.hop, carry_left, wordLeft, ← same, still]
  split
  · exact h.step_left
  · rfl

/-- The step: an edit of the line is the edit of its halves. -/
theorem line_edit (change : Edit) : h.line.edit change = (h.edit change).line := by
  rw [line_eq_around, line_eq_around]
  cases change with
  | set text =>
    rw [EditLine.edit, EditLine.ofText_eq_around]
    rfl
  | insert c =>
    rw [EditLine.edit, EditLine.insert_around, edit, List.reverse_concat]
  | erase =>
    rw [EditLine.edit, EditLine.erase_around, edit, List.tail_reverse]
  | left => rw [EditLine.edit, EditLine.moveLeft_around, step_left, edit]
  | right => rw [EditLine.edit, EditLine.moveRight_around, step_right, edit]
  | wordLeft => rw [EditLine.edit, EditLine.moveWordLeft_around, hop_left, edit]
  | wordRight => rw [EditLine.edit, EditLine.moveWordRight_around, hop_right, edit]

/-- The run: a line and its halves stay in step. -/
theorem line_edits (edits : List Edit) :
    edits.foldl EditLine.edit h.line = (edits.foldl edit h).line := by
  induction edits generalizing h with
  | nil => rfl
  | cons change rest ih =>
    rw [List.foldl_cons, List.foldl_cons, line_edit]
    exact ih (h.edit change)

theorem inside_line : h.line.Inside := by
  rw [line_eq_around]
  exact EditLine.inside_around _ _

theorem erase_insert (c : Char) : (h.edit (.insert c)).edit .erase = h := by
  rw [edit, edit, List.dropLast_concat]

end Halves

/-- Edits to a new line are always in range and come to the text and the place of the cursor that
the halves have. -/
theorem edits_halves (history : History) (features : Features) (edits : List Edit) :
    let line := edits.foldl EditLine.edit (Editor.new history features).line
    let halves := edits.foldl Halves.edit .empty
    edits.foldlM Strict.edit (Editor.new history features).line = some line ∧
      line.text = String.ofList (halves.left ++ halves.right) ∧
      line.cursor = halves.left.length ∧
      line.cursor ≤ line.length ∧
      (∀ c, (line.edit (.insert c)).edit .erase = line) ∧
      ∀ move : Edit, move.isMove = true →
        (halves.edit move).left ++ (halves.edit move).right = halves.left ++ halves.right := by
  intro line halves
  have same : line = halves.line := Halves.line_edits .empty edits
  refine ⟨?_, ?_, ?_, ?_, ?_, ?_⟩
  · exact (Strict.edits_iff _).mpr Halves.empty.inside_line edits
  · rw [same]
    rfl
  · rw [same]
    rfl
  · rw [same]
    exact halves.inside_line
  · intro c
    rw [same, Halves.line_edit, Halves.line_edit, Halves.erase_insert]
  · intro move moves
    exact halves.text_edit moves

/- A letter of two bytes is one character, and a word move over it is one step. -/
theorem edits_halves_word :
    let edits : List Edit := [.set "a é", .wordLeft, .insert '-', .right, .wordLeft, .erase]
    let line := edits.foldl EditLine.edit (Editor.new (History.empty 0) {}).line
    let halves := edits.foldl Halves.edit .empty
    halves = ⟨"a ".toList, "é".toList⟩ ∧ line = ⟨"a é".toList, 2⟩ ∧ Edit.isMove .wordLeft = true ∧
      halves.edit .wordLeft = ⟨[], "a é".toList⟩ ∧
      (halves.edit .wordLeft).left ++ (halves.edit .wordLeft).right =
        halves.left ++ halves.right := by
  intro edits line halves
  obtain ⟨-, -, -, -, -, moves⟩ := edits_halves (History.empty 0) {} edits
  refine ⟨by decide +kernel, by decide +kernel, rfl, by decide +kernel, ?_⟩
  exact moves .wordLeft rfl

end LineShell
