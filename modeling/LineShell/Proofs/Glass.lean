import LineShell.Proofs.Colouring
import LineShell.Proofs.Legible

/-!
The screen of a terminal, with as many rows below as are needed. Characters fill a row from the
left. A full row keeps the cursor in its last column until the next character comes, which opens the
row below. Of the control sequences the cursor moves and the wiping of a row are known, and the
others change nothing that can be seen in a cell.
-/

namespace LineShell

open Text (isVisible)

/-- Where in a control sequence the next character falls. -/
inductive Glass.Phase where
  | ground
  | escape
  | sequence (body : List Char)

/-- A cell is blank or holds a character. `wrapping` is set while the cursor waits behind a full
row. -/
structure Glass where
  width : Nat
  cells : Nat → Nat → Option Char
  row : Nat
  column : Nat
  wrapping : Bool
  phase : Glass.Phase

namespace Glass

def moveTo (g : Glass) (row column : Nat) : Glass :=
  { g with row := row, column := column, wrapping := false }

def clearRow (g : Glass) : Glass :=
  { g with cells := fun r c => if r = g.row then none else g.cells r c }

/-- The number that a cursor move is given; without one it is one. -/
def count (body : List Char) : Nat :=
  max 1 (Nat.ofDigitChars 10 body 0)

def control (g : Glass) (body : List Char) (final : Char) : Glass :=
  match final with
  | 'A' => g.moveTo (g.row - count body) g.column
  | 'B' => g.moveTo (g.row + count body) g.column
  | 'C' => g.moveTo g.row (min (g.column + count body) (g.width - 1))
  | 'K' => if body = ['2'] then g.clearRow else g
  | _ => g

def wrap (g : Glass) : Glass :=
  if g.wrapping then g.moveTo (g.row + 1) 0 else g

def put (g : Glass) (c : Char) : Glass :=
  { g with
    cells := fun r k => if r = g.row ∧ k = g.column then some c else g.cells r k
    column := if g.column + 1 < g.width then g.column + 1 else g.column
    wrapping := ¬ g.column + 1 < g.width }

def step (g : Glass) (c : Char) : Glass :=
  match g.phase with
  | .ground =>
    if c = '\x1b' then { g with phase := .escape }
    else if c = '\r' then g.moveTo g.row 0
    else if c = '\n' then g.moveTo (g.row + 1) g.column
    else if isVisible c then g.wrap.put c
    else g
  | .escape => { g with phase := if c = '[' then .sequence [] else .ground }
  | .sequence body =>
    if Ansi.isFinal c then { g.control body c with phase := .ground }
    else { g with phase := .sequence (body ++ [c]) }

def feed (g : Glass) (text : List Char) : Glass :=
  text.foldl step g

@[simp] theorem feed_nil (g : Glass) : g.feed [] = g := rfl

@[simp] theorem feed_cons (g : Glass) (c : Char) (text : List Char) :
    g.feed (c :: text) = (g.step c).feed text := rfl

theorem feed_append (g : Glass) (text more : List Char) :
    g.feed (text ++ more) = (g.feed text).feed more :=
  List.foldl_append

variable {g : Glass}

theorem control_phase (g : Glass) (phase : Phase) (body : List Char) (final : Char) :
    { g with phase := phase }.control body final =
      { g.control body final with phase := phase } := by
  unfold control
  split
  · rfl
  · rfl
  · rfl
  · split <;> rfl
  · rfl

theorem feed_body (g : Glass) {body : List Char} (inner : ∀ c ∈ body, Ansi.isParameter c = true)
    {final : Char} (ends : Ansi.isFinal final = true) (read : List Char) :
    { g with phase := .sequence read }.feed (body ++ [final]) =
      { g.control (read ++ body) final with phase := .ground } := by
  induction body generalizing read with
  | nil => simp [step, ends, control_phase]
  | cons c body ih =>
    have parameter := Ansi.isFinal_of_isParameter (inner c List.mem_cons_self)
    have next : { g with phase := .sequence read }.step c =
        { g with phase := .sequence (read ++ [c]) } := by
      simp [step, parameter]
    rw [List.cons_append, feed_cons, next,
      ih (fun d member => inner d (List.mem_cons_of_mem c member)), List.append_assoc]
    rfl

theorem feed_control (ground : g.phase = .ground) (body : List Char) (final : Char)
    (inner : ∀ c ∈ body, Ansi.isParameter c = true) (ends : Ansi.isFinal final = true) :
    g.feed ('\x1b' :: '[' :: (body ++ [final])) = g.control body final := by
  have opened : (g.step '\x1b').step '[' = { g with phase := .sequence [] } := by
    simp [step, ground]
  have same : { g.control body final with phase := .ground } = g.control body final := by
    rw [← ground, ← control_phase]
  rw [feed_cons, feed_cons, opened, feed_body g inner ends, List.nil_append, same]

theorem toList_control (body : String) :
    (Ansi.control body).toList = '\x1b' :: '[' :: body.toList := by
  rw [Ansi.control, String.toList_append]
  rfl

section Moves

theorem feed_move (ground : g.phase = .ground) (final : Char) (ends : Ansi.isFinal final = true)
    {n : Nat} (some : n ≠ 0) :
    g.feed (Ansi.move (String.ofList [final]) n).toList =
      g.control (Nat.toDigits 10 n) final := by
  have digits : ∀ c ∈ Nat.toDigits 10 n, Ansi.isParameter c = true := by
    intro c member
    have digit := Nat.isDigit_of_mem_toDigits (by decide) (by decide) member
    simp only [Char.isDigit, Bool.and_eq_true, decide_eq_true_eq] at digit
    have low : '\x30' ≤ c := digit.1
    have high : c ≤ '\x3f' := Char.le_trans digit.2 (by decide)
    simp [Ansi.isParameter, low, high]
  have text : (toString n ++ String.ofList [final]).toList = Nat.toDigits 10 n ++ [final] := by
    simp [toString, Nat.repr]
  rw [Ansi.move, if_neg some, toList_control, text, feed_control ground _ _ digits ends]

theorem count_toDigits {n : Nat} (some : n ≠ 0) : count (Nat.toDigits 10 n) = n := by
  rw [count, Nat.ofDigitChars_ten_toDigits]
  omega

theorem moveTo_self (still : g.wrapping = false) : g.moveTo g.row g.column = g := by
  rw [moveTo, ← still]

theorem feed_cursorUp (ground : g.phase = .ground) (still : g.wrapping = false) (n : Nat) :
    g.feed (Ansi.cursorUp n).toList = g.moveTo (g.row - n) g.column := by
  by_cases none : n = 0
  · rw [none, Nat.sub_zero, moveTo_self still]
    rfl
  · refine (feed_move ground 'A' rfl none).trans ?_
    simp only [control, count_toDigits none]

theorem feed_cursorDown (ground : g.phase = .ground) (still : g.wrapping = false) (n : Nat) :
    g.feed (Ansi.cursorDown n).toList = g.moveTo (g.row + n) g.column := by
  by_cases none : n = 0
  · rw [none, Nat.add_zero, moveTo_self still]
    rfl
  · refine (feed_move ground 'B' rfl none).trans ?_
    simp only [control, count_toDigits none]

theorem feed_cursorRight (ground : g.phase = .ground) (still : g.wrapping = false) {n : Nat}
    (fits : g.column + n < g.width) :
    g.feed (Ansi.cursorRight n).toList = g.moveTo g.row (g.column + n) := by
  by_cases none : n = 0
  · rw [none, Nat.add_zero, moveTo_self still]
    rfl
  · have short : g.column + n ≤ g.width - 1 := by omega
    refine (feed_move ground 'C' rfl none).trans ?_
    simp only [control, count_toDigits none, Nat.min_eq_left short]

theorem feed_return (ground : g.phase = .ground) : g.feed "\r".toList = g.moveTo g.row 0 := by
  simp [step, ground]

theorem feed_newline (ground : g.phase = .ground) :
    g.feed "\r\n".toList = g.moveTo (g.row + 1) 0 := by
  simp [step, ground, moveTo]

theorem feed_clearLine (ground : g.phase = .ground) :
    g.feed Ansi.clearLine.toList = g.clearRow :=
  feed_control ground ['2'] 'K' (List.all_eq_true.mp rfl) rfl

theorem feed_freshRow (ground : g.phase = .ground) :
    g.feed ("\r\n" ++ Ansi.clearLine).toList = (g.moveTo (g.row + 1) 0).clearRow := by
  rw [String.toList_append, feed_append, feed_newline ground]
  exact feed_clearLine ground

end Moves

/- Sequences that show and hide the cursor, and colours, leave the cells and the cursor alone. -/
theorem feed_hideCursor (ground : g.phase = .ground) : g.feed Ansi.hideCursor.toList = g :=
  feed_control ground ['?', '2', '5'] 'l' (List.all_eq_true.mp rfl) rfl

theorem feed_showCursor (ground : g.phase = .ground) : g.feed Ansi.showCursor.toList = g :=
  feed_control ground ['?', '2', '5'] 'h' (List.all_eq_true.mp rfl) rfl

theorem ne_escape {c : Char} (visible : isVisible c = true) : c ≠ '\x1b' := by
  rintro rfl
  cases visible

theorem step_visible (ground : g.phase = .ground) {c : Char} (visible : isVisible c = true) :
    g.step c = g.wrap.put c := by
  have other : c ≠ '\r' ∧ c ≠ '\n' := by
    constructor <;> rintro rfl <;> cases visible
  simp [step, ground, ne_escape visible, other, visible]

/- Only an escape starts a control sequence. -/
theorem step_ground (ground : g.phase = .ground) {c : Char} (plain : c ≠ '\x1b') :
    (g.step c).phase = .ground := by
  simp only [step, ground, if_neg plain]
  split
  · exact ground
  split
  · exact ground
  split
  · unfold wrap
    split <;> exact ground
  · exact ground

/- Colours are not seen. -/
theorem feed_coloured (ground : g.phase = .ground) {text source : List Char}
    (h : Coloured text source) (plain : ∀ c ∈ source, c ≠ '\x1b') :
    g.feed text = g.feed source := by
  induction h generalizing g with
  | nil => rfl
  | @char text source c _ ih =>
    have first := plain c List.mem_cons_self
    exact ih (step_ground ground first) fun d member => plain d (List.mem_cons_of_mem c member)
  | @sequence parameters text source inner _ ih =>
    have split : '\x1b' :: '[' :: (parameters ++ 'm' :: text) =
        ('\x1b' :: '[' :: (parameters ++ ['m'])) ++ text := by simp
    rw [split, feed_append, feed_control ground _ _ inner rfl]
    exact ih ground plain

section Writing

variable {before : Glass} {top : Nat} {text : List Char}

/-- The rows from `top` on hold a text and nothing else, those above are as they were, and the
cursor is where the text goes on. Behind a full row it waits in the row above. -/
structure Wrote (g before : Glass) (top : Nat) (text : List Char) : Prop where
  ground : g.phase = .ground
  width : g.width = before.width
  above : ∀ r c, r < top → g.cells r c = before.cells r c
  cells : ∀ r c, c < before.width → g.cells (top + r) c = text[r * before.width + c]?
  waits : g.wrapping = true ↔ 0 < text.length ∧ text.length % before.width = 0
  row : g.row + (if g.wrapping then 1 else 0) = top + text.length / before.width
  column : g.wrapping = false → g.column = text.length % before.width

theorem next_div_mod {w : Nat} (wide : 0 < w) (k : Nat) :
    (k % w + 1 < w → (k + 1) / w = k / w ∧ (k + 1) % w = k % w + 1) ∧
      (¬ k % w + 1 < w → (k + 1) / w = k / w + 1 ∧ (k + 1) % w = 0) := by
  have below := Nat.mod_lt k wide
  have split : k + 1 = w * (k / w) + (k % w + 1) := by
    have := Nat.div_add_mod k w
    omega
  rw [split, Nat.mul_add_div wide, Nat.mul_add_mod]
  constructor
  · intro inside
    rw [Nat.div_eq_of_lt inside, Nat.mod_eq_of_lt inside]
    exact ⟨rfl, rfl⟩
  · intro full
    have last : k % w + 1 = w := by omega
    rw [last, Nat.div_self wide, Nat.mod_self]
    exact ⟨rfl, rfl⟩

theorem offset_eq_iff {w c : Nat} (inside : c < w) (r k : Nat) :
    r * w + c = k ↔ r = k / w ∧ c = k % w := by
  have wide : 0 < w := Nat.lt_of_le_of_lt (Nat.zero_le c) inside
  constructor
  · rintro rfl
    rw [Nat.mul_comm, Nat.mul_add_div wide, Nat.div_eq_of_lt inside, Nat.mul_add_mod,
      Nat.mod_eq_of_lt inside]
    exact ⟨rfl, rfl⟩
  · rintro ⟨rfl, rfl⟩
    rw [Nat.mul_comm]
    exact Nat.div_add_mod k w

namespace Wrote

theorem wrap (h : g.Wrote before top text) :
    g.wrap = g.moveTo (top + text.length / before.width) (text.length % before.width) := by
  have row := h.row
  unfold Glass.wrap
  split
  · rename_i waits
    have full := (h.waits.mp waits).2
    rw [if_pos waits] at row
    rw [row, full]
  · rename_i free
    have still : g.wrapping = false := Bool.eq_false_iff.mpr free
    rw [if_neg free, Nat.add_zero] at row
    rw [← row, ← h.column still, moveTo_self still]

/- One more character. -/
theorem put (h : g.Wrote before top text) (wide : 0 < before.width) (c : Char) :
    (g.wrap.put c).Wrote before top (text ++ [c]) := by
  obtain ⟨inner, full⟩ := next_div_mod wide text.length
  have longer : (text ++ [c]).length = text.length + 1 := List.length_append
  rw [h.wrap]
  constructor
  · exact h.ground
  · exact h.width
  · intro r k higher
    have other : r ≠ top + text.length / before.width :=
      Nat.ne_of_lt (Nat.lt_add_right _ higher)
    simp only [Glass.put, moveTo, other, false_and, if_false]
    exact h.above r k higher
  · intro r k inside
    have place := offset_eq_iff inside r text.length
    have old := h.cells r k inside
    simp only [Glass.put, moveTo, Nat.add_left_cancel_iff, ← place]
    split
    · rename_i here
      rw [here, List.getElem?_concat_length]
    · rename_i elsewhere
      rw [old]
      grind
  · simp only [Glass.put, moveTo, h.width, longer]
    by_cases inside : text.length % before.width + 1 < before.width
    · simp [inside, (inner inside).2]
    · simp [inside, (full inside).2]
  · simp only [Glass.put, moveTo, h.width, longer]
    by_cases inside : text.length % before.width + 1 < before.width
    · simp [inside, (inner inside).1]
    · simp [inside, (full inside).1]
      omega
  · simp only [Glass.put, moveTo, h.width, longer]
    by_cases inside : text.length % before.width + 1 < before.width
    · simp [inside, (inner inside).2]
    · simp [inside]

/- A text goes on where the one before it ended. -/
theorem feed (h : g.Wrote before top text) (wide : 0 < before.width) {more : List Char}
    (visible : ∀ c ∈ more, isVisible c = true) :
    (g.feed more).Wrote before top (text ++ more) := by
  induction more generalizing g text with
  | nil =>
    rw [List.append_nil]
    exact h
  | cons c more ih =>
    have first := step_visible h.ground (visible c List.mem_cons_self)
    have rest := ih (h.put wide c) fun d member => visible d (List.mem_cons_of_mem c member)
    rw [feed_cons, first]
    rwa [List.append_assoc, List.singleton_append] at rest

end Wrote

end Writing

end Glass

end LineShell
