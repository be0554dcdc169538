import LineShell.Proofs.InRange
import Mathlib.Logic.Function.Iterate
import Mathlib.Order.Bounds.Basic

/-!
Moves by one word. A move to the left is a move to the right on the line read backwards; a move to
the right ends where a run of white space and the run of word characters behind it end. Each move
gains a character, so that repeating it leads to the end of the line and stays there.
-/

namespace LineShell.EditLine

/-- The line read backwards. -/
def mirror (l : EditLine) : EditLine :=
  ⟨l.chars.reverse, l.length - l.cursor⟩

/-- The first place from `start` on that holds no character of a kind. -/
def RunEnds (p : Char → Bool) (cs : List Char) (start stop : Nat) : Prop :=
  IsLeast {i | start ≤ i ∧ ∀ c ∈ cs[i]?, p c = false} stop

variable {l : EditLine}

theorem length_mirror (l : EditLine) : l.mirror.length = l.length :=
  List.length_reverse

theorem inside_mirror (l : EditLine) : l.mirror.Inside := by
  rw [Inside, length_mirror]
  exact Nat.sub_le _ _

theorem mirror_mirror (inside : l.Inside) : l.mirror.mirror = l := by
  have cursor : l.length - (l.length - l.cursor) = l.cursor := Nat.sub_sub_self inside
  simp only [mirror, List.reverse_reverse]
  simp only [length, List.length_reverse] at cursor ⊢
  rw [cursor]

theorem runEnds_takeWhile (p : Char → Bool) (cs : List Char) (start : Nat) :
    RunEnds p cs start (start + ((cs.drop start).takeWhile p).length) := by
  constructor
  · refine ⟨Nat.le_add_right _ _, ?_⟩
    intro c here
    rw [← List.getElem?_drop, ← List.head?_drop, Strict.drop_length_takeWhile] at here
    have fails := List.head?_dropWhile_not p (cs.drop start)
    rw [Option.mem_def.mp here] at fails
    simpa using fails
  · rintro i ⟨behind, fails⟩
    by_contra before
    have inRun : i - start < ((cs.drop start).takeWhile p).length := by omega
    have holds := List.mem_takeWhile_imp (List.getElem_mem inRun)
    have here : cs[i]? = some ((cs.drop start).takeWhile p)[i - start] := by
      rw [(List.takeWhile_prefix p).getElem inRun, ← List.getElem?_eq_getElem,
        List.getElem?_drop, Nat.add_sub_cancel' behind]
    have other := fails _ here
    rw [holds] at other
    cases other

theorem wordStep_pos {ahead : List Char} (more : ahead ≠ []) : 0 < wordStep ahead := by
  have long := List.length_pos_of_ne_nil more
  simp only [wordStep]
  split <;> omega

theorem cursor_moveWordRight (inside : l.Inside) :
    l.moveWordRight.cursor = l.cursor + wordStep (l.chars.drop l.cursor) := by
  have bound := wordStep_le (l.chars.drop l.cursor)
  simp only [Inside, length, List.length_drop] at inside bound
  simp only [moveWordRight, length]
  omega

theorem inside_moveWordRight (l : EditLine) : l.moveWordRight.Inside :=
  Nat.min_le_right _ _

/-- A move to the right gains a character as long as there is one. -/
theorem lt_moveWordRight (inside : l.Inside) :
    l.cursor < l.moveWordRight.cursor ↔ l.cursor ≠ l.length := by
  rw [cursor_moveWordRight inside]
  constructor
  · intro moves atEnd
    have nothing : l.chars.drop l.cursor = [] := List.drop_eq_nil_of_le (Nat.le_of_eq atEnd.symm)
    rw [nothing] at moves
    exact absurd moves (Nat.lt_irrefl l.cursor)
  · intro before
    have more : l.chars.drop l.cursor ≠ [] := by
      intro nothing
      apply before
      exact Nat.le_antisymm inside (List.drop_eq_nil_iff.mp nothing)
    have gained := wordStep_pos more
    omega

/-- Where a move to the right ends. -/
theorem moveWordRight_ends (inside : l.Inside) :
    ∃ spaces word, RunEnds Text.isSpace l.chars l.cursor spaces ∧
      RunEnds isWordChar l.chars spaces word ∧
      l.moveWordRight.cursor = if word = l.cursor then min (l.cursor + 1) l.length else word := by
  obtain ⟨ahead, same⟩ : ∃ ahead, ahead = l.chars.drop l.cursor := ⟨_, rfl⟩
  have first := runEnds_takeWhile Text.isSpace l.chars l.cursor
  have second := runEnds_takeWhile isWordChar l.chars
    (l.cursor + (ahead.takeWhile Text.isSpace).length)
  rw [← same] at first
  rw [← List.drop_drop, ← same, Strict.drop_length_takeWhile] at second
  refine ⟨_, _, first, second, ?_⟩
  have long : ahead.length = l.length - l.cursor := by rw [same, List.length_drop]; rfl
  have bound : l.cursor ≤ l.length := inside
  rw [cursor_moveWordRight inside, ← same]
  simp only [wordStep]
  split <;> split <;> omega

theorem moveWordLeft_mirror (inside : l.Inside) :
    l.moveWordLeft = l.mirror.moveWordRight.mirror := by
  have bound : l.cursor ≤ l.chars.length := inside
  have ahead : l.mirror.chars.drop l.mirror.cursor = (l.chars.take l.cursor).reverse := by
    have place : l.chars.length - l.mirror.cursor = l.cursor := Nat.sub_sub_self bound
    rw [mirror, List.drop_reverse]
    exact congrArg (fun n => (l.chars.take n).reverse) place
  have within := wordStep_le (l.chars.take l.cursor).reverse
  have cursor := cursor_moveWordRight (inside_mirror l)
  rw [ahead] at cursor
  have back : l.moveWordLeft.cursor = l.length - l.mirror.moveWordRight.cursor := by
    rw [cursor]
    simp only [List.length_reverse, List.length_take] at within
    simp only [moveWordLeft, mirror, length]
    omega
  have chars : l.moveWordLeft.chars = l.mirror.moveWordRight.mirror.chars :=
    (List.reverse_reverse l.chars).symm
  rw [← length_mirror] at back
  exact congrArg₂ EditLine.mk chars back

/-- Repeated moves to the right end at the end. -/
theorem iterate_moveWordRight (inside : l.Inside) {steps : Nat}
    (enough : l.length - l.cursor ≤ steps) :
    moveWordRight^[steps] l = { l with cursor := l.length } := by
  induction steps generalizing l with
  | zero =>
    have bound : l.cursor ≤ l.length := inside
    have atEnd : l.cursor = l.length := by omega
    exact congrArg (EditLine.mk l.chars) atEnd
  | succ steps ih =>
    have gain := lt_moveWordRight inside
    have less : l.moveWordRight.length - l.moveWordRight.cursor ≤ steps := by
      have whole : l.moveWordRight.length = l.length := rfl
      have forth := cursor_moveWordRight inside
      omega
    exact ih (inside_moveWordRight l) less

theorem iterate_mirror (inside : l.Inside) (steps : Nat) :
    moveWordLeft^[steps] l = (moveWordRight^[steps] l.mirror).mirror := by
  induction steps generalizing l with
  | zero => exact (mirror_mirror inside).symm
  | succ steps ih =>
    have back : l.moveWordLeft.mirror = l.mirror.moveWordRight := by
      rw [moveWordLeft_mirror inside, mirror_mirror (inside_moveWordRight _)]
    have inside' : l.moveWordLeft.Inside := inside.edit .wordLeft
    rw [Function.iterate_succ_apply, Function.iterate_succ_apply, ih inside', back]

theorem iterate_moveWordLeft (inside : l.Inside) {steps : Nat} (enough : l.cursor ≤ steps) :
    moveWordLeft^[steps] l = { l with cursor := 0 } := by
  have reach : l.mirror.length - l.mirror.cursor ≤ steps := by
    rw [length_mirror]
    simp only [mirror]
    omega
  rw [iterate_mirror inside, iterate_moveWordRight (inside_mirror l) reach]
  simp [mirror, length]

/-- Moves by one word are mirror images, also character by character; a move to the right ends
behind the next word, and repeated moves end at the ends of the line. -/
theorem wordMoves_mirrored (l : EditLine) (inside : l.Inside) :
    l.moveWordLeft = l.mirror.moveWordRight.mirror ∧
      Strict.edit l .wordLeft = (Strict.edit l.mirror .wordRight).map mirror ∧
      (l.cursor < l.moveWordRight.cursor ↔ l.cursor ≠ l.length) ∧
      l.moveWordRight.cursor ≤ l.length ∧
      (∃ spaces word, RunEnds Text.isSpace l.chars l.cursor spaces ∧
        RunEnds isWordChar l.chars spaces word ∧
        l.moveWordRight.cursor =
          if word = l.cursor then min (l.cursor + 1) l.length else word) ∧
      (∀ steps, l.length - l.cursor ≤ steps →
        moveWordRight^[steps] l = { l with cursor := l.length }) ∧
      ∀ steps, l.cursor ≤ steps → moveWordLeft^[steps] l = { l with cursor := 0 } := by
  refine ⟨moveWordLeft_mirror inside, ?_, lt_moveWordRight inside, inside_moveWordRight l,
    moveWordRight_ends inside, ?_, ?_⟩
  · rw [Strict.wordLeft_eq inside, Strict.wordRight_eq, moveWordLeft_mirror inside]
    rfl
  · intro steps enough
    exact iterate_moveWordRight inside enough
  · intro steps enough
    exact iterate_moveWordLeft inside enough

/- Between white space and a sign: the move to the right takes the sign alone. -/
theorem wordMoves_mirrored_sign :
    let l : EditLine := ⟨"foo_1  -é!".toList, 7⟩
    l.Inside ∧ l.mirror = ⟨"!é-  1_oof".toList, 3⟩ ∧
      l.moveWordLeft = l.mirror.moveWordRight.mirror ∧ l.moveWordLeft.cursor = 0 ∧
      l.moveWordRight.cursor = 8 ∧ moveWordRight^[3] l = ⟨l.chars, 10⟩ ∧
      moveWordLeft^[7] l = ⟨l.chars, 0⟩ := by
  intro l
  have inside : l.Inside := by
    change 7 ≤ 10
    decide
  obtain ⟨mirrored, -, -, -, -, right, left⟩ := wordMoves_mirrored l inside
  refine ⟨inside, by decide, mirrored, by decide +kernel, by decide +kernel, ?_, ?_⟩
  · exact right 3 (by decide)
  · exact left 7 (by decide)

end LineShell.EditLine
