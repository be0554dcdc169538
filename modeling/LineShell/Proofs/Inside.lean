import LineShell.Proofs.Editing

/-!
The cursor stays inside. Every edit leaves it in the line or at its end, and where a key is answered
by a change of the editor, the changed editor has it there and browses at a slot.
-/

namespace LineShell

/-- The edits that can be made to a line. -/
inductive Edit where
  | set (text : String)
  | insert (c : Char)
  | erase
  | left
  | right
  | wordLeft
  | wordRight
  deriving DecidableEq, Repr

namespace EditLine

def edit (l : EditLine) : Edit → EditLine
  | .set text => .ofText text
  | .insert c => l.insert c
  | .erase => l.erase
  | .left => l.moveLeft
  | .right => l.moveRight
  | .wordLeft => l.moveWordLeft
  | .wordRight => l.moveWordRight

/-- The cursor stands in the line or at its end. -/
def Inside (l : EditLine) : Prop :=
  l.cursor ≤ l.length

theorem inside_around (left right : List Char) : (around left right).Inside := by
  simp [Inside, around, length]

theorem Inside.eq_around {l : EditLine} (inside : l.Inside) :
    l = around (l.chars.take l.cursor).reverse (l.chars.drop l.cursor) := by
  have bound : l.cursor ≤ l.chars.length := inside
  simp [around, bound]

theorem Inside.edit {l : EditLine} (inside : l.Inside) (change : Edit) :
    (l.edit change).Inside := by
  rw [inside.eq_around]
  cases change with
  | set text =>
    rw [EditLine.edit, ofText_eq_around]
    exact inside_around _ _
  | insert c =>
    rw [EditLine.edit, insert_around]
    exact inside_around _ _
  | erase =>
    rw [EditLine.edit, erase_around]
    exact inside_around _ _
  | left =>
    rw [EditLine.edit, moveLeft_around]
    exact inside_around _ _
  | right =>
    rw [EditLine.edit, moveRight_around]
    exact inside_around _ _
  | wordLeft =>
    rw [EditLine.edit, moveWordLeft_around]
    exact inside_around _ _
  | wordRight =>
    rw [EditLine.edit, moveWordRight_around]
    exact inside_around _ _

end EditLine

theorem History.down_valid {h : History} (valid : h.place ≤ h.entries.length) :
    h.down.place ≤ h.down.entries.length := by
  rw [down_place h h.place]
  change (if h.place < h.entries.length then h.place + 1 else h.place) ≤ h.entries.length
  split <;> omega

/-- The cursor is inside the line, and browsing is at a slot. -/
structure Editor.Inside (e : Editor) : Prop where
  line : e.line.Inside
  place : e.history.place ≤ e.history.entries.length

namespace Editor

variable {e : Editor}

theorem inside_clear (e : Editor) : e.clear.Inside :=
  ⟨Nat.le_refl 0, Nat.le_refl _⟩

theorem inside_browse {h : History} (valid : h.place ≤ h.entries.length) :
    (e.browse h).Inside :=
  ⟨Nat.le_refl _, valid⟩

theorem Inside.change (inside : e.Inside) (c : Edit) : { e with line := e.line.edit c }.Inside :=
  ⟨inside.line.edit c, inside.place⟩

theorem Inside.request (inside : e.Inside) {key : Key} {e' : Editor}
    (asked : e.request key = .edit e') : e'.Inside := by
  cases key with
  | enter =>
    simp only [Editor.request] at asked
    split at asked <;> cases asked
  | resize => cases asked
  | backspace => cases asked; exact inside.change .erase
  | left => cases asked; exact inside.change .left
  | right => cases asked; exact inside.change .right
  | ctrlLeft => cases asked; exact inside.change .wordLeft
  | ctrlRight => cases asked; exact inside.change .wordRight
  | up =>
    cases asked
    exact inside_browse (Nat.le_trans (Nat.sub_le _ _) inside.place)
  | down =>
    cases asked
    exact inside_browse (History.down_valid inside.place)
  | char b =>
    simp only [Editor.request] at asked
    split at asked
    · cases asked
    split at asked
    · cases asked
      exact inside.change (.insert (Char.ofNat b.toNat))
    · cases asked
      exact inside
  | escape | tab | ctrlUp | ctrlDown => cases asked; exact inside

end Editor

/-- What was drawn last had its cursor inside too. -/
structure Reading.Inside {σ : Type} (r : Reading σ) : Prop where
  editor : r.editor.Inside
  drawn : ∀ d ∈ r.drawn, d.cursor ≤ d.length

end LineShell
