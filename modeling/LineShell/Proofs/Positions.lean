import LineShell.Proofs.Scanning
import Mathlib.Data.Prod.Lex

/-!
Places in reading order. A token stands where the cursor is behind its first character, and the
cursor only moves forward, so tokens follow each other strictly, also over broken text and strings
of several lines.
-/

namespace LineShell

/-- Row and column, compared row first. -/
def Position.place (p : Position) : ℕ ×ₗ ℕ :=
  toLex (p.row, p.column)

theorem Position.before_iff (p q : Position) : p.before q = true ↔ p.place < q.place := by
  simp [Position.before, Position.place, Prod.Lex.toLex_lt_toLex]

namespace Cursor

def place (k : Cursor) : ℕ ×ₗ ℕ :=
  toLex (k.row, k.column)

theorem place_lt_pass (k : Cursor) (c : Char) : k.place < (k.pass c).place := by
  unfold pass place
  rw [Prod.Lex.toLex_lt_toLex]
  split
  · exact .inl (Nat.lt_succ_self k.row)
  · exact .inr ⟨rfl, Nat.lt_succ_self k.column⟩

theorem place_le_passAll (k : Cursor) (cs : List Char) : k.place ≤ (k.passAll cs).place := by
  induction cs generalizing k with
  | nil => exact le_refl _
  | cons c cs ih => exact (k.place_lt_pass c).le.trans (ih (k.pass c))

/- The place of a character is where the cursor is once it has passed it. -/
theorem place_position_some (path : String) (k : Cursor) (c : Char) :
    (k.position path (some c)).place = (k.pass c).place := by
  unfold position pass Position.place place
  by_cases newline : c = '\n' <;> simp [newline]

theorem place_lt_position (path : String) (k : Cursor) (next : Option Char) :
    k.place < (k.position path next).place := by
  cases next with
  | none =>
    unfold position Position.place place
    rw [Prod.Lex.toLex_lt_toLex]
    exact .inr ⟨rfl, Nat.lt_succ_self k.column⟩
  | some c =>
    rw [place_position_some]
    exact k.place_lt_pass c

end Cursor

namespace Lexeme

theorem ofSource_raw_eq_cons {c : Char} (h : isBlank c = false) (cs : List Char) :
    ∃ more, (ofSource c cs).raw = c :: more := by
  have whole := ofSource_append c cs
  cases raw : (ofSource c cs).raw with
  | nil => exact absurd raw (ofSource_raw_ne_nil h cs)
  | cons d more =>
    rw [raw, List.cons_append] at whole
    exact ⟨more, by rw [(List.cons.inj whole).1]⟩

end Lexeme

namespace Token

/- A token stands before everything behind its text. -/
theorem place_starting_le (path : String) (before : List Char) {c : Char}
    (blank : isBlank c = false) (cs : List Char) :
    (starting path before c cs).position.place ≤
      (Cursor.start.passAll (before ++ (Lexeme.ofSource c cs).raw)).place := by
  obtain ⟨more, raw⟩ := Lexeme.ofSource_raw_eq_cons blank cs
  have first : (starting path before c cs).position.place =
      ((Cursor.start.passAll before).pass c).place :=
    Cursor.place_position_some path _ c
  rw [first, raw, Cursor.passAll_append]
  exact Cursor.place_le_passAll _ more

namespace Scans

variable {path : String} {before rest : List Char} {segments : List Segment}

theorem place_lt (h : Scans path before rest segments) :
    ∀ s ∈ segments, (Cursor.start.passAll before).place < s.token.position.place := by
  induction h with
  | @finish before gap _ =>
    intro s hs
    rw [List.mem_singleton.mp hs]
    have passed := Cursor.place_le_passAll (Cursor.start.passAll before) gap
    rw [← Cursor.passAll_append] at passed
    exact passed.trans_lt (Cursor.place_lt_position path _ none)
  | @token before gap cs c segments _ _ _ _ ih =>
    intro s hs
    have passed := Cursor.place_le_passAll (Cursor.start.passAll before) gap
    rw [← Cursor.passAll_append] at passed
    rcases List.mem_cons.mp hs with rfl | hs
    · exact passed.trans_lt (Cursor.place_lt_position path _ (some c))
    · have further := Cursor.place_le_passAll (Cursor.start.passAll (before ++ gap))
        (Lexeme.ofSource c cs).raw
      rw [← Cursor.passAll_append] at further
      exact (passed.trans further).trans_lt (ih s hs)

theorem increasing (h : Scans path before rest segments) :
    (segments.map Segment.token).Pairwise fun t u => t.position.place < u.position.place := by
  induction h with
  | finish gap => simp
  | @token before gap cs c segments _ blank _ tail ih =>
    rw [List.map_cons, List.pairwise_cons]
    refine ⟨?_, ih⟩
    intro t ht
    obtain ⟨s, hs, rfl⟩ := List.mem_map.mp ht
    exact (place_starting_le path (before ++ gap) blank cs).trans_lt (tail.place_lt s hs)

end Scans

end Token

end LineShell
