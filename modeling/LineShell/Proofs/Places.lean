import LineShell.Proofs.Positions
import LineShell.Proofs.Tiling
import Mathlib.Data.List.DropRight

/-!
Where tokens stand, counted out in the source. The cursor keeps bytes, rows and columns while it
passes characters; what it has at the end is the number of bytes, the number of newlines, and the
length of the line that it is in.
-/

namespace LineShell

/-- The characters behind the last newline. -/
def lastLine (cs : List Char) : List Char :=
  cs.rtakeWhile (· ≠ '\n')

theorem Cursor.passAll_start (before : List Char) :
    Cursor.start.passAll before =
      ⟨String.utf8Len before, 1 + before.count '\n', (lastLine before).length⟩ := by
  induction before using List.reverseRecOn with
  | nil => rfl
  | append_singleton before c ih =>
    rw [Cursor.passAll_append, ih]
    change Cursor.pass _ c = _
    by_cases newline : c = '\n'
    · simp [Cursor.pass, newline, lastLine, Nat.add_assoc]
    · simp [Cursor.pass, newline, lastLine]

/-- The place of a byte offset, by the characters before it. A newline stands in front of the row
that it opens. -/
def Position.ofOffset (path source : String) (offset : Nat) : Position :=
  let before := (slice source 0 offset).toList
  if String.Pos.Raw.get? source ⟨offset⟩ = some '\n' then ⟨path, 2 + before.count '\n', 0⟩
  else ⟨path, 1 + before.count '\n', 1 + (lastLine before).length⟩

theorem Position.ofOffset_append (path : String) {source : String} (before rest : List Char)
    (h : source.toList = before ++ rest) :
    Position.ofOffset path source (String.utf8Len before) =
      (Cursor.start.passAll before).position path rest.head? := by
  have next : String.Pos.Raw.get? source ⟨String.utf8Len before⟩ = rest.head? := by
    rw [← String.ofList_toList (s := source), h]
    exact String.get?_of_valid before rest
  have text : (slice source 0 (String.utf8Len before)).toList = before := by
    have cut := slice_of_append [] before rest h
    rw [List.nil_append] at cut
    exact (congrArg String.toList cut).trans String.toList_ofList
  rw [Cursor.passAll_start, Cursor.position, Position.ofOffset, next, text]
  by_cases newline : rest.head? = some '\n'
  · simp only [if_pos newline, Position.mk.injEq, true_and, and_true]
    omega
  · simp only [if_neg newline, Nat.add_comm]

/-- Tokens stand where their first character, or the end, is found by counting, and their places
increase strictly. -/
theorem Token.position_exact (path source : String) :
    (∀ t ∈ Token.all path source, t.position = Position.ofOffset path source t.start) ∧
      (Token.all path source).Pairwise fun t u => t.position.before u.position = true := by
  have run := Token.scans_scan path source
  constructor
  · intro t member
    obtain ⟨s, hs, rfl⟩ := List.mem_map.mp member
    rcases run.mem s hs with token | ⟨front, c, cs, split, _, token⟩
    · rw [token, Token.start_ending, Position.ofOffset_append path _ [] (by simp)]
      rfl
    · rw [token, Token.start_starting, Position.ofOffset_append path front (c :: cs) split]
      rfl
  · simp only [Position.before_iff]
    exact run.increasing

end LineShell
