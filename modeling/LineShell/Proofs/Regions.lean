import LineShell.Proofs.Prompts

/-!
Hidden regions of a prompt. What a prompt measures is the number of places in its last line that lie
outside all regions, except that a region that is open at the last newline is taken for closed there:
its characters up to the next mark are counted, although they are hidden.
-/

namespace LineShell.Prompt

/-- Behind these characters a region is open: a mark that hides stands behind all that show. -/
def InRegion (before : List Char) : Prop :=
  hideMark ∈ before.rtakeWhile (· ≠ showMark)

instance (before : List Char) : Decidable (InRegion before) :=
  inferInstanceAs (Decidable (hideMark ∈ before.rtakeWhile (· ≠ showMark)))

/-- The place is in the last line, holds no mark and lies in no region. -/
def Seen (p : List Char) (i : Nat) : Prop :=
  '\n' ∉ p.drop i ∧ p[i]?.any isMark = false ∧ ¬ InRegion (p.take i)

instance (p : List Char) (i : Nat) : Decidable (Seen p i) :=
  inferInstanceAs (Decidable (_ ∧ _ ∧ _))

/-- The room that the last line of a prompt takes. -/
def room (p : List Char) : Nat :=
  (List.range p.length).countP fun i => decide (Seen p i)

theorem inRegion_concat (before : List Char) (c : Char) :
    InRegion (before ++ [c]) ↔ c = hideMark ∨ c ≠ showMark ∧ InRegion before := by
  have marks : hideMark ≠ showMark := by decide
  unfold InRegion
  rw [List.rtakeWhile_concat]
  by_cases shows : c = showMark
  · subst shows
    simp [marks.symm]
  · simp [shows, or_comm, eq_comm]

/-- In a text with another one before it, the place holds no mark and lies in no region. -/
def Outside (before cs : List Char) (i : Nat) : Prop :=
  cs[i]?.any isMark = false ∧ ¬ InRegion (before ++ cs.take i)

instance (before cs : List Char) (i : Nat) : Decidable (Outside before cs i) :=
  inferInstanceAs (Decidable (_ ∧ _))

theorem outside_zero (before : List Char) (c : Char) (cs : List Char) :
    Outside before (c :: cs) 0 ↔ isMark c = false ∧ ¬ InRegion before := by
  simp [Outside]

theorem outside_succ (before : List Char) (c : Char) (cs : List Char) (i : Nat) :
    Outside before (c :: cs) (i + 1) ↔ Outside (before ++ [c]) cs i := by
  simp [Outside]

/-- Characters are counted where they lie outside the regions. -/
theorem visibleFrom_eq_count (before cs : List Char) :
    visibleFrom (decide (InRegion before)) cs =
      (List.range cs.length).countP fun i => decide (Outside before cs i) := by
  induction cs generalizing before with
  | nil => rfl
  | cons c cs ih =>
    rw [List.length_cons, List.range_succ_eq_map, List.countP_cons, List.countP_map]
    simp only [Function.comp_def, Nat.succ_eq_add_one, outside_succ, ← ih, outside_zero,
      inRegion_concat]
    by_cases hides : c = hideMark
    · simp [visibleFrom, hides, isMark]
    · by_cases shows : c = showMark
      · simp [visibleFrom, shows, isMark, show showMark ≠ hideMark by decide]
      · have plain : isMark c = false := isMark_eq_false_iff.mpr ⟨hides, shows⟩
        by_cases hidden : InRegion before <;> simp [visibleFrom, hides, shows, plain, hidden]

/- Before the first mark it matters whether a region is open, and never after it. -/
theorem visibleFrom_false (cs : List Char) :
    visibleFrom false cs =
      visibleFrom true cs + (cs.takeWhile fun c => !isMark c).length := by
  induction cs with
  | nil => rfl
  | cons c cs ih =>
    by_cases hides : c = hideMark
    · simp [visibleFrom, hides, isMark]
    · by_cases shows : c = showMark
      · simp [visibleFrom, shows, isMark]
      · have plain : isMark c = false := isMark_eq_false_iff.mpr ⟨hides, shows⟩
        simp [visibleFrom, hides, shows, plain, ih]
        omega

section LastLine

variable {above last : List Char}

theorem not_seen_above {front : List Char} (ends : above = front ++ ['\n']) {i : Nat}
    (inside : i < above.length) : ¬ Seen (above ++ last) i := by
  rintro ⟨none, -⟩
  apply none
  have short : i ≤ front.length := by
    rw [ends, List.length_append] at inside
    exact Nat.le_of_lt_succ inside
  rw [ends, List.append_assoc, List.drop_append_of_le_length short]
  simp

theorem seen_last (line : '\n' ∉ last) (i : Nat) :
    Seen (above ++ last) (above.length + i) ↔ Outside above last i := by
  have free : '\n' ∉ last.drop i := fun member => line (List.mem_of_mem_drop member)
  have place : (above ++ last)[above.length + i]? = last[i]? := by
    rw [List.getElem?_append_right (Nat.le_add_right _ _), Nat.add_sub_cancel_left]
  unfold Seen
  rw [List.drop_append, List.take_append, place, Nat.add_sub_cancel_left,
    List.drop_of_length_le (Nat.le_add_right _ _), List.take_of_length_le (Nat.le_add_right _ _),
    List.nil_append]
  exact and_iff_right free

/-- The room of a prompt is that of its last line, in a region if one is open above it. -/
theorem room_append (ends : above = [] ∨ ∃ front, above = front ++ ['\n'])
    (line : '\n' ∉ last) :
    room (above ++ last) = visibleFrom (decide (InRegion above)) last := by
  have before : (List.range above.length).countP
      (fun i => decide (Seen (above ++ last) i)) = 0 := by
    rw [List.countP_eq_zero]
    intro i member
    have inside := List.mem_range.mp member
    rcases ends with rfl | ⟨front, ends⟩
    · cases inside
    · simpa using not_seen_above ends inside
  rw [room, List.length_append, List.range_add, List.countP_append, before, Nat.zero_add,
    List.countP_map, visibleFrom_eq_count]
  simp only [Function.comp_def, seen_last line]

end LastLine

/-- A prompt is split behind its last newline. Its length is the room of the last line, and if a
region is open above that line, also the hidden characters before the first mark of the line. -/
theorem split_measures (prompt : String) :
    let p := prompt.toList
    let above := p.rdropWhile (· ≠ '\n')
    let last := p.rtakeWhile (· ≠ '\n')
    let parts := split prompt
    (parts.head ++ parts.last).toList = p.filter (fun c => !isMark c) ∧
      '\n' ∉ parts.last.toList ∧
      (parts.head = "" ∨ parts.head.toList.getLast? = some '\n') ∧
      parts.length =
        room p + if InRegion above then (last.takeWhile fun c => !isMark c).length else 0 := by
  intro p above last parts
  have whole : above ++ last = p := List.rdropWhile_append_rtakeWhile
  have line : '\n' ∉ last := Text.newline_not_mem_rtakeWhile p
  have ends : above = [] ∨ ∃ front, above = front ++ ['\n'] := Text.rdropWhile_newline p
  have head : parts.head.toList = above.filter fun c => !isMark c := head_split prompt
  have tail : parts.last.toList = last.filter fun c => !isMark c := last_split prompt
  refine ⟨?_, ?_, ?_, ?_⟩
  · rw [String.toList_append, head, tail, ← List.filter_append, whole]
  · rw [tail]
    intro member
    exact line (List.mem_of_mem_filter member)
  · rcases ends with empty | ⟨front, ends⟩
    · left
      rw [empty] at head
      exact String.toList_eq_nil_iff.mp head
    · right
      have plain : isMark '\n' = false := by decide
      rw [head, ends, List.filter_append, List.filter_cons_of_pos (by simp [plain])]
      exact List.getLast?_concat
  · have counted : parts.length = visibleFrom false last := rfl
    have measured := room_append ends line
    rw [whole] at measured
    rw [counted, measured]
    by_cases inside : InRegion above
    · rw [if_pos inside, decide_eq_true inside]
      exact visibleFrom_false last
    · rw [if_neg inside, decide_eq_false inside, Nat.add_zero]

/- A newline and a colour in one region: the colour takes no room, and it is counted. -/
theorem split_counts_hidden :
    let prompt := "\x01\n\x1b[31m\x02$ "
    (split prompt).last = "\x1b[31m$ " ∧ room prompt.toList = 2 ∧ (split prompt).length = 7 := by
  decide +kernel

end LineShell.Prompt
