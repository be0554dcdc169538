import LineShell.Token.Scan
import Mathlib.Data.String.Basic
import Mathlib.Tactic.SplitIfs

/-!
What scanning does to a source, one fact for each step: a gap is split off, one token is read, and
scanning goes on behind it. `Scans` describes whole runs. In it a token's place is given by the
characters before it, so that spans and positions are functions of the source alone.
-/

namespace LineShell

/-- Blanks, and at most one comment behind them, which runs up to a newline or to the end. -/
inductive Gap : List Char → List Char → Prop where
  | blanks {bs rest : List Char} : (∀ c ∈ bs, isBlank c = true) → Gap bs rest
  | comment {bs text rest : List Char} :
      (∀ c ∈ bs, isBlank c = true) → '\n' ∉ text → (∀ c ∈ rest.head?, c = '\n') →
      Gap (bs ++ '#' :: text) rest

/- Of what stands behind a gap only the first character matters. -/
theorem Gap.of_head {gap rest rest' : List Char} (h : Gap gap rest)
    (same : rest'.head? = rest.head?) : Gap gap rest' := by
  cases h with
  | blanks blanks => exact .blanks blanks
  | comment blanks line stops => exact .comment blanks line (same ▸ stops)

theorem splitGap_append (source : List Char) :
    (splitGap source).1 ++ (splitGap source).2 = source := by
  simp only [splitGap]
  split
  · rw [List.append_assoc, List.takeWhile_append_dropWhile, List.takeWhile_append_dropWhile]
  · exact List.takeWhile_append_dropWhile

theorem gap_splitGap (source : List Char) : Gap (splitGap source).1 (splitGap source).2 := by
  have blanks : ∀ c ∈ source.takeWhile isBlank, isBlank c = true :=
    List.all_eq_true.mp List.all_takeWhile
  simp only [splitGap]
  split
  · rename_i hash
    obtain ⟨text, htext⟩ := List.head?_eq_some_iff.mp hash
    rw [htext]
    have line : '\n' ∉ text.takeWhile (· ≠ '\n') := by
      intro inside
      simpa using List.all_eq_true.mp List.all_takeWhile '\n' inside
    have stops : ∀ c ∈ (text.dropWhile (· ≠ '\n')).head?, c = '\n' := by
      intro c hc
      have stopped := List.head?_dropWhile_not (fun c : Char => decide (c ≠ '\n')) text
      rw [Option.mem_def.mp hc] at stopped
      simpa using stopped
    simpa using Gap.comment blanks line stops
  · exact .blanks blanks

/-- A comment belongs to the gap, so no token starts with its sign. -/
theorem head_splitGap_ne_hash {source cs : List Char} {c : Char}
    (h : (splitGap source).2 = c :: cs) : c ≠ '#' := by
  simp only [splitGap] at h
  split at h
  · have newline : c = '\n' := by simpa using eq_false_of_dropWhile_eq_cons h
    subst newline
    decide
  · rename_i hash
    rintro rfl
    exact hash (congrArg List.head? h)

theorem Word.scan_append (mode : Word.Mode) (source : List Char) :
    (Word.scan mode source).raw ++ (Word.scan mode source).rest = source := by
  induction source generalizing mode with
  | nil => rfl
  | cons c cs ih =>
    simp only [Word.scan]
    split
    · rfl
    · simp only [List.cons_append, ih]

theorem Word.kind_cases (raw : List Char) :
    (∃ k, Word.kind raw = .keyword k) ∨ Word.kind raw = .bareWord ∨ Word.kind raw = .equals ∨
      Word.kind raw = .word := by
  unfold Word.kind
  split
  · split <;> simp
  · split <;> simp

theorem Word.kind_ne_eof (raw : List Char) : Word.kind raw ≠ .eof := by
  rcases Word.kind_cases raw with ⟨k, h⟩ | h | h | h <;> simp [h]

theorem isDelimiter_of_isDigit {c : Char} (digit : c.isDigit = true) : isDelimiter c = false := by
  rw [Bool.eq_false_iff]
  intro delimiter
  simp only [isDelimiter, isBlank, Bool.or_eq_true, beq_iff_eq] at delimiter
  rcases delimiter with ((((((((((rfl | rfl) | rfl) | rfl) | rfl) | rfl) | rfl) | rfl) | rfl) |
    rfl) | rfl) <;> cases digit

namespace Lexeme

/-- The ways to read a token. Its first character decides which of them it is. -/
inductive Reader (c : Char) : (List Char → Lexeme) → Prop where
  | single {kind : Kind} {value : List Char} :
      (∀ e, kind ≠ .error e) → Reader c fun cs => ⟨kind, value, [c], cs⟩
  | operator : c = '&' ∨ c = '|' → Reader c (operator c)
  | number : isDelimiter c = false → Reader c fun cs => number (c :: cs)
  | word : isDelimiter c = isBlank c → c.isDigit = false → Reader c fun cs => word (c :: cs)

theorem reader_ofSource (c : Char) : Reader c (ofSource c) := by
  have read : ofSource c =
      if c = '\n' ∨ c = ';' then fun cs => ⟨.separator, [], [c], cs⟩
      else if c = '(' then fun cs => ⟨.openParen, [c], [c], cs⟩
      else if c = ')' then fun cs => ⟨.closeParen, [c], [c], cs⟩
      else if c = '&' ∨ c = '|' then Lexeme.operator c
      else if c.isDigit then fun cs => Lexeme.number (c :: cs)
      else fun cs => Lexeme.word (c :: cs) := by
    funext cs
    unfold ofSource
    split_ifs <;> rfl
  rw [read]
  split_ifs with separator opens closes connects digit
  · exact .single (by simp)
  · exact .single (by simp)
  · exact .single (by simp)
  · exact .operator connects
  · exact .number (isDelimiter_of_isDigit digit)
  · simp only [not_or] at separator connects
    have visible : isDelimiter c = isBlank c := by
      rw [Bool.eq_iff_iff]
      simp [isDelimiter, separator, opens, closes, connects]
    exact .word visible (by simpa using digit)

theorem operator_append (c : Char) (cs : List Char) :
    (operator c cs).raw ++ (operator c cs).rest = c :: cs := by
  unfold operator
  split
  · rename_i again
    obtain ⟨rest, rfl⟩ := List.head?_eq_some_iff.mp again
    rfl
  · rfl

theorem number_append (source : List Char) : (number source).raw ++ (number source).rest = source :=
  List.takeWhile_append_dropWhile

theorem word_append (source : List Char) : (word source).raw ++ (word source).rest = source :=
  Word.scan_append .plain source

/-- A token loses nothing of the source. -/
theorem ofSource_append (c : Char) (cs : List Char) :
    (ofSource c cs).raw ++ (ofSource c cs).rest = c :: cs := by
  have reader := reader_ofSource c
  generalize ofSource c = read at *
  cases reader with
  | single => rfl
  | operator => exact operator_append c cs
  | number => exact number_append (c :: cs)
  | word => exact word_append (c :: cs)

theorem ofSource_raw_ne_nil {c : Char} (h : isBlank c = false) (cs : List Char) :
    (ofSource c cs).raw ≠ [] := by
  intro empty
  have all := ofSource_append c cs
  have less := length_rest_ofSource h cs
  rw [empty, List.nil_append] at all
  rw [all, List.length_cons] at less
  omega

theorem ofSource_kind_ne_eof (c : Char) (cs : List Char) : (ofSource c cs).kind ≠ .eof := by
  unfold ofSource
  split
  · simp
  split
  · simp
  split
  · simp
  split
  · unfold operator
    split
    · dsimp only
      split <;> simp
    · simp
  split
  · unfold number
    dsimp only
    split <;> simp
  · unfold word
    dsimp only
    split
    · simp
    · exact Word.kind_ne_eof _

end Lexeme

theorem Cursor.passAll_append (k : Cursor) (cs ds : List Char) :
    k.passAll (cs ++ ds) = (k.passAll cs).passAll ds :=
  List.foldl_append

theorem Cursor.offset_passAll (k : Cursor) (cs : List Char) :
    (k.passAll cs).offset = k.offset + String.utf8Len cs := by
  induction cs generalizing k with
  | nil => rfl
  | cons c cs ih =>
    have one : (k.pass c).offset = k.offset + c.utf8Size := by
      unfold Cursor.pass
      split <;> rfl
    change ((k.pass c).passAll cs).offset = _
    rw [ih, one, String.utf8Len_cons]
    omega

/- Within a row a character moves the cursor by one column. -/
theorem Cursor.passAll_line (k : Cursor) {cs : List Char} (line : '\n' ∉ cs) :
    k.passAll cs = ⟨k.offset + String.utf8Len cs, k.row, k.column + cs.length⟩ := by
  induction cs generalizing k with
  | nil => rfl
  | cons c cs ih =>
    rw [List.mem_cons, not_or] at line
    have passed : k.pass c = ⟨k.offset + c.utf8Size, k.row, k.column + 1⟩ :=
      if_neg (Ne.symm line.1)
    change (k.pass c).passAll cs = _
    rw [passed, ih _ line.2, String.utf8Len_cons, List.length_cons]
    simp only [Cursor.mk.injEq, true_and]
    omega

namespace Token

/-- The end token behind the given characters. -/
def ending (path : String) (before : List Char) : Token :=
  let k := Cursor.start.passAll before
  ⟨.eof, "", "", k.offset, k.position path none⟩

/-- The token that starts with a character behind the given ones. -/
def starting (path : String) (before : List Char) (c : Char) (cs : List Char) : Token :=
  let k := Cursor.start.passAll before
  let lexeme := Lexeme.ofSource c cs
  ⟨lexeme.kind, String.ofList lexeme.value, String.ofList lexeme.raw, k.offset,
    k.position path (some c)⟩

/-- A run over what is left of a source behind the given characters. -/
inductive Scans (path : String) : List Char → List Char → List Segment → Prop where
  | finish {before gap : List Char} :
      Gap gap [] → Scans path before gap [⟨String.ofList gap, ending path (before ++ gap)⟩]
  | token {before gap cs : List Char} {c : Char} {segments : List Segment} :
      Gap gap (c :: cs) → isBlank c = false → c ≠ '#' →
      Scans path (before ++ gap ++ (Lexeme.ofSource c cs).raw) (Lexeme.ofSource c cs).rest
        segments →
      Scans path before (gap ++ c :: cs)
        (⟨String.ofList gap, starting path (before ++ gap) c cs⟩ :: segments)

/- What one token of a run leaves behind it is still the same source. -/
theorem behind_token (before gap : List Char) (c : Char) (cs : List Char) :
    before ++ gap ++ (Lexeme.ofSource c cs).raw ++ (Lexeme.ofSource c cs).rest =
      before ++ (gap ++ c :: cs) := by
  rw [List.append_assoc, Lexeme.ofSource_append, List.append_assoc]

theorem scans_scanFrom (path : String) (before source : List Char) :
    Scans path before source (scanFrom path (Cursor.start.passAll before) source) := by
  have gap := gap_splitGap source
  have whole := splitGap_append source
  unfold scanFrom
  dsimp only
  split
  · rename_i rest
    rw [rest, List.append_nil] at whole
    rw [rest, whole] at gap
    rw [whole, ← Cursor.passAll_append]
    exact .finish gap
  · rename_i c cs rest
    have shorter := Lexeme.length_rest_lt rest
    have tail := scans_scanFrom path
      (before ++ (splitGap source).1 ++ (Lexeme.ofSource c cs).raw) (Lexeme.ofSource c cs).rest
    rw [Cursor.passAll_append, Cursor.passAll_append] at tail
    rw [rest] at gap
    have run := Scans.token gap (head_splitGap rest) (head_splitGap_ne_hash rest) tail
    rw [← rest, whole] at run
    simpa only [starting, Cursor.passAll_append] using run
termination_by source.length

theorem scans_scan (path source : String) : Scans path [] source.toList (scan path source) :=
  scans_scanFrom path [] source.toList

/- Every token of a run is the end token or stands where a token may start. -/
theorem Scans.mem {path : String} {before rest : List Char} {segments : List Segment}
    (h : Scans path before rest segments) :
    ∀ s ∈ segments, s.token = ending path (before ++ rest) ∨
      ∃ front c cs, before ++ rest = front ++ c :: cs ∧ isBlank c = false ∧
        s.token = starting path front c cs := by
  induction h with
  | finish gap =>
    intro s hs
    rw [List.mem_singleton.mp hs]
    exact .inl rfl
  | @token before gap cs c segments _ blank _ _ ih =>
    intro s hs
    rcases List.mem_cons.mp hs with rfl | hs
    · exact .inr ⟨before ++ gap, c, cs, (List.append_assoc ..).symm, blank, rfl⟩
    · rw [behind_token] at ih
      exact ih s hs

end Token

end LineShell
