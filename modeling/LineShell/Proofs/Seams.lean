import LineShell.Proofs.Scanning

/-!
Where scanning can be cut. A delimiter ends every sound token, so what stands in front of one scans
as if the source ended there; only an open comment reaches over it, up to the next newline. The
description of a run by `Scans` is exact: it leaves no choice.
-/

namespace LineShell

theorem takeWhile_blanks {bs rest : List Char} (blanks : ∀ c ∈ bs, isBlank c = true)
    (starts : ∀ c ∈ rest.head?, isBlank c = false) :
    (bs ++ rest).takeWhile isBlank = bs ∧ (bs ++ rest).dropWhile isBlank = rest := by
  rw [List.takeWhile_append_of_pos blanks, List.dropWhile_append_of_pos blanks]
  cases rest with
  | nil => simp
  | cons c cs =>
    have first : isBlank c = false := starts c rfl
    simp [first]

theorem splitGap_of_gap {gap rest : List Char} (h : Gap gap rest)
    (starts : ∀ c ∈ rest.head?, isBlank c = false ∧ c ≠ '#') :
    splitGap (gap ++ rest) = (gap, rest) := by
  cases h with
  | blanks blanks =>
    obtain ⟨taken, left⟩ := takeWhile_blanks blanks fun c hc => (starts c hc).1
    have plain : rest.head? ≠ some '#' := fun hash => (starts '#' hash).2 rfl
    simp only [splitGap, taken, left, if_neg plain]
  | @comment bs text _ blanks line stops =>
    obtain ⟨taken, left⟩ := @takeWhile_blanks bs ('#' :: text ++ rest) blanks
      (by simp [isBlank])
    have inside : ∀ c ∈ '#' :: text, decide (c ≠ '\n') = true := by
      intro c hc
      apply decide_eq_true
      rintro rfl
      rcases List.mem_cons.mp hc with hash | hc
      · exact absurd hash (by decide)
      · exact line hc
    have behind : rest.takeWhile (fun c => decide (c ≠ '\n')) = [] ∧
        rest.dropWhile (fun c => decide (c ≠ '\n')) = rest := by
      cases rest with
      | nil => simp
      | cons c cs =>
        have newline : c = '\n' := stops c rfl
        simp [newline]
    have hash : ('#' :: text ++ rest).head? = some '#' := rfl
    rw [List.append_assoc]
    simp only [splitGap, taken, left, if_pos hash]
    rw [List.takeWhile_append_of_pos inside, List.dropWhile_append_of_pos inside,
      behind.1, behind.2, List.append_nil]

namespace Token

theorem scanFrom_of_end {path : String} {k : Cursor} {source gap : List Char}
    (split : splitGap source = (gap, [])) :
    scanFrom path k source =
      [⟨String.ofList gap, ⟨.eof, "", "", (k.passAll gap).offset,
        (k.passAll gap).position path none⟩⟩] := by
  unfold scanFrom
  dsimp only
  split
  · rw [split]
  · rename_i token
    rw [split] at token
    cases token

theorem scanFrom_of_token {path : String} {k : Cursor} {source gap cs : List Char} {c : Char}
    (split : splitGap source = (gap, c :: cs)) :
    scanFrom path k source =
      ⟨String.ofList gap, ⟨(Lexeme.ofSource c cs).kind, String.ofList (Lexeme.ofSource c cs).value,
        String.ofList (Lexeme.ofSource c cs).raw, (k.passAll gap).offset,
        (k.passAll gap).position path (some c)⟩⟩ ::
      scanFrom path ((k.passAll gap).passAll (Lexeme.ofSource c cs).raw)
        (Lexeme.ofSource c cs).rest := by
  rw [scanFrom]
  dsimp only
  split
  · rename_i none
    rw [split] at none
    cases none
  · rename_i token
    rw [split] at token ⊢
    cases token
    rfl

/-- There is one run over a source. -/
theorem Scans.eq_scanFrom {path : String} {before rest : List Char} {segments : List Segment}
    (h : Scans path before rest segments) :
    segments = scanFrom path (Cursor.start.passAll before) rest := by
  induction h with
  | @finish before gap shape =>
    have split := splitGap_of_gap shape (by simp)
    rw [List.append_nil] at split
    rw [scanFrom_of_end split, ending, Cursor.passAll_append]
  | @token before gap cs c segments shape blank plain _ ih =>
    have split := splitGap_of_gap shape (by simpa using ⟨blank, plain⟩)
    rw [scanFrom_of_token split, ih]
    simp only [starting, Cursor.passAll_append]

theorem Scans.eq_scan {path source : String} {segments : List Segment}
    (h : Scans path [] source.toList segments) : scan path source = segments :=
  h.eq_scanFrom.symm

end Token

/- A word that has no problem is complete in front of every delimiter. -/
theorem Word.scan_append_delimiter {mode : Word.Mode} {cs : List Char}
    (sound : (Word.scan mode cs).problem = none) {d : Char} (delimiter : isDelimiter d = true)
    (more : List Char) :
    Word.scan mode (cs ++ d :: more) =
      { Word.scan mode cs with rest := (Word.scan mode cs).rest ++ d :: more } := by
  induction cs generalizing mode with
  | nil =>
    cases mode with
    | plain => simp [Word.scan, Word.Mode.move, delimiter, Word.Mode.problemAtEnd]
    | inside q => cases sound
    | escape q => cases sound
  | cons c cs ih =>
    cases move : mode.move c with
    | stop problem => simp [Word.scan, move]
    | take next value problem =>
      simp only [Word.scan, move, Option.orElse_eq_orElse] at sound
      have rest : (Word.scan next cs).problem = none := by
        cases problem with
        | none => exact sound
        | some e => cases sound
      rw [List.cons_append]
      simp only [Word.scan, move]
      rw [ih rest]

namespace Lexeme

def IsSound (l : Lexeme) : Prop :=
  ∀ e, l.kind ≠ .error e

theorem operator_append_delimiter {c : Char} {cs : List Char} (sound : (operator c cs).IsSound)
    (more : List Char) :
    operator c (cs ++ more) = { operator c cs with rest := (operator c cs).rest ++ more } := by
  cases cs with
  | nil => exact absurd rfl (sound (.loneOperator c))
  | cons x xs =>
    by_cases again : x = c
    · simp [operator, again]
    · exact absurd (by simp [operator, again]) (sound (.loneOperator c))

theorem number_append_delimiter (cs : List Char) {d : Char} (delimiter : isDelimiter d = true)
    (more : List Char) :
    number (cs ++ d :: more) = { number cs with rest := (number cs).rest ++ d :: more } := by
  have taken : (cs ++ d :: more).takeWhile (fun c => !isDelimiter c) =
      cs.takeWhile fun c => !isDelimiter c := by
    rw [List.takeWhile_append]
    split
    · rename_i all
      simp [delimiter, (List.takeWhile_prefix _).eq_of_length all]
    · rfl
  have left : (cs ++ d :: more).dropWhile (fun c => !isDelimiter c) =
      cs.dropWhile (fun c => !isDelimiter c) ++ d :: more := by
    rw [List.dropWhile_append]
    split
    · rename_i none
      simp_all
    · rfl
  simp only [number, taken, left]

theorem word_append_delimiter {cs : List Char} (sound : (word cs).IsSound) {d : Char}
    (delimiter : isDelimiter d = true) (more : List Char) :
    word (cs ++ d :: more) = { word cs with rest := (word cs).rest ++ d :: more } := by
  have none : (Word.scan .plain cs).problem = none := by
    cases problem : (Word.scan .plain cs).problem with
    | none => rfl
    | some e => exact absurd (by simp [word, problem]) (sound e)
  simp only [word, Word.scan_append_delimiter none delimiter]

/-- A sound token does not change when a delimiter and more follow the source. -/
theorem ofSource_append_delimiter {c : Char} {cs : List Char} (sound : (ofSource c cs).IsSound)
    {d : Char} (delimiter : isDelimiter d = true) (more : List Char) :
    ofSource c (cs ++ d :: more) =
      { ofSource c cs with rest := (ofSource c cs).rest ++ d :: more } := by
  have reader := reader_ofSource c
  generalize ofSource c = read at *
  cases reader with
  | single => rfl
  | operator => exact operator_append_delimiter sound _
  | number => exact number_append_delimiter (c :: cs) delimiter more
  | word => exact word_append_delimiter sound delimiter more

end Lexeme

namespace Token

def IsSound (t : Token) : Prop :=
  ∀ e, t.kind ≠ .error e

namespace Scans

variable {path : String} {before a : List Char} {segments : List Segment}

/-- The last gap of a run is where it can be taken up again behind a delimiter. -/
theorem resume (h : Scans path before a segments) (sound : ∀ s ∈ segments, s.token.IsSound)
    {d : Char} (delimiter : isDelimiter d = true) (more : List Char) :
    ∃ front gap body, a = front ++ gap ∧ Gap gap [] ∧
      segments = body ++ [⟨String.ofList gap, ending path (before ++ a)⟩] ∧
      ∀ tail, Scans path (before ++ front) (gap ++ d :: more) tail →
        Scans path before (a ++ d :: more) (body ++ tail) := by
  induction h with
  | @finish before gap shape =>
    refine ⟨[], gap, [], rfl, shape, rfl, ?_⟩
    intro tail run
    simpa using run
  | @token before gap cs c segments shape blank plain _ ih =>
    have first : (Lexeme.ofSource c cs).IsSound := sound _ List.mem_cons_self
    have longer := Lexeme.ofSource_append_delimiter first delimiter more
    have raw : (Lexeme.ofSource c (cs ++ d :: more)).raw = (Lexeme.ofSource c cs).raw := by
      rw [longer]
    have rest : (Lexeme.ofSource c (cs ++ d :: more)).rest =
        (Lexeme.ofSource c cs).rest ++ d :: more := by
      rw [longer]
    obtain ⟨front, last, body, split, shape', segs, go⟩ :=
      ih fun s hs => sound s (List.mem_cons_of_mem _ hs)
    have whole := behind_token before gap c cs
    refine ⟨gap ++ (Lexeme.ofSource c cs).raw ++ front, last,
      ⟨String.ofList gap, starting path (before ++ gap) c cs⟩ :: body, ?_, shape', ?_, ?_⟩
    · rw [List.append_assoc, ← split, List.append_assoc, Lexeme.ofSource_append]
    · rw [segs, whole, List.cons_append]
    · intro tail run
      have later := go tail (by simpa [List.append_assoc] using run)
      have gap' : Gap gap (c :: (cs ++ d :: more)) := shape.of_head rfl
      have token : starting path (before ++ gap) c (cs ++ d :: more) =
          starting path (before ++ gap) c cs := by
        simp only [starting, longer]
      rw [← raw, ← rest] at later
      have run' := Scans.token gap' blank plain later
      rw [token] at run'
      simpa using run'

/-- The same source behind other characters: only places differ. -/
theorem move (h : Scans path before a segments) (path' : String) (before' : List Char) :
    ∃ segments', Scans path' before' a segments' ∧
      segments'.map (fun s => (s.gap, s.token.kind, s.token.lexeme)) =
        segments.map fun s => (s.gap, s.token.kind, s.token.lexeme) := by
  induction h generalizing before' with
  | finish shape => exact ⟨_, .finish shape, rfl⟩
  | @token before gap cs c segments shape blank plain _ ih =>
    obtain ⟨segments', run, same⟩ := ih (before' ++ gap ++ (Lexeme.ofSource c cs).raw)
    refine ⟨_, .token shape blank plain run, ?_⟩
    rw [List.map_cons, List.map_cons, same]
    rfl

end Scans

end Token

end LineShell
