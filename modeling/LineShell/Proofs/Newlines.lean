import LineShell.Proofs.Places
import LineShell.Proofs.Quoting
import LineShell.Proofs.Seams
import Mathlib.Data.List.ModifyLast

/-!
Scanning goes line by line. In front of a newline a text has the tokens that it has alone, broken or
not; only a string that the end of the text leaves open exceeds its line instead. Behind the newline
scanning starts anew. Back quotes are the exception: what they leave open goes on.
-/

namespace LineShell

namespace Word

def Mode.quote? : Mode → Option Quote
  | plain => none
  | inside q | escape q => some q

/-- The mode behind some characters of a word. -/
def Mode.after : Mode → List Char → Mode
  | mode, [] => mode
  | mode, c :: cs =>
    match mode.move c with
    | .stop _ => mode
    | .take next _ _ => next.after cs

/-- The quote that a token of the given text leaves open. Only words have quotes. -/
def openQuote? : List Char → Option Quote
  | [] => none
  | c :: cs => if isDelimiter c || c.isDigit then none else (Mode.plain.after (c :: cs)).quote?

end Word

/-- Whether the end of a source is inside back quotes. -/
def endsInBackQuote (path source : String) : Bool :=
  (Token.all path source).any fun t =>
    t.stop == source.utf8ByteSize && Word.openQuote? t.raw.toList == some .back

/-- What becomes of a problem at the end of a text if a newline follows. -/
def LexError.beforeNewline : LexError → LexError
  | unterminatedString => stringExceedsLine
  | e => e

def Kind.beforeNewline : Kind → Kind
  | error e => error e.beforeNewline
  | kind => kind

def Token.beforeNewline (t : Token) : Token :=
  { t with kind := t.kind.beforeNewline }

/-- The same token behind further bytes and rows. -/
def Token.moved (bytes rows : Nat) (t : Token) : Token :=
  { t with start := t.start + bytes, position.row := t.position.row + rows }

theorem Kind.beforeNewline_of_sound {kind : Kind} (sound : ∀ e, kind ≠ .error e) :
    kind.beforeNewline = kind := by
  cases kind with
  | error e => exact absurd rfl (sound e)
  | _ => rfl

namespace Word

def Move.problem : Move → Option LexError
  | stop problem | take _ _ problem => problem

/- No character leaves a string without its end; only the end of the source does. -/
theorem Mode.problem_move (mode : Mode) (c : Char) :
    (mode.move c).problem.map LexError.beforeNewline = (mode.move c).problem := by
  cases mode with
  | plain =>
    simp only [move]
    split
    · rfl
    · split <;> rfl
  | inside q =>
    simp only [move]
    split_ifs <;> rfl
  | escape q =>
    simp only [move]
    split_ifs
    · rfl
    · rfl
    · split <;> rfl

theorem Mode.move_newline {mode : Mode} (closed : mode.quote? ≠ some .back) :
    mode.move '\n' = .stop (mode.problemAtEnd.map LexError.beforeNewline) := by
  cases mode with
  | plain => rfl
  | inside q =>
    cases q with
    | back => exact absurd rfl closed
    | single | double => rfl
  | escape q =>
    cases q with
    | back => exact absurd rfl closed
    | single | double => rfl

/- A word that stops, or is outside back quotes at the end of the source, ends at a newline. -/
theorem scan_newline {mode : Mode} {cs : List Char}
    (closed : (scan mode cs).rest = [] → (mode.after (scan mode cs).raw).quote? ≠ some .back)
    (more : List Char) :
    scan mode (cs ++ '\n' :: more) =
      { scan mode cs with
        problem := (scan mode cs).problem.map LexError.beforeNewline
        rest := (scan mode cs).rest ++ '\n' :: more } := by
  induction cs generalizing mode with
  | nil =>
    have outside : mode.quote? ≠ some .back := closed rfl
    simp only [List.nil_append, scan, Mode.move_newline outside]
  | cons c cs ih =>
    have told := mode.problem_move c
    cases moved : mode.move c with
    | stop problem =>
      rw [moved] at told
      simp only [scan, moved, List.cons_append]
      rw [show problem.map LexError.beforeNewline = problem from told]
    | take next value problem =>
      rw [moved] at told
      simp only [scan, moved, Mode.after] at closed
      simp only [scan, moved, List.cons_append]
      rw [ih closed]
      have first : (problem <|> (scan next cs).problem).map LexError.beforeNewline =
          (problem <|> (scan next cs).problem.map LexError.beforeNewline) := by
        cases problem with
        | none => rfl
        | some e => exact told
      rw [first]

theorem scan_unterminated {mode : Mode} {cs : List Char}
    (h : (scan mode cs).problem = some .unterminatedString) : (scan mode cs).rest = [] := by
  induction cs generalizing mode with
  | nil => rfl
  | cons c cs ih =>
    have told := mode.problem_move c
    cases moved : mode.move c with
    | stop problem =>
      rw [moved] at told
      simp only [scan, moved] at h
      subst h
      cases told
    | take next value problem =>
      rw [moved] at told
      simp only [scan, moved] at h ⊢
      cases problem with
      | none => exact ih h
      | some e =>
        cases h
        cases told

end Word

namespace Lexeme

theorem kind_operator (c : Char) (cs : List Char) :
    (operator c cs).kind.beforeNewline = (operator c cs).kind := by
  unfold operator
  split
  · dsimp only
    split <;> rfl
  · rfl

theorem kind_number (source : List Char) :
    (number source).kind.beforeNewline = (number source).kind := by
  unfold number
  dsimp only
  split <;> rfl

/- A string is left without its end by the end of the source alone. -/
theorem kind_word {source : List Char} (more : (word source).rest ≠ []) :
    (word source).kind.beforeNewline = (word source).kind := by
  cases told : (Word.scan .plain source).problem with
  | none =>
    simp only [word, told]
    exact Kind.beforeNewline_of_sound (Word.kind_ne_error _)
  | some e =>
    simp only [word, told]
    cases e with
    | unterminatedString => exact absurd (Word.scan_unterminated told) more
    | _ => rfl

theorem kind_ofSource {c : Char} {cs : List Char} (more : (ofSource c cs).rest ≠ []) :
    (ofSource c cs).kind.beforeNewline = (ofSource c cs).kind := by
  have reader := reader_ofSource c
  generalize ofSource c = read at *
  cases reader with
  | single sound => exact Kind.beforeNewline_of_sound sound
  | operator => exact kind_operator c cs
  | number => exact kind_number (c :: cs)
  | word => exact kind_word more

/-- A token in front of a newline, by what it is at the end of a source. -/
def breaks (l : Lexeme) (more : List Char) : Lexeme :=
  { l with kind := l.kind.beforeNewline, rest := l.rest ++ '\n' :: more }

theorem operator_newline {c : Char} (connects : c = '&' ∨ c = '|') (cs more : List Char) :
    operator c (cs ++ '\n' :: more) = (operator c cs).breaks more := by
  rw [breaks, kind_operator]
  cases cs with
  | nil => rcases connects with rfl | rfl <;> rfl
  | cons x xs => by_cases again : x = c <;> simp [operator, again]

theorem number_newline (source more : List Char) :
    number (source ++ '\n' :: more) = (number source).breaks more := by
  rw [breaks, kind_number, number_append_delimiter source rfl]

theorem word_newline {source : List Char}
    (closed : (word source).rest = [] →
      (Word.Mode.plain.after (word source).raw).quote? ≠ some .back) (more : List Char) :
    word (source ++ '\n' :: more) = (word source).breaks more := by
  simp only [breaks, word, Word.scan_newline closed]
  cases (Word.scan .plain source).problem with
  | none => simp [Kind.beforeNewline_of_sound (Word.kind_ne_error _)]
  | some e => rfl

/-- Outside back quotes a token ends at a newline as it does at the end of a source. -/
theorem ofSource_newline {c : Char} {cs : List Char} (blank : isBlank c = false)
    (closed : (ofSource c cs).rest = [] → Word.openQuote? (ofSource c cs).raw ≠ some .back)
    (more : List Char) : ofSource c (cs ++ '\n' :: more) = (ofSource c cs).breaks more := by
  obtain ⟨chars, raw⟩ := ofSource_raw_eq_cons blank cs
  have reader := reader_ofSource c
  generalize ofSource c = read at *
  cases reader with
  | single sound => simp only [breaks, Kind.beforeNewline_of_sound sound]
  | operator connects => exact operator_newline connects cs more
  | number inside => exact number_newline (c :: cs) more
  | word inside digit =>
    have outside : (Lexeme.word (c :: cs)).rest = [] →
        (Word.Mode.plain.after (Lexeme.word (c :: cs)).raw).quote? ≠ some .back := by
      intro last
      have opened := closed last
      rw [raw, Word.openQuote?, inside, blank, digit] at opened
      rwa [show (Lexeme.word (c :: cs)).raw = c :: chars from raw]
    exact word_newline outside more

end Lexeme

namespace Cursor

/-- The same place behind further bytes and rows. -/
def moved (bytes rows : Nat) (k : Cursor) : Cursor :=
  ⟨k.offset + bytes, k.row + rows, k.column⟩

theorem pass_moved (bytes rows : Nat) (k : Cursor) (c : Char) :
    (k.moved bytes rows).pass c = (k.pass c).moved bytes rows := by
  unfold pass moved
  split
  · simp only [Cursor.mk.injEq, and_true]
    omega
  · simp only [Cursor.mk.injEq, and_true]
    omega

theorem passAll_moved (bytes rows : Nat) (k : Cursor) (cs : List Char) :
    (k.moved bytes rows).passAll cs = (k.passAll cs).moved bytes rows := by
  induction cs generalizing k with
  | nil => rfl
  | cons c cs ih =>
    change ((k.moved bytes rows).pass c).passAll cs = ((k.pass c).passAll cs).moved bytes rows
    rw [pass_moved, ih]

theorem position_moved (path : String) (bytes rows : Nat) (k : Cursor) (next : Option Char) :
    (k.moved bytes rows).position path next =
      { k.position path next with row := (k.position path next).row + rows } := by
  unfold position moved
  split
  · simp only [Position.mk.injEq, and_true, true_and]
    omega
  · rfl

/- Behind a newline the cursor is at the start of a row. -/
theorem passAll_newline (a : List Char) :
    Cursor.start.passAll (a ++ ['\n']) =
      Cursor.start.moved (String.utf8Len a + 1) (a.count '\n' + 1) := by
  have size : ('\n' : Char).utf8Size = 1 := rfl
  rw [passAll_start]
  simp [moved, start, lastLine, String.utf8Len_append, size]

end Cursor

/- A gap at the end of a text is one in front of a newline too. -/
theorem Gap.newline {gap : List Char} (h : Gap gap []) (more : List Char) :
    Gap gap ('\n' :: more) := by
  cases h with
  | blanks blanks => exact .blanks blanks
  | comment blanks line _ => exact .comment blanks line (by simp)

namespace Token

theorem beforeNewline_starting (path : String) (before : List Char) {c : Char} {cs : List Char}
    (more : (Lexeme.ofSource c cs).rest ≠ []) :
    (starting path before c cs).beforeNewline = starting path before c cs := by
  simp only [beforeNewline, starting, Lexeme.kind_ofSource more]

/- Of the tokens of a text only the last one meets the newline. -/
theorem beforeNewline_cons {t : Token} {ts : List Token} (inner : ts ≠ [] → t.beforeNewline = t) :
    t.beforeNewline :: ts.modifyLast beforeNewline = (t :: ts).modifyLast beforeNewline := by
  cases ts with
  | nil => rfl
  | cons u us =>
    have kept := List.modifyLast_append_of_right_ne_nil beforeNewline [t] (u :: us) (by simp)
    rw [inner (by simp)]
    exact kept.symm

theorem Scans.of_nil {path : String} {before : List Char} {segments : List Segment}
    (h : Scans path before [] segments) : segments = [⟨"", ending path before⟩] := by
  generalize empty : ([] : List Char) = source at h
  cases h with
  | finish => simp [← empty]
  | token => simp at empty

/-- A text in front of a newline has the tokens that it has alone, and behind it scanning starts
anew. -/
theorem Scans.line {path : String} {before a : List Char} {segments : List Segment}
    (h : Scans path before a segments)
    (closed : ∀ s ∈ segments, s.token.stop = String.utf8Len (before ++ a) →
      Word.openQuote? s.token.raw.toList ≠ some .back)
    {b : List Char} {tail : List Segment} (behind : Scans path (before ++ a ++ ['\n']) b tail) :
    ∃ body gap whole, segments = body ++ [⟨gap, ending path (before ++ a)⟩] ∧
      Scans path before (a ++ '\n' :: b) whole ∧
      whole.map Segment.token = (body.map Segment.token).modifyLast beforeNewline ++
        starting path (before ++ a) '\n' b :: tail.map Segment.token := by
  induction h with
  | @finish before gap shape =>
    have next := Scans.token (shape.newline b) rfl (by decide) behind
    exact ⟨[], _, _, rfl, next, rfl⟩
  | @token before gap cs c segments shape visible plain rest ih =>
    have split := behind_token before gap c cs
    have outside : (Lexeme.ofSource c cs).rest = [] →
        Word.openQuote? (Lexeme.ofSource c cs).raw ≠ some .back := by
      intro last
      have here := closed _ List.mem_cons_self
      rw [stop_starting, ← split, last, List.append_nil] at here
      simpa [starting] using here rfl
    have longer := Lexeme.ofSource_newline visible outside b
    rw [← split] at behind closed ⊢
    obtain ⟨body, last, whole, segs, run, tokens⟩ :=
      ih (fun s hs => closed s (List.mem_cons_of_mem _ hs)) behind
    have around : Gap gap (c :: (cs ++ '\n' :: b)) := shape.of_head rfl
    have later : Scans path (before ++ gap ++ (Lexeme.ofSource c (cs ++ '\n' :: b)).raw)
        (Lexeme.ofSource c (cs ++ '\n' :: b)).rest whole := by
      rw [longer]
      exact run
    have first : starting path (before ++ gap) c (cs ++ '\n' :: b) =
        (starting path (before ++ gap) c cs).beforeNewline := by
      simp only [starting, beforeNewline, longer, Lexeme.breaks]
    have next := Scans.token around visible plain later
    rw [first] at next
    refine ⟨⟨String.ofList gap, starting path (before ++ gap) c cs⟩ :: body, last, _,
      by rw [segs, List.cons_append], by simpa using next, ?_⟩
    -- With tokens behind it the first one does not reach the end of the text.
    have inner : body.map Segment.token ≠ [] →
        (starting path (before ++ gap) c cs).beforeNewline = starting path (before ++ gap) c cs := by
      intro others
      apply beforeNewline_starting
      intro empty
      rw [empty] at rest
      have single := congrArg List.length (segs.symm.trans rest.of_nil)
      have alone : body = [] := by simpa using single
      exact others (by rw [alone, List.map_nil])
    rw [List.map_cons, List.map_cons, tokens, ← beforeNewline_cons inner, List.cons_append]

theorem starting_newline (path : String) (before more : List Char) :
    starting path before '\n' more =
      ⟨.separator, "", "\n", String.utf8Len before, ⟨path, before.count '\n' + 2, 0⟩⟩ := by
  have row : 1 + before.count '\n' + 1 = before.count '\n' + 2 := by omega
  rw [starting, Cursor.passAll_start, ← row]
  rfl

theorem ending_moved (path : String) {front : List Char} {bytes rows : Nat}
    (base : Cursor.start.passAll front = Cursor.start.moved bytes rows) (before : List Char) :
    ending path (front ++ before) = (ending path before).moved bytes rows := by
  simp only [ending, moved, Cursor.passAll_append, base, Cursor.passAll_moved]
  rfl

theorem starting_moved (path : String) {front : List Char} {bytes rows : Nat}
    (base : Cursor.start.passAll front = Cursor.start.moved bytes rows) (before : List Char)
    (c : Char) (cs : List Char) :
    starting path (front ++ before) c cs = (starting path before c cs).moved bytes rows := by
  simp only [starting, moved, Cursor.passAll_append, base, Cursor.passAll_moved,
    Cursor.position_moved]
  rfl

/-- Behind whole rows a text has its own tokens, with their places moved. -/
theorem Scans.moved {path : String} {before b : List Char} {segments : List Segment}
    (h : Scans path before b segments) {front : List Char} {bytes rows : Nat}
    (base : Cursor.start.passAll front = Cursor.start.moved bytes rows) :
    Scans path (front ++ before) b
      (segments.map fun s => ⟨s.gap, s.token.moved bytes rows⟩) := by
  induction h with
  | @finish before gap shape =>
    have last := @Scans.finish path (front ++ before) gap shape
    rw [List.append_assoc, ending_moved path base] at last
    exact last
  | @token before gap cs c segments shape visible plain _ ih =>
    have next := @Scans.token path (front ++ before) gap cs c _ shape visible plain
      (by simpa using ih)
    rw [List.append_assoc, starting_moved path base] at next
    exact next

/-- Scanning composes at newlines. Outside back quotes the tokens in front of a newline are those of
the text there, with a string that is left open cut off by its line, and those behind it are the
tokens of the other text, moved to their rows. -/
theorem all_newline (path a b : String) (closed : endsInBackQuote path a = false) :
    all path (a ++ "\n" ++ b) =
      (all path a).dropLast.modifyLast beforeNewline ++
        ⟨.separator, "", "\n", a.utf8ByteSize, ⟨path, a.toList.count '\n' + 2, 0⟩⟩ ::
        (all path b).map (moved (a.utf8ByteSize + 1) (a.toList.count '\n' + 1)) := by
  have outside : ∀ s ∈ scan path a, s.token.stop = String.utf8Len ([] ++ a.toList) →
      Word.openQuote? s.token.raw.toList ≠ some .back := by
    intro s hs stops opened
    have there := List.any_eq_false.mp closed s.token (List.mem_map_of_mem hs)
    rw [List.nil_append, String.utf8Len_toList] at stops
    simp [stops, opened] at there
  have base := Cursor.passAll_newline a.toList
  have behind := (scans_scan path b).moved base
  rw [List.append_nil] at behind
  obtain ⟨body, gap, whole, segs, run, tokens⟩ := (scans_scan path a).line outside behind
  have source : (a ++ "\n" ++ b).toList = a.toList ++ '\n' :: b.toList := by simp
  have front : (all path a).dropLast = body.map Segment.token := by
    rw [all, segs, List.map_append]
    exact List.dropLast_concat
  have rows : (all path b).map (moved (a.utf8ByteSize + 1) (a.toList.count '\n' + 1)) =
      ((scan path b).map fun s => ⟨s.gap, s.token.moved (String.utf8Len a.toList + 1)
        (a.toList.count '\n' + 1)⟩).map Segment.token := by
    rw [all, List.map_map, List.map_map, String.utf8Len_toList]
    rfl
  rw [all, Scans.eq_scan (source ▸ run), tokens, starting_newline, front, rows, List.nil_append,
    String.utf8Len_toList]

/- A string that is left open, and a broken number behind the newline. -/
theorem all_newline_open :
    endsInBackQuote "f" "echo \"x" = false ∧
    all "f" ("echo \"x" ++ "\n" ++ "1a") =
      (all "f" "echo \"x").dropLast.modifyLast beforeNewline ++
        ⟨.separator, "", "\n", 7, ⟨"f", 2, 0⟩⟩ :: (all "f" "1a").map (moved 8 1) := by
  have closed : endsInBackQuote "f" "echo \"x" = false := by decide +kernel
  exact ⟨closed, all_newline "f" "echo \"x" "1a" closed⟩

end Token

end LineShell
