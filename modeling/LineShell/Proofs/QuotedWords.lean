import LineShell.Proofs.Joining
import LineShell.Proofs.Quoting

/-!
Quoted texts as words of the language. The table that a text is written with and the table that a
word is read with belong together, so a quoted text is one word and stands for the text, whatever
characters it holds; a command of quoted words is read with just these words.
-/

namespace LineShell

open Grammar Token

namespace Word

/-- How a character is written between double quotes. -/
def Item.ofChar (c : Char) : Item :=
  match Text.escapeLetter? c with
  | some letter => .escaped letter c
  | none => .literal c

theorem Item.raw_ofChar (c : Char) : (Item.ofChar c).raw = Text.escapeChar c := by
  unfold Item.ofChar Text.escapeChar
  cases Text.escapeLetter? c <;> rfl

theorem Item.value_ofChar (c : Char) : (Item.ofChar c).value = c := by
  unfold Item.ofChar
  cases Text.escapeLetter? c <;> rfl

/- Every letter that the writer puts behind a backslash is one that the reader knows. -/
theorem mem_escapes_of_escapeLetter? {c letter : Char}
    (h : Text.escapeLetter? c = some letter) : (letter, c) ∈ escapes := by
  unfold Text.escapeLetter? at h
  split at h
  all_goals cases h
  all_goals decide

/- The reader takes a character literally unless it closes the quote, starts an escape or breaks the
line, and the writer escapes all three. -/
theorem Item.allowed_ofChar (c : Char) : (Item.ofChar c).Allowed .double := by
  unfold Item.ofChar
  cases known : Text.escapeLetter? c with
  | some letter => exact ⟨nofun, mem_escapes_of_escapeLetter? known⟩
  | none =>
    have plain (d letter : Char) (escaped : Text.escapeLetter? d = some letter) : c ≠ d := by
      rintro rfl
      rw [escaped] at known
      cases known
    exact ⟨plain '\x22' '\x22' rfl, fun same => absurd same (plain '\\' '\\' rfl),
      fun same => absurd same (plain '\n' 'n' rfl)⟩

/-- A quoted text is a word of one piece. -/
def quotedPiece (w : String) : Piece :=
  .quoted .double (w.toList.map Item.ofChar)

theorem wellFormed_quotedPiece (w : String) : (quotedPiece w).WellFormed := by
  intro i member
  obtain ⟨c, _, rfl⟩ := List.mem_map.mp member
  exact Item.allowed_ofChar c

theorem raw_quotedPiece (w : String) : (quotedPiece w).raw = Text.quoteChars w.toList := by
  simp only [quotedPiece, Piece.raw, Text.quoteChars, List.flatMap_map, Item.raw_ofChar]
  rfl

theorem value_quotedPiece (w : String) : (quotedPiece w).value = w.toList := by
  simp [quotedPiece, Piece.value, Function.comp_def, Item.value_ofChar]

theorem spells_quoted (w : String) {rest : List Char} (ends : Ends rest) :
    Spells [quotedPiece w] rest (Text.quoteChars w.toList ++ rest) where
  text := by simp [rawText, raw_quotedPiece]
  nonempty := List.cons_ne_nil _ _
  wellFormed := by
    intro p member
    rw [List.mem_singleton.mp member]
    exact wellFormed_quotedPiece w
  ends := ends

/- Quotes are no letters, so quoting defeats keywords and the equals sign. -/
theorem kind_quoteChars (cs : List Char) : kind (Text.quoteChars cs) = .word := by
  have mixed : (Text.quoteChars cs).all Char.isAlpha = false := by
    have quote : Char.isAlpha '\x22' = false := rfl
    simp [Text.quoteChars, quote]
  have long : Text.quoteChars cs ≠ ['='] := by
    simp [Text.quoteChars]
  simp [kind, mixed, long]

end Word

/-- What stands behind the first quote of a quoted text. -/
def quotedTail (w : String) : List Char :=
  w.toList.flatMap Text.escapeChar ++ ['\x22']

theorem ofSource_quoted (w : String) {rest : List Char} (ends : Word.Ends rest) :
    Lexeme.ofSource '\x22' (quotedTail w ++ rest) =
      ⟨.word, w.toList, Text.quoteChars w.toList, rest⟩ := by
  have starts : Word.StartsWord '\x22' := ⟨by decide, by decide, by decide⟩
  have spells := (Word.spells_quoted w ends).word
  rw [Word.ofSource_eq_word starts]
  refine Eq.trans spells ?_
  simp [Word.rawText, Word.valueText, Word.raw_quotedPiece, Word.value_quotedPiece,
    Word.kind_quoteChars]

namespace Token

/-- The token of a quoted text behind the given characters. -/
def quoted (path : String) (before : List Char) (w : String) : Token :=
  let k := Cursor.start.passAll before
  ⟨.word, w, Text.quote w, k.offset, k.position path (some '\x22')⟩

/- No newline is written as itself, so a quoted text ends in the row that it starts in. -/
theorem newline_not_mem_quoteChars (cs : List Char) : '\n' ∉ Text.quoteChars cs := by
  have escaped (c : Char) : '\n' ∉ Text.escapeChar c := by
    unfold Text.escapeChar
    cases known : Text.escapeLetter? c with
    | none =>
      rw [List.mem_singleton]
      rintro rfl
      cases known
    | some letter =>
      have meant := Word.mem_escapes_of_escapeLetter? known
      simp only [List.mem_cons, List.not_mem_nil, or_false]
      rintro (same | rfl)
      · cases same
      · simp [Word.escapes] at meant
  simp [Text.quoteChars, escaped]

theorem ending_quote (path s : String) :
    ending path (Text.quote s).toList =
      ⟨.eof, "", "", (Text.quote s).utf8ByteSize, ⟨path, 1, (Text.quote s).length + 1⟩⟩ := by
  have line : '\n' ∉ (Text.quote s).toList := by
    simpa [Text.quote] using newline_not_mem_quoteChars s.toList
  have passed := Cursor.passAll_line .start line
  have size : String.utf8Len (Text.quote s).toList = (Text.quote s).utf8ByteSize := by
    rw [← String.utf8ByteSize_ofList, String.ofList_toList]
  simp only [ending, passed, size, String.length_toList]
  simp [Cursor.start, Cursor.position]

theorem starting_quoted (path : String) (before : List Char) (w : String) {rest : List Char}
    (ends : Word.Ends rest) :
    starting path before '\x22' (quotedTail w ++ rest) = quoted path before w := by
  simp [starting, quoted, ofSource_quoted w ends, Text.quote]

/-- The tokens of quoted texts that stand one blank apart. -/
def quotedAll (path : String) (before : List Char) : List String → List Token
  | [] => []
  | w :: ws => quoted path before w ::
      quotedAll path (before ++ Text.quoteChars w.toList ++ [' ']) ws

theorem lexeme_quotedAll (path : String) (before : List Char) (ws : List String) :
    (quotedAll path before ws).map Token.lexeme = ws := by
  induction ws generalizing before with
  | nil => rfl
  | cons w ws ih => rw [quotedAll, List.map_cons, ih]; rfl

theorem kind_quotedAll (path : String) (before : List Char) (ws : List String) :
    ∀ t ∈ quotedAll path before ws, t.kind = .word := by
  induction ws generalizing before with
  | nil => simp [quotedAll]
  | cons w ws ih =>
    intro t member
    rcases List.mem_cons.mp member with rfl | member
    · rfl
    · exact ih _ t member

/-- Quoted texts, one blank between them. -/
def quotedText (ws : List String) : List Char :=
  [' '].intercalate (ws.map fun w => Text.quoteChars w.toList)

theorem toList_intercalate_quote (ws : List String) :
    (String.intercalate " " (ws.map Text.quote)).toList = quotedText ws := by
  simp [quotedText, String.toList_intercalate, Function.comp_def, Text.quote]

theorem quotedText_cons (w : String) (ws : List String) :
    quotedText (w :: ws) = Text.quoteChars w.toList ++
      (if ws = [] then [] else ' ' :: quotedText ws) := by
  cases ws with
  | nil => simp [quotedText]
  | cons v ws => simp [quotedText, List.intercalate_cons_cons]

/- Scanning goes from word to word: each is read up to the blank behind it or the end, and that
blank is the gap in front of the next. -/
theorem scans_quotedText (path : String) (before : List Char) {gap : List Char}
    (blanks : ∀ c ∈ gap, isBlank c = true) (ws : List String) :
    ∃ segments, Scans path before (gap ++ quotedText ws) segments ∧
      segments.map Segment.token =
        quotedAll path (before ++ gap) ws ++ [ending path (before ++ (gap ++ quotedText ws))] := by
  induction ws generalizing before gap with
  | nil =>
    refine ⟨[⟨String.ofList gap, ending path (before ++ gap)⟩], ?_, ?_⟩
    · rw [show gap ++ quotedText [] = gap by simp [quotedText]]
      exact .finish (.blanks blanks)
    · simp [quotedAll, quotedText]
  | cons w ws ih =>
    have opened : Text.quoteChars w.toList = '\x22' :: quotedTail w := rfl
    -- The first token, for whatever scanning behind it comes to.
    have word {rest : List Char} {segments : List Segment} (ends : Word.Ends rest)
        (behind : Scans path (before ++ gap ++ Text.quoteChars w.toList) rest segments) :
        Scans path before (gap ++ (Text.quoteChars w.toList ++ rest))
          (⟨String.ofList gap, quoted path (before ++ gap) w⟩ :: segments) := by
      have lexeme := ofSource_quoted w ends
      rw [← starting_quoted path (before ++ gap) w ends, opened, List.cons_append]
      refine .token (.blanks blanks) rfl (by decide) ?_
      rw [lexeme]
      exact behind
    rw [quotedText_cons]
    by_cases last : ws = []
    · obtain ⟨segments, scans, tokens⟩ :=
        @ih (before ++ gap ++ Text.quoteChars w.toList) [] (by simp)
      subst last
      refine ⟨_, @word [] _ (by simp [Word.Ends]) scans, ?_⟩
      rw [List.map_cons, tokens]
      simp [quotedAll, quotedText]
    · obtain ⟨segments, scans, tokens⟩ :=
        @ih (before ++ gap ++ Text.quoteChars w.toList) [' '] (by simp [isBlank])
      rw [if_neg last]
      refine ⟨_, @word (' ' :: quotedText ws) _ ?_ scans, ?_⟩
      · simp [Word.Ends, isDelimiter, isBlank]
      · rw [List.map_cons, tokens]
        simp [quotedAll]

theorem sound_of_word {t : Token} (word : t.kind = .word) : t.IsSound := by
  simp [IsSound, word]

/- A source whose tokens are one action of the grammar parses to that action. -/
theorem parse_phrase {path source : String} {segments : List Segment} {t : Token}
    {ts : List Token} {a : Action} (scans : Scans path [] source.toList segments)
    (tokens : segments.map Segment.token = t :: ts ++ [ending path source.toList])
    (sound : ∀ u ∈ t :: ts, u.IsSound) (phrase : Phrase t ts a) :
    Statement.parse path source = .ok [.action t.position a] := by
  obtain ⟨body, gap, rfl⟩ := scans.split
  have same : body.map Segment.token = t :: ts := by
    rw [List.map_append] at tokens
    exact List.append_inj_left' tokens rfl
  have program : Grammar.Program (body.map Segment.token) [.action t.position a] := by
    rw [same]
    have one := Grammar.Program.statements .nil (.factor (.action phrase)) .nil .nil
    simpa using one
  refine (Yields.last scans ?_ program).parse
  intro s member
  exact sound _ (same ▸ List.mem_map_of_mem member)

theorem all_quote (path s : String) :
    Token.all path (Text.quote s) =
      [⟨.word, s, Text.quote s, 0, ⟨path, 1, 1⟩⟩,
        ⟨.eof, "", "", (Text.quote s).utf8ByteSize, ⟨path, 1, (Text.quote s).length + 1⟩⟩] := by
  obtain ⟨segments, scans, tokens⟩ := @scans_quotedText path [] [] (by simp) [s]
  have text : quotedText [s] = (Text.quote s).toList := by simp [quotedText, Text.quote]
  rw [List.nil_append, List.nil_append, List.nil_append, text] at tokens
  rw [List.nil_append, text] at scans
  rw [Token.all, scans.eq_scan, tokens, ending_quote]
  rfl

theorem parse_quotedText (path w : String) (ws : List String) :
    Statement.parse path (String.intercalate " " ((w :: ws).map Text.quote)) =
      .ok [.action ⟨path, 1, 1⟩ (.run w ws)] := by
  obtain ⟨segments, scans, tokens⟩ := @scans_quotedText path [] [] (by simp) (w :: ws)
  rw [List.nil_append, ← toList_intercalate_quote] at scans
  rw [List.nil_append, List.nil_append, List.nil_append, ← toList_intercalate_quote] at tokens
  have words := kind_quotedAll path [] (w :: ws)
  have phrase : Phrase (quoted path [] w) (quotedAll path _ ws) (.run w _) :=
    .run (.inl rfl) fun t member => .inl (.inl (words t (List.mem_cons_of_mem _ member)))
  have parsed := parse_phrase scans tokens (fun t member => sound_of_word (words t member)) phrase
  rw [lexeme_quotedAll] at parsed
  exact parsed

theorem ofSource_echo {rest : List Char} (ends : Word.Ends rest) :
    Lexeme.ofSource 'e' ("cho".toList ++ rest) =
      ⟨.keyword .echo, "echo".toList, "echo".toList, rest⟩ := by
  have starts : Word.StartsWord 'e' := ⟨by decide, by decide, by decide⟩
  have spells : Word.Spells ("echo".toList.map .plain) rest ("echo".toList ++ rest) := by
    refine ⟨rfl, by simp, ?_, ends⟩
    have letters :
        ("echo".toList.all fun c => !isDelimiter c && (Quote.ofChar? c).isNone) = true := by
      decide
    intro p member
    obtain ⟨c, letter, rfl⟩ := List.mem_map.mp member
    have bare := List.all_eq_true.mp letters c letter
    rw [Bool.and_eq_true, Bool.not_eq_true'] at bare
    refine ⟨bare.1, ?_⟩
    rintro q rfl
    have none := bare.2
    rw [q.ofChar?_char] at none
    cases none
  rw [Word.ofSource_eq_word starts]
  exact spells.word

theorem parse_echo_quotedText (path : String) (ws : List String) :
    Statement.parse path ("echo " ++ String.intercalate " " (ws.map Text.quote)) =
      .ok [.action ⟨path, 1, 1⟩ (.echo (String.join (ws.map (· ++ " "))))] := by
  have source : ("echo " ++ String.intercalate " " (ws.map Text.quote)).toList =
      'e' :: ("cho".toList ++ ' ' :: quotedText ws) := by
    rw [String.toList_append, toList_intercalate_quote]
    rfl
  have lexeme := @ofSource_echo (' ' :: quotedText ws) (by simp [Word.Ends, isDelimiter, isBlank])
  obtain ⟨segments, scans, tokens⟩ :=
    @scans_quotedText path "echo".toList [' '] (by simp [isBlank]) ws
  let key := starting path [] 'e' ("cho".toList ++ ' ' :: quotedText ws)
  have whole : Scans path [] ("echo " ++ String.intercalate " " (ws.map Text.quote)).toList
      (⟨"", key⟩ :: segments) := by
    rw [source]
    refine @Scans.token path [] [] _ 'e' segments (.blanks (by simp)) rfl (by decide) ?_
    rw [lexeme]
    exact scans
  have kind : key.kind = .keyword .echo := by simp only [key, starting, lexeme]
  have words := kind_quotedAll path ("echo".toList ++ [' ']) ws
  have sound : ∀ t ∈ key :: quotedAll path ("echo".toList ++ [' ']) ws, t.IsSound := by
    intro t member
    rcases List.mem_cons.mp member with rfl | member
    · simp [IsSound, kind]
    · exact sound_of_word (words t member)
  have phrase := Phrase.echo kind fun t member => .inl (.inl (words t member))
  have parsed := parse_phrase whole (by rw [List.map_cons, tokens, source]; rfl) sound phrase
  have message := congrArg (List.map (· ++ " "))
    (lexeme_quotedAll path ("echo".toList ++ [' ']) ws)
  rw [List.map_map] at message
  rw [parsed, ← message]
  rfl

end Token

/-- Quoting is sound for the language's own reader: a quoted text is one word token that stands for
the text, a command of quoted words has just these words, and `echo` of quoted words prints them. -/
theorem quote_words (path : String) :
    (∀ s, Token.all path (Text.quote s) =
      [⟨.word, s, Text.quote s, 0, ⟨path, 1, 1⟩⟩,
        ⟨.eof, "", "", (Text.quote s).utf8ByteSize, ⟨path, 1, (Text.quote s).length + 1⟩⟩]) ∧
    (∀ (w : String) (ws : List String),
      Statement.parse path (String.intercalate " " ((w :: ws).map Text.quote)) =
        .ok [.action ⟨path, 1, 1⟩ (.run w ws)]) ∧
    (∀ ws : List String,
      Statement.parse path ("echo " ++ String.intercalate " " (ws.map Text.quote)) =
        .ok [.action ⟨path, 1, 1⟩ (.echo (String.join (ws.map (· ++ " "))))]) :=
  ⟨all_quote path, parse_quotedText path, parse_echo_quotedText path⟩

end LineShell
