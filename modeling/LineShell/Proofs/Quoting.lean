import LineShell.Proofs.Tiling

/-!
Words piece by piece: a word is a concatenation of plain characters and quoted parts, and its value
is the concatenation of their values. The scanner reads exactly such texts without a problem.
-/

namespace LineShell

theorem Quote.ofChar?_char (q : Quote) : Quote.ofChar? q.char = some q := by
  cases q <;> decide

theorem Quote.ofChar?_eq_some_iff {c : Char} {q : Quote} :
    Quote.ofChar? c = some q ↔ c = q.char := by
  constructor
  · intro h
    have found := List.find?_some (p := fun q : Quote => q.char == c) h
    exact (beq_iff_eq.mp found).symm
  · rintro rfl
    exact q.ofChar?_char

namespace Word

/-- What stands behind a backslash between double or back quotes, and what it means. -/
def escapes : List (Char × Char) :=
  [('e', '\x1b'), ('n', '\n'), ('r', '\r'), ('t', '\t'), ('v', '\x0b'), ('b', '\x08'),
    ('f', '\x0c'), ('\\', '\\'), ('\x27', '\x27'), ('\x22', '\x22'), ('\x60', '\x60')]

inductive Item where
  | literal (c : Char)
  | escaped (c value : Char)

namespace Item

def raw : Item → List Char
  | literal c => [c]
  | escaped c _ => ['\\', c]

def value : Item → Char
  | literal c => c
  | escaped _ value => value

/-- Nothing is escaped between single quotes, and only back quotes hold newlines. -/
def Allowed (q : Quote) : Item → Prop
  | literal c => c ≠ q.char ∧ (c = '\\' → q = .single) ∧ (c = '\n' → q = .back)
  | escaped c value => q ≠ .single ∧ (c, value) ∈ escapes

end Item

inductive Piece where
  | plain (c : Char)
  | quoted (q : Quote) (items : List Item)

namespace Piece

def raw : Piece → List Char
  | plain c => [c]
  | quoted q items => q.char :: items.flatMap Item.raw ++ [q.char]

def value : Piece → List Char
  | plain c => [c]
  | quoted _ items => items.map Item.value

def WellFormed : Piece → Prop
  | plain c => isDelimiter c = false ∧ ∀ q : Quote, c ≠ q.char
  | quoted q items => ∀ i ∈ items, i.Allowed q

end Piece

def rawText (pieces : List Piece) : List Char :=
  pieces.flatMap Piece.raw

def valueText (pieces : List Piece) : List Char :=
  pieces.flatMap Piece.value

/-- A delimiter, or the end. -/
def Ends (rest : List Char) : Prop :=
  ∀ c ∈ rest.head?, isDelimiter c = true

/-- A result with more read before it. -/
def Scanned.after (s : Scanned) (raw value : List Char) : Scanned :=
  { s with value := value ++ s.value, raw := raw ++ s.raw }

theorem scan_take {mode next : Mode} {c : Char} {value : List Char}
    (h : mode.move c = .take next value none) (cs : List Char) :
    scan mode (c :: cs) = (scan next cs).after [c] value := by
  simp [scan, h, Scanned.after]

theorem scan_ends {rest : List Char} (h : Ends rest) : scan .plain rest = ⟨[], none, [], rest⟩ := by
  cases rest with
  | nil => rfl
  | cons c cs =>
    have delimiter : isDelimiter c = true := h c rfl
    simp [scan, Mode.move, delimiter]

theorem move_plain {c : Char} (h : (Piece.plain c).WellFormed) :
    Mode.plain.move c = .take .plain [c] none := by
  have other : Quote.ofChar? c = none := by
    cases hq : Quote.ofChar? c with
    | none => rfl
    | some q => exact absurd (Quote.ofChar?_eq_some_iff.mp hq) (h.2 q)
  simp [Mode.move, h.1, other]

theorem move_open (q : Quote) : Mode.plain.move q.char = .take (.inside q) [] none := by
  cases q <;> decide

theorem move_close (q : Quote) : (Mode.inside q).move q.char = .take .plain [] none := by
  cases q <;> decide

theorem move_literal {q : Quote} {c : Char} (h : (Item.literal c).Allowed q) :
    (Mode.inside q).move c = .take (.inside q) [c] none := by
  obtain ⟨other, backslash, newline⟩ := h
  have line : ¬(c = '\n' ∧ (!q.spansLines) = true) := by
    rintro ⟨hc, spans⟩
    rw [newline hc] at spans
    cases spans
  have noEscape : ¬(c = '\\' ∧ q.escapes = true) := by
    rintro ⟨hc, escapes⟩
    rw [backslash hc] at escapes
    cases escapes
  simp only [Mode.move, if_neg line, if_neg other, if_neg noEscape]

theorem move_backslash {q : Quote} (h : q ≠ .single) :
    (Mode.inside q).move '\\' = .take (.escape q) [] none := by
  cases q with
  | single => exact absurd rfl h
  | double => decide
  | back => decide

theorem move_escaped {c value : Char} (h : (c, value) ∈ escapes) (q : Quote) :
    (Mode.escape q).move c = .take (.inside q) [value] none := by
  simp only [escapes, List.mem_cons, Prod.mk.injEq, List.not_mem_nil, or_false] at h
  rcases h with ⟨rfl, rfl⟩ | ⟨rfl, rfl⟩ | ⟨rfl, rfl⟩ | ⟨rfl, rfl⟩ | ⟨rfl, rfl⟩ | ⟨rfl, rfl⟩ |
    ⟨rfl, rfl⟩ | ⟨rfl, rfl⟩ | ⟨rfl, rfl⟩ | ⟨rfl, rfl⟩ | ⟨rfl, rfl⟩ <;> rfl

theorem Scanned.after_after (s : Scanned) (raw value raw' value' : List Char) :
    (s.after raw value).after raw' value' = s.after (raw' ++ raw) (value' ++ value) := by
  simp [Scanned.after]

theorem scan_item {q : Quote} {i : Item} (h : i.Allowed q) (tail : List Char) :
    scan (.inside q) (i.raw ++ tail) = (scan (.inside q) tail).after i.raw [i.value] := by
  cases i with
  | literal c => exact scan_take (move_literal h) tail
  | escaped c value =>
    change scan (.inside q) ('\\' :: c :: tail) = _
    rw [scan_take (move_backslash h.1), scan_take (move_escaped h.2 q), Scanned.after_after]
    rfl

theorem scan_items {q : Quote} {items : List Item} (h : ∀ i ∈ items, i.Allowed q)
    (tail : List Char) :
    scan (.inside q) (items.flatMap Item.raw ++ tail) =
      (scan (.inside q) tail).after (items.flatMap Item.raw) (items.map Item.value) := by
  induction items with
  | nil => rfl
  | cons i items ih =>
    have rest := ih fun j hj => h j (List.mem_cons_of_mem _ hj)
    rw [List.flatMap_cons, List.append_assoc, scan_item (h i List.mem_cons_self), rest,
      Scanned.after_after]
    rfl

theorem scan_piece {p : Piece} (h : p.WellFormed) (tail : List Char) :
    scan .plain (p.raw ++ tail) = (scan .plain tail).after p.raw p.value := by
  cases p with
  | plain c => exact scan_take (move_plain h) tail
  | quoted q items =>
    have opened : (Piece.quoted q items).raw ++ tail =
        q.char :: (items.flatMap Item.raw ++ q.char :: tail) := by
      simp [Piece.raw]
    rw [opened, scan_take (move_open q), scan_items h, scan_take (move_close q),
      Scanned.after_after, Scanned.after_after]
    simp [Piece.raw, Piece.value]

theorem scan_pieces {pieces : List Piece} (h : ∀ p ∈ pieces, p.WellFormed) (tail : List Char) :
    scan .plain (rawText pieces ++ tail) =
      (scan .plain tail).after (rawText pieces) (valueText pieces) := by
  induction pieces with
  | nil => rfl
  | cons p pieces ih =>
    have rest := ih fun r hr => h r (List.mem_cons_of_mem _ hr)
    rw [rawText, List.flatMap_cons, List.append_assoc, scan_piece (h p List.mem_cons_self)]
    rw [← rawText, rest, Scanned.after_after]
    rfl

/- What is left of a word in each mode: pieces, behind the rest of an open quote. -/
inductive Remains : Mode → List Char → List Char → Prop where
  | plain {pieces : List Piece} :
      (∀ p ∈ pieces, p.WellFormed) → Remains .plain (rawText pieces) (valueText pieces)
  | inside {q : Quote} {items : List Item} {raw value : List Char} :
      (∀ i ∈ items, i.Allowed q) → Remains .plain raw value →
      Remains (.inside q) (items.flatMap Item.raw ++ q.char :: raw) (items.map Item.value ++ value)
  | escape {q : Quote} {c d : Char} {raw value : List Char} :
      (c, d) ∈ escapes → Remains (.inside q) raw value → Remains (.escape q) (c :: raw) (d :: value)

theorem Remains.piece {p : Piece} {raw value : List Char} (h : p.WellFormed)
    (rest : Remains .plain raw value) : Remains .plain (p.raw ++ raw) (p.value ++ value) := by
  cases rest with
  | @plain pieces wellFormed =>
    have all : ∀ r ∈ p :: pieces, r.WellFormed := by
      intro r hr
      rcases List.mem_cons.mp hr with rfl | hr
      · exact h
      · exact wellFormed r hr
    exact .plain all

theorem Remains.item {q : Quote} {i : Item} {raw value : List Char} (h : i.Allowed q)
    (rest : Remains (.inside q) raw value) :
    Remains (.inside q) (i.raw ++ raw) (i.value :: value) := by
  cases rest with
  | @inside _ items raw value allowed rest =>
    have all : ∀ j ∈ i :: items, j.Allowed q := by
      intro j hj
      rcases List.mem_cons.mp hj with rfl | hj
      · exact h
      · exact allowed j hj
    simpa using Remains.inside all rest

theorem Remains.opened {q : Quote} {raw value : List Char} (rest : Remains (.inside q) raw value) :
    Remains .plain (q.char :: raw) value := by
  cases rest with
  | @inside _ items raw value allowed rest =>
    simpa [Piece.raw, Piece.value] using
      Remains.piece (p := .quoted q items) allowed rest

theorem mem_escapes {c d : Char} (h : unescape? c = some d) : (c, d) ∈ escapes := by
  unfold unescape? at h
  split at h
  all_goals cases h
  all_goals decide

theorem mem_escapes_self {c : Char} (h : c = '\\' ∨ (Quote.ofChar? c).isSome = true) :
    (c, c) ∈ escapes := by
  rcases h with rfl | quote
  · decide
  · obtain ⟨q, hq⟩ := Option.isSome_iff_exists.mp quote
    rw [Quote.ofChar?_eq_some_iff.mp hq]
    cases q <;> decide

/- One character of a word without a problem: the step that the run below repeats. -/
theorem Remains.take {mode next : Mode} {c : Char} {value raw rest : List Char}
    (h : mode.move c = .take next value none) (remains : Remains next raw rest) :
    Remains mode (c :: raw) (value ++ rest) := by
  cases mode with
  | plain =>
    simp only [Mode.move] at h
    split at h
    · cases h
    · rename_i delimiter
      split at h
      · rename_i q hq
        cases h
        rw [Quote.ofChar?_eq_some_iff.mp hq]
        exact remains.opened
      · rename_i other
        cases h
        have wellFormed : (Piece.plain c).WellFormed := by
          refine ⟨by simpa using delimiter, ?_⟩
          rintro q rfl
          rw [q.ofChar?_char] at other
          cases other
        exact remains.piece wellFormed
  | inside q =>
    simp only [Mode.move] at h
    split at h
    · cases h
    rename_i line
    split at h
    · rename_i closes
      cases h
      rw [closes]
      exact @Remains.inside q [] _ _ (by simp) remains
    rename_i other
    split at h
    · rename_i backslash
      cases h
      obtain ⟨rfl, quote⟩ := backslash
      cases remains with
      | @escape _ c d raw value known rest =>
        have allowed : (Item.escaped c d).Allowed q := ⟨bne_iff_ne.mp quote, known⟩
        exact rest.item allowed
    · rename_i noEscape
      cases h
      have allowed : (Item.literal c).Allowed q := by
        refine ⟨other, ?_, ?_⟩
        · intro backslash
          simpa [backslash, Quote.escapes] using noEscape
        · intro newline
          simpa [newline, Quote.spansLines] using line
      exact remains.item allowed
  | escape q =>
    simp only [Mode.move] at h
    split at h
    · cases h
    rename_i line
    split at h
    · rename_i itself
      cases h
      exact .escape (mem_escapes_self itself) remains
    · split at h
      · rename_i d hd
        cases h
        exact .escape (mem_escapes hd) remains
      · cases h

theorem move_stop {mode : Mode} {c : Char} (h : mode.move c = .stop none) :
    mode = .plain ∧ isDelimiter c = true := by
  cases mode with
  | plain =>
    simp only [Mode.move] at h
    split at h
    · exact ⟨rfl, ‹_›⟩
    · split at h <;> cases h
  | inside q =>
    simp only [Mode.move] at h
    split at h
    · cases h
    split at h
    · cases h
    split at h <;> cases h
  | escape q =>
    simp only [Mode.move] at h
    split at h
    · cases h
    split at h
    · cases h
    split at h <;> cases h

theorem Remains.scan {mode : Mode} {source : List Char} (h : (scan mode source).problem = none) :
    Remains mode (scan mode source).raw (scan mode source).value ∧
      Ends (scan mode source).rest := by
  induction source generalizing mode with
  | nil =>
    cases mode with
    | plain => exact ⟨@Remains.plain [] (by simp), by simp [Word.scan, Ends]⟩
    | inside q => cases h
    | escape q => cases h
  | cons c cs ih =>
    cases hmove : mode.move c with
    | stop problem =>
      simp only [Word.scan, hmove] at h ⊢
      subst h
      obtain ⟨rfl, delimiter⟩ := move_stop hmove
      exact ⟨@Remains.plain [] (by simp), by simpa [Ends] using delimiter⟩
    | take next value problem =>
      simp only [Word.scan, hmove, Option.orElse_eq_orElse] at h ⊢
      obtain ⟨rfl, none⟩ : problem = none ∧ (Word.scan next cs).problem = none := by
        cases problem with
        | none => exact ⟨rfl, h⟩
        | some e => cases h
      obtain ⟨remains, ends⟩ := ih none
      exact ⟨remains.take hmove, ends⟩

/- A word without a problem is what its pieces say, in one way only. -/
theorem scan_problem_eq_none_iff {source : List Char} :
    (scan .plain source).problem = none ↔
      ∃ pieces rest, source = rawText pieces ++ rest ∧ (∀ p ∈ pieces, p.WellFormed) ∧
        Ends rest := by
  constructor
  · intro h
    obtain ⟨remains, ends⟩ := Remains.scan h
    have whole := scan_append .plain source
    generalize (scan .plain source).raw = raw at remains whole
    generalize (scan .plain source).value = value at remains
    cases remains with
    | @plain pieces wellFormed => exact ⟨pieces, _, whole.symm, wellFormed, ends⟩
  · rintro ⟨pieces, rest, rfl, wellFormed, ends⟩
    rw [scan_pieces wellFormed, scan_ends ends]
    rfl

/-- A source that starts with a word, with what stands behind the word. -/
structure Spells (pieces : List Piece) (rest source : List Char) : Prop where
  text : source = rawText pieces ++ rest
  nonempty : pieces ≠ []
  wellFormed : ∀ p ∈ pieces, p.WellFormed
  ends : Ends rest

/-- The kind of a word, by its text in the source. -/
structure Kinded (raw : String) (kind : Kind) : Prop where
  keyword : ∀ k, kind = .keyword k ↔ raw = k.word
  bareWord : kind = .bareWord ↔ (∀ c ∈ raw.toList, c.isAlpha = true) ∧ ∀ k : Keyword, raw ≠ k.word
  equals : kind = .equals ↔ raw = "="
  word : kind = .word ↔
    ¬(∀ c ∈ raw.toList, c.isAlpha = true) ∧ (∀ k : Keyword, raw ≠ k.word) ∧ raw ≠ "="

end Word

theorem Keyword.ofWord?_eq_some_iff {text : String} {k : Keyword} :
    Keyword.ofWord? text = some k ↔ text = k.word := by
  constructor
  · intro h
    have found := List.find?_some (p := fun k : Keyword => k.word == text) h
    exact (beq_iff_eq.mp found).symm
  · rintro rfl
    cases k <;> decide

theorem Keyword.alphabetic (k : Keyword) : ∀ c ∈ k.word.toList, c.isAlpha = true := by
  have letters : k.word.toList.all Char.isAlpha = true := by cases k <;> decide
  exact List.all_eq_true.mp letters

namespace Word

theorem kind_eq_keyword_iff {raw : List Char} {k : Keyword} :
    kind raw = .keyword k ↔ String.ofList raw = k.word := by
  constructor
  · intro h
    unfold kind at h
    split at h
    · split at h
      · rename_i found
        cases h
        exact Keyword.ofWord?_eq_some_iff.mp found
      · cases h
    · split at h <;> cases h
  · intro h
    have letters : raw.all Char.isAlpha = true := by
      rw [← String.toList_ofList (l := raw), h, List.all_eq_true]
      exact k.alphabetic
    have found := Keyword.ofWord?_eq_some_iff.mpr h
    simp [kind, letters, found]

theorem kind_eq_bareWord_iff {raw : List Char} :
    kind raw = .bareWord ↔
      (∀ c ∈ raw, c.isAlpha = true) ∧ ∀ k : Keyword, String.ofList raw ≠ k.word := by
  unfold kind
  split
  · rename_i letters
    split
    · rename_i k found
      have keyword := Keyword.ofWord?_eq_some_iff.mp found
      simp only [reduceCtorEq, false_iff]
      exact fun h => h.2 k keyword
    · rename_i missing
      simp only [true_iff]
      refine ⟨List.all_eq_true.mp letters, ?_⟩
      intro k keyword
      rw [Keyword.ofWord?_eq_some_iff.mpr keyword] at missing
      cases missing
  · rename_i other
    have mixed : ¬ ∀ c ∈ raw, c.isAlpha = true := fun h => other (List.all_eq_true.mpr h)
    split <;> simp [mixed]

theorem kind_eq_equals_iff {raw : List Char} : kind raw = .equals ↔ raw = ['='] := by
  unfold kind
  split
  · rename_i letters
    have other : raw ≠ ['='] := by
      rintro rfl
      cases letters
    split <;> simp [other]
  · split
    · rename_i equals
      simp [equals]
    · rename_i other
      simp [other]

theorem kind_eq_word_iff {raw : List Char} :
    kind raw = .word ↔
      (∀ k, kind raw ≠ .keyword k) ∧ kind raw ≠ .bareWord ∧ kind raw ≠ .equals := by
  rcases kind_cases raw with ⟨k, h⟩ | h | h | h <;> simp [h]

theorem kinded_kind (raw : List Char) : Kinded (String.ofList raw) (kind raw) := by
  have equals : kind raw = .equals ↔ String.ofList raw = "=" := by
    rw [kind_eq_equals_iff]
    exact ⟨fun h => congrArg String.ofList h, fun h => String.ofList_injective h⟩
  have bareWord : kind raw = .bareWord ↔
      (∀ c ∈ (String.ofList raw).toList, c.isAlpha = true) ∧
        ∀ k : Keyword, String.ofList raw ≠ k.word := by
    rw [String.toList_ofList]
    exact kind_eq_bareWord_iff
  refine ⟨fun k => kind_eq_keyword_iff, bareWord, equals, ?_⟩
  rw [kind_eq_word_iff, ne_eq, ne_eq, bareWord, equals]
  simp only [ne_eq, kind_eq_keyword_iff]
  grind

/-- The characters at which a word starts, where a token starts at all. -/
def StartsWord (c : Char) : Prop :=
  isDelimiter c = false ∧ c ≠ '#' ∧ c.isDigit = false

theorem ofSource_eq_word {c : Char} (h : StartsWord c) (cs : List Char) :
    Lexeme.ofSource c cs = Lexeme.word (c :: cs) := by
  obtain ⟨delimiter, _, digit⟩ := h
  simp only [isDelimiter, Bool.or_eq_false_iff, beq_eq_false_iff_ne] at delimiter
  simp [Lexeme.ofSource, delimiter, digit]

theorem Spells.word {pieces : List Piece} {rest source : List Char}
    (h : Spells pieces rest source) :
    Lexeme.word source = ⟨kind (rawText pieces), valueText pieces, rawText pieces, rest⟩ := by
  simp [Lexeme.word, h.text, scan_pieces h.wellFormed, scan_ends h.ends, Scanned.after]

theorem spells_of_kind {c : Char} {cs : List Char} (starts : StartsWord c)
    (h : ∀ e, (Lexeme.word (c :: cs)).kind ≠ .error e) :
    ∃ pieces rest, Spells pieces rest (c :: cs) := by
  have clean : (scan .plain (c :: cs)).problem = none := by
    cases hp : (scan .plain (c :: cs)).problem with
    | none => rfl
    | some e => exact absurd (by simp [Lexeme.word, hp]) (h e)
  obtain ⟨pieces, rest, text, wellFormed, ends⟩ := scan_problem_eq_none_iff.mp clean
  refine ⟨pieces, rest, text, ?_, wellFormed, ends⟩
  -- Without a piece the word would start at what ends it.
  rintro rfl
  have delimiter : isDelimiter c = true := by
    cases text
    exact ends c rfl
  rw [starts.1] at delimiter
  cases delimiter

theorem kind_ne_error (raw : List Char) (e : LexError) : kind raw ≠ .error e := by
  rcases kind_cases raw with ⟨k, h⟩ | h | h | h <;> simp [h]

end Word

/-- Where a word starts, its token is no error exactly if the source goes on with well-formed pieces
up to a delimiter or the end. The pieces then fix the span, the value and the kind. -/
theorem word_token (path source : String) (t : Token) (member : t ∈ Token.all path source)
    (c : Char) (cs : List Char)
    (text : slice source t.start source.utf8ByteSize = String.ofList (c :: cs))
    (starts : Word.StartsWord c) :
    ((∀ e, t.kind ≠ .error e) ↔ ∃ pieces rest, Word.Spells pieces rest (c :: cs)) ∧
    ∀ pieces rest, Word.Spells pieces rest (c :: cs) →
      t.raw = String.ofList (Word.rawText pieces) ∧
      t.stop = t.start + (String.ofList (Word.rawText pieces)).utf8ByteSize ∧
      t.lexeme = String.ofList (Word.valueText pieces) ∧
      Word.Kinded t.raw t.kind := by
  obtain ⟨s, hs, rfl⟩ := List.mem_map.mp member
  have lexeme : s.token.kind = (Lexeme.word (c :: cs)).kind ∧
      s.token.raw = String.ofList (Lexeme.word (c :: cs)).raw ∧
      s.token.lexeme = String.ofList (Lexeme.word (c :: cs)).value := by
    rcases (Token.scans_scan path source).mem s hs with token | ⟨front, d, ds, split, _, token⟩
    · rw [token, Token.start_ending, List.nil_append,
        slice_to_end source.toList [] (List.append_nil _).symm] at text
      cases String.ofList_injective text
    · rw [token, Token.start_starting, slice_to_end front (d :: ds) split] at text
      cases String.ofList_injective text
      rw [token, ← Word.ofSource_eq_word starts]
      exact ⟨rfl, rfl, rfl⟩
  obtain ⟨kind, raw, value⟩ := lexeme
  refine ⟨⟨?_, ?_⟩, ?_⟩
  · intro clean
    rw [kind] at clean
    exact Word.spells_of_kind starts clean
  · rintro ⟨pieces, rest, spells⟩ e
    rw [kind, spells.word]
    exact Word.kind_ne_error _ e
  · intro pieces rest spells
    rw [spells.word] at kind raw value
    refine ⟨raw, ?_, value, ?_⟩
    · rw [Token.stop, raw]
    · rw [kind, raw]
      exact Word.kinded_kind _

/- Three quotes, a quote inside another and an escape, all in one word. -/
theorem word_token_mixed :
    (⟨.word, "ab\"c\n=d", "a'b\"'\"c\\n\"=`d`", 0, ⟨"f", 1, 1⟩⟩ : Token) ∈
      Token.all "f" "a'b\"'\"c\\n\"=`d` z" ∧
    ∃ pieces rest, Word.Spells pieces rest "a'b\"'\"c\\n\"=`d` z".toList ∧
      String.ofList (Word.rawText pieces) = "a'b\"'\"c\\n\"=`d`" ∧
      String.ofList (Word.valueText pieces) = "ab\"c\n=d" := by
  have member : (⟨.word, "ab\"c\n=d", "a'b\"'\"c\\n\"=`d`", 0, ⟨"f", 1, 1⟩⟩ : Token) ∈
      Token.all "f" "a'b\"'\"c\\n\"=`d` z" := by decide +kernel
  have token := word_token "f" _ _ member 'a' "'b\"'\"c\\n\"=`d` z".toList (by decide +kernel)
    ⟨by decide, by decide, by decide⟩
  obtain ⟨pieces, rest, spells⟩ := token.1.mp (fun e => nofun)
  obtain ⟨raw, _, value, _⟩ := token.2 pieces rest spells
  exact ⟨member, pieces, rest, spells, raw.symm, value.symm⟩

end LineShell
