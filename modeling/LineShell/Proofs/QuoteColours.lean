import LineShell.Proofs.Colouring
import LineShell.Proofs.Newlines

/-!
The colours of a word against its quotes. The scanner reads an escape in two steps and the painter
in one, but between escapes both are always in the same quote, so that each character of a word has
the colour that the scanner's modes give it.
-/

namespace LineShell

/-- How a character of a word is shown. -/
inductive Shade where
  | plain
  | string
  | escape
  deriving DecidableEq

namespace Shade

/-- What is written to go on in a shade. -/
def sequence : Shade → String
  | plain => Ansi.reset
  | string => Highlighter.stringColour
  | escape => Highlighter.escapeColour

end Shade

/-- From one shade to another, a text shows characters, each in the shade that was set last. -/
inductive Inked : Shade → List Char → List (Char × Shade) → Shade → Prop where
  | nil {pen : Shade} : Inked pen [] [] pen
  | char {pen last : Shade} {text : List Char} {cells : List (Char × Shade)} (c : Char) :
      Inked pen text cells last → Inked pen (c :: text) ((c, pen) :: cells) last
  | change {pen last : Shade} {text : List Char} {cells : List (Char × Shade)} (next : Shade) :
      Inked next text cells last → Inked pen (next.sequence.toList ++ text) cells last

namespace Word

namespace Mode

/-- Not between a backslash and the character that it escapes. -/
def Settled (mode : Mode) : Prop :=
  ∀ q, mode ≠ escape q

/-- The shade that is set where nothing is escaped. -/
def shade : Mode → Shade
  | plain => .plain
  | inside _ | escape _ => .string

end Mode

/-- A character of a word, with the scanner's modes on both sides. -/
structure Pass where
  before : Mode
  char : Char
  after : Mode

namespace Pass

/-- A quote colours its ends and all between them, and an escape its backslash and the character
behind it. -/
def shade (p : Pass) : Shade :=
  match p.before, p.after with
  | .escape _, _ | _, .escape _ => .escape
  | .plain, .plain => .plain
  | _, _ => .string

def cell (p : Pass) : Char × Shade :=
  (p.char, p.shade)

end Pass

/-- The characters that the scanner takes from a mode on. -/
def passes : Mode → List Char → List Pass
  | _, [] => []
  | mode, c :: cs =>
    match mode.move c with
    | .stop _ => []
    | .take next _ _ => ⟨mode, c, next⟩ :: passes next cs

/-- The scanner takes characters without a problem and gets from one mode to another. -/
inductive Reads : Mode → List Char → Mode → Prop where
  | nil {mode : Mode} : Reads mode [] mode
  | cons {mode next last : Mode} {c : Char} {value cs : List Char} :
      mode.move c = .take next value none → Reads next cs last → Reads mode (c :: cs) last

end Word

namespace Shade

theorem toList_sequence (s : Shade) :
    s.sequence.toList = '\x1b' :: '[' ::
      match s with
      | .plain => ['0', 'm']
      | .string => ['9', '2', 'm']
      | .escape => ['9', '5', 'm'] := by
  cases s <;> rfl

theorem sequence_inj {s s' : Shade} {text more : List Char}
    (same : s.sequence.toList ++ text = s'.sequence.toList ++ more) : s = s' ∧ text = more := by
  rw [toList_sequence, toList_sequence] at same
  cases s <;> cases s' <;> simp_all

end Shade

namespace Inked

open Shade

variable {pen mid last last' : Shade} {text more : List Char} {cells others : List (Char × Shade)}

theorem append (h : Inked pen text cells mid) (rest : Inked mid more others last) :
    Inked pen (text ++ more) (cells ++ others) last := by
  induction h with
  | nil => exact rest
  | char c _ ih => exact .char c (ih rest)
  | change next _ ih =>
    rw [List.append_assoc]
    exact .change next (ih rest)

/- A bracket that does not follow an escape is shown. -/
theorem bracket (h : Inked pen ('[' :: text) cells last) :
    ∃ rest, cells = ('[', pen) :: rest := by
  generalize whole : '[' :: text = shown at h
  cases h with
  | nil => cases whole
  | @char _ _ text cells c h =>
    cases whole
    exact ⟨cells, rfl⟩
  | change next h =>
    rw [toList_sequence] at whole
    exact absurd (List.cons.inj whole).1 (by decide)

/- A shown escape in place of a sequence would have the bracket of the sequence behind it. -/
theorem not_sequence {next : Shade} {c : Char} (h : Inked pen text cells last)
    (free : ¬ ['\x1b', '['] <:+: c :: cells.map Prod.fst) :
    c :: text ≠ next.sequence.toList ++ more := by
  intro same
  rw [toList_sequence, List.cons_append, List.cons_append, List.cons.injEq] at same
  obtain ⟨rfl, rfl⟩ := same
  obtain ⟨rest, rfl⟩ := h.bracket
  exact free (List.prefix_append ['\x1b', '['] (rest.map Prod.fst)).isInfix

/-- A text whose characters hold no start of a sequence shows them in one way only. -/
theorem unique (h : Inked pen text cells last) (h' : Inked pen more others last')
    (same : text = more) (shown : cells.map Prod.fst = others.map Prod.fst)
    (free : ¬ ['\x1b', '['] <:+: cells.map Prod.fst) : cells = others ∧ last = last' := by
  induction h generalizing more others with
  | nil =>
    cases h' with
    | nil => exact ⟨rfl, rfl⟩
    | char => cases same
    | change next =>
      rw [toList_sequence] at same
      cases same
  | @char pen last text cells c h ih =>
    cases h' with
    | nil => cases same
    | @char _ _ _ _ c' h' =>
      obtain ⟨rfl, tails⟩ := List.cons.inj same
      have tail := ih h' tails (List.cons.inj shown).2
        fun inside => free (inside.trans (List.suffix_cons c _).isInfix)
      exact ⟨by rw [tail.1], tail.2⟩
    | change next h' => exact absurd same (h.not_sequence free)
  | @change pen last text cells next h ih =>
    cases h' with
    | nil =>
      rw [toList_sequence] at same
      cases same
    | @char _ _ _ _ c' h' =>
      rw [shown] at free
      exact absurd same.symm (h'.not_sequence free)
    | @change _ _ _ _ next' h' =>
      obtain ⟨rfl, tails⟩ := sequence_inj same
      exact ih h' tails shown free

end Inked

namespace Word

section Scanner

variable {mode next last : Mode} {c : Char} {cs front back value : List Char}

theorem passes_cons (h : mode.move c = .take next value none) (cs : List Char) :
    passes mode (c :: cs) = ⟨mode, c, next⟩ :: passes next cs := by
  rw [passes, h]

theorem Reads.map_char (h : Reads mode cs last) : (passes mode cs).map Pass.char = cs := by
  induction h with
  | nil => rfl
  | cons moved _ ih => rw [passes_cons moved, List.map_cons, ih]

theorem Reads.split (h : Reads mode (front ++ back) last) :
    ∃ mid, Reads mode front mid ∧ Reads mid back last := by
  induction front generalizing mode with
  | nil => exact ⟨mode, .nil, h⟩
  | cons c front ih =>
    cases h with
    | cons moved rest =>
      obtain ⟨mid, first, second⟩ := ih rest
      exact ⟨mid, .cons moved first, second⟩

/-- A word without a problem is read from its start to its end. -/
theorem reads_scan {source : List Char} (clean : (scan mode source).problem = none) :
    Reads mode (scan mode source).raw .plain := by
  induction source generalizing mode with
  | nil =>
    cases mode with
    | plain => exact .nil
    | inside q | escape q => cases clean
  | cons c cs ih =>
    cases moved : mode.move c with
    | stop problem =>
      simp only [scan, moved] at clean ⊢
      subst clean
      obtain ⟨rfl, -⟩ := move_stop moved
      exact .nil
    | take next value problem =>
      simp only [scan, moved, Option.orElse_eq_orElse] at clean ⊢
      cases problem with
      | some e => cases clean
      | none => exact .cons moved (ih clean)

/-- What a character does that is taken without a problem. -/
inductive Taken : Mode → Char → Mode → Prop where
  | plain {c : Char} : Quote.ofChar? c = none → Taken .plain c .plain
  | opens (q : Quote) : Taken .plain q.char (.inside q)
  | closes (q : Quote) : Taken (.inside q) q.char .plain
  | literal {q : Quote} {c : Char} :
      c ≠ q.char → ¬(c = '\\' ∧ q.escapes = true) → Taken (.inside q) c (.inside q)
  | backslash {q : Quote} : q.escapes = true → Taken (.inside q) '\\' (.escape q)
  | escaped (q : Quote) (c : Char) : Taken (.escape q) c (.inside q)

theorem taken_of_move (h : mode.move c = .take next value none) : Taken mode c next := by
  cases mode with
  | plain =>
    simp only [Mode.move] at h
    split at h
    · cases h
    split at h
    · rename_i q quote
      cases h
      rw [Quote.ofChar?_eq_some_iff.mp quote]
      exact .opens q
    · rename_i other
      cases h
      exact .plain other
  | inside q =>
    simp only [Mode.move] at h
    split at h
    · cases h
    split at h
    · rename_i closes
      cases h
      rw [closes]
      exact .closes q
    rename_i other
    split at h
    · rename_i backslash
      cases h
      obtain ⟨rfl, escapes⟩ := backslash
      exact .backslash escapes
    · rename_i noEscape
      cases h
      exact .literal other noEscape
  | escape q =>
    simp only [Mode.move] at h
    split at h
    · cases h
    split at h
    · cases h
      exact .escaped q c
    · split at h
      all_goals cases h
      exact .escaped q c

end Scanner

end Word

namespace Highlighter

open Word

/-- Painting a text in one mode shows it as given, and goes on in another mode. -/
def Shows (mode : Mode) (text : List Char) (cells : List (Char × Shade)) (last : Mode) : Prop :=
  ∃ painted : String,
    (∀ back, paintWord mode.quote? (text ++ back) = painted ++ paintWord last.quote? back) ∧
    Inked mode.shade painted.toList cells last.shade

variable {mode mid next last : Mode} {c : Char} {text more front : List Char}
  {cells others : List (Char × Shade)}

theorem Shows.nil (mode : Mode) : Shows mode [] [] mode :=
  ⟨"", fun _ => (String.empty_append).symm, .nil⟩

theorem Shows.append (h : Shows mode text cells mid) (rest : Shows mid more others last) :
    Shows mode (text ++ more) (cells ++ others) last := by
  obtain ⟨first, paintsFirst, inkedFirst⟩ := h
  obtain ⟨second, paintsSecond, inkedSecond⟩ := rest
  refine ⟨first ++ second, ?_, ?_⟩
  · intro back
    rw [List.append_assoc, paintsFirst, paintsSecond, String.append_assoc]
  · rw [String.toList_append]
    exact inkedFirst.append inkedSecond

theorem shows_plain (other : Quote.ofChar? c = none) :
    Shows .plain [c] [(c, .plain)] .plain := by
  refine ⟨c.toString, ?_, ?_⟩
  · intro back
    simp [Mode.quote?, paintWord, other]
  · rw [toList_char]
    exact .char c .nil

theorem shows_open (q : Quote) : Shows .plain [q.char] [(q.char, .string)] (.inside q) := by
  refine ⟨stringColour ++ q.char.toString, ?_, ?_⟩
  · intro back
    simp [Mode.quote?, paintWord, q.ofChar?_char]
  · rw [String.toList_append, toList_char]
    exact .change .string (.char q.char .nil)

theorem shows_close (q : Quote) : Shows (.inside q) [q.char] [(q.char, .string)] .plain := by
  refine ⟨q.char.toString ++ Ansi.reset, ?_, ?_⟩
  · intro back
    change paintWord (some q) (q.char :: back) = _
    rw [paintWord.eq_def]
    simp only [if_true]
    rfl
  · rw [String.toList_append, toList_char]
    exact .char q.char (.change .plain .nil)

theorem shows_literal {q : Quote} (other : c ≠ q.char) (noEscape : ¬(c = '\\' ∧ q.escapes = true)) :
    Shows (.inside q) [c] [(c, .string)] (.inside q) := by
  refine ⟨c.toString, ?_, ?_⟩
  · intro back
    change paintWord (some q) (c :: back) = _
    rw [paintWord.eq_def]
    simp only [if_neg other, if_neg noEscape]
    rfl
  · rw [toList_char]
    exact .char c .nil

theorem shows_escape {q : Quote} (escapes : q.escapes = true) (d : Char) :
    Shows (.inside q) ['\\', d] [('\\', .escape), (d, .escape)] (.inside q) := by
  have other : '\\' ≠ q.char := by cases q <;> decide
  refine ⟨escapeColour ++ Char.toString '\\' ++ d.toString ++ Ansi.reset ++ stringColour, ?_, ?_⟩
  · intro back
    simp only [Mode.quote?, List.cons_append, List.nil_append, paintWord, if_neg other, escapes,
      and_self, if_true]
  · simp only [String.toList_append, toList_char, List.append_assoc]
    exact .change .escape (.char '\\' (.char d (.change .plain (.change .string .nil))))

/- The backslash that is still to be painted when the scanner has read it. -/
def held : Mode → List Char
  | .escape _ => ['\\']
  | .plain | .inside _ => []

/-- Where the scanner reads a text, the painter shows each character in its shade. The scanner alone
moves at a backslash, so that the text to be painted starts with it in the mode behind it. -/
theorem shows_reads (h : Reads mode front last) (settled : last.Settled)
    (escapes : ∀ q, mode = .escape q → q.escapes = true) :
    Shows mode (held mode ++ front)
      ((held mode).map (·, .escape) ++ (passes mode front).map Pass.cell) last := by
  induction h with
  | @nil mode =>
    cases mode with
    | plain | inside => exact .nil _
    | escape q => exact absurd rfl (settled q)
  | @cons mode next last c value cs moved _ ih =>
    rw [passes_cons moved]
    cases taken_of_move moved with
    | plain other => exact (shows_plain other).append (ih settled nofun)
    | opens q => exact (shows_open q).append (ih settled nofun)
    | closes q => exact (shows_close q).append (ih settled nofun)
    | literal other noEscape => exact (shows_literal other noEscape).append (ih settled nofun)
    | @backslash q known =>
      have behind : ∀ r, Mode.escape q = .escape r → r.escapes = true := by
        rintro r ⟨⟩
        exact known
      exact ih settled behind
    | escaped q => exact (shows_escape (escapes q rfl) c).append (ih settled nofun)

end Highlighter

namespace Lexeme

theorem operator_isName (c : Char) (cs : List Char) : (operator c cs).kind.isName = false := by
  unfold operator
  split
  · dsimp only
    split <;> rfl
  · rfl

theorem number_isName (source : List Char) : (number source).kind.isName = false := by
  unfold number
  dsimp only
  split <;> rfl

theorem reads_word {source : List Char} (name : (word source).kind.isName = true) :
    Word.Reads .plain (word source).raw .plain := by
  cases problem : (Word.scan .plain source).problem with
  | some e =>
    simp only [word, problem] at name
    cases name
  | none => exact Word.reads_scan problem

theorem reads_ofSource {c : Char} {cs : List Char} (name : (ofSource c cs).kind.isName = true) :
    Word.Reads .plain (ofSource c cs).raw .plain := by
  unfold ofSource at name ⊢
  split_ifs at name ⊢
  · cases name
  · cases name
  · cases name
  · rw [operator_isName] at name
    cases name
  · rw [number_isName] at name
    cases name
  · exact reads_word name

end Lexeme

namespace Token

theorem reads_all {path source : String} {t : Token} (member : t ∈ all path source)
    (name : t.kind.isName = true) : Word.Reads .plain t.raw.toList .plain := by
  obtain ⟨s, hs, rfl⟩ := List.mem_map.mp member
  rcases (scans_scan path source).mem s hs with token | ⟨front, c, cs, -, -, token⟩
  · rw [token] at name
    cases name
  · rw [token] at name ⊢
    change Word.Reads .plain (String.ofList (Lexeme.ofSource c cs).raw).toList .plain
    rw [String.toList_ofList]
    exact Lexeme.reads_ofSource name

end Token

namespace Highlighter

open Word

/-- Behind every part of a word the painter is in the scanner's quote, unless the scanner is inside
an escape, and it has shown each character in the shade that the scanner's modes give it. Behind the
whole word no colour is open. The shades can be read off what is written, in this way only. -/
theorem paintWord_follows (path source : String) (t : Token) (member : t ∈ Token.all path source)
    (name : t.kind = .word ∨ t.kind = .bareWord) :
    let raw := t.raw.toList
    let cells := (passes .plain raw).map Pass.cell
    Reads .plain raw .plain ∧ cells.map Prod.fst = raw ∧
    Inked .plain (paintWord none raw).toList cells .plain ∧
    (¬ ['\x1b', '['] <:+: raw → ∀ others last,
      Inked .plain (paintWord none raw).toList others last → others.map Prod.fst = raw →
      others = cells ∧ last = .plain) ∧
    ∀ front back, raw = front ++ back →
      ∃ mode, Reads .plain front mode ∧ Reads mode back .plain ∧
        (mode.Settled → ∃ painted,
          paintWord none raw = painted ++ paintWord mode.quote? back ∧
          Inked .plain painted.toList ((passes .plain front).map Pass.cell) mode.shade) := by
  intro raw cells
  have reads : Reads .plain raw .plain := by
    apply Token.reads_all member
    rcases name with word | bareWord
    · rw [word]
      rfl
    · rw [bareWord]
      rfl
  have shown : cells.map Prod.fst = raw := by
    rw [← reads.map_char, List.map_map]
    rfl
  have inked : Inked .plain (paintWord none raw).toList cells .plain := by
    obtain ⟨painted, paints, inked⟩ := shows_reads reads nofun nofun
    have whole : paintWord none raw = painted := by
      simpa [held, Mode.quote?, paintWord] using paints []
    rw [whole]
    exact inked
  refine ⟨reads, shown, inked, ?_, ?_⟩
  · intro free others last other same
    rw [← same] at free
    exact other.unique inked rfl (same.trans shown.symm) free
  · intro front back split
    rw [split] at reads
    obtain ⟨mode, first, second⟩ := reads.split
    refine ⟨mode, first, second, ?_⟩
    intro settled
    obtain ⟨painted, paints, inked⟩ := shows_reads first settled nofun
    refine ⟨painted, ?_, inked⟩
    rw [split]
    exact paints back

/- An escaped quote, another quote behind it, and a backslash that escapes nothing. -/
theorem paintWord_follows_mixed :
    (⟨.word, "x\"'\\n", "x\"\\\"'\"'\\n'", 0, ⟨"f", 1, 1⟩⟩ : Token) ∈
      Token.all "f" "x\"\\\"'\"'\\n' y" ∧
    Inked .plain (paintWord none "x\"\\\"'\"'\\n'".toList).toList
      [('x', .plain), ('\x22', .string), ('\\', .escape), ('\x22', .escape), ('\x27', .string),
        ('\x22', .string), ('\x27', .string), ('\\', .string), ('n', .string), ('\x27', .string)]
      .plain := by
  have member : (⟨.word, "x\"'\\n", "x\"\\\"'\"'\\n'", 0, ⟨"f", 1, 1⟩⟩ : Token) ∈
      Token.all "f" "x\"\\\"'\"'\\n' y" := by decide +kernel
  have inked := (paintWord_follows "f" _ _ member (.inl rfl)).2.2.1
  have cells : (passes .plain "x\"\\\"'\"'\\n'".toList).map Pass.cell =
      [('x', .plain), ('\x22', .string), ('\\', .escape), ('\x22', .escape), ('\x27', .string),
        ('\x22', .string), ('\x27', .string), ('\\', .string), ('n', .string),
        ('\x27', .string)] := by decide +kernel
  rw [cells] at inked
  exact ⟨member, inked⟩

end Highlighter

end LineShell
