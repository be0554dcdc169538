import LineShell.Token

/-!
From source text to tokens. Every source has tokens: broken text becomes an error token, and
scanning goes on behind it. Between tokens stand gaps of blanks and comments, which are kept, so
that gaps and raw texts together are the source.
-/

namespace LineShell

def isBlank (c : Char) : Bool :=
  c == ' ' || c == '\r' || c == '\t' || c == '\x0b' || c == '\x0c'

def isDelimiter (c : Char) : Bool :=
  isBlank c || c == '\n' || c == ';' || c == '&' || c == '|' || c == '(' || c == ')'

inductive Quote where
  | single
  | double
  | back
  deriving DecidableEq, Repr

namespace Quote

def char : Quote → Char
  | single => '\x27'
  | double => '\x22'
  | back => '\x60'

def ofChar? (c : Char) : Option Quote :=
  [single, double, back].find? fun q => q.char == c

def escapes (q : Quote) : Bool :=
  q != single

def spansLines (q : Quote) : Bool :=
  q == back

end Quote

def unescape? (c : Char) : Option Char :=
  match c with
  | 'e' => some '\x1b'
  | 'n' => some '\n'
  | 'r' => some '\r'
  | 't' => some '\t'
  | 'v' => some '\x0b'
  | 'b' => some '\x08'
  | 'f' => some '\x0c'
  | _ => none

namespace Word

inductive Mode where
  | plain
  | inside (quote : Quote)
  | escape (quote : Quote)
  deriving DecidableEq, Repr

/-- What a character does: it ends the word before itself, or it belongs to the word, adds to the
word's value and leads to the next mode. -/
inductive Move where
  | stop (problem : Option LexError)
  | take (next : Mode) (value : List Char) (problem : Option LexError)
  deriving DecidableEq, Repr

namespace Mode

def move (mode : Mode) (c : Char) : Move :=
  match mode with
  | plain =>
    if isDelimiter c then .stop none
    else
      match Quote.ofChar? c with
      | some q => .take (inside q) [] none
      | none => .take plain [c] none
  | inside q =>
    if c = '\n' ∧ !q.spansLines then .stop (some .stringExceedsLine)
    else if c = q.char then .take plain [] none
    else if c = '\\' ∧ q.escapes then .take (escape q) [] none
    else .take (inside q) [c] none
  | escape q =>
    if c = '\n' ∧ !q.spansLines then .stop (some .stringExceedsLine)
    else if c = '\\' ∨ (Quote.ofChar? c).isSome then .take (inside q) [c] none
    else
      match unescape? c with
      | some control => .take (inside q) [control] none
      | none => .take (inside q) [] (some (.unknownEscape c))

def problemAtEnd : Mode → Option LexError
  | plain => none
  | inside _ | escape _ => some .unterminatedString

end Mode

structure Scanned where
  value : List Char
  problem : Option LexError
  raw : List Char
  rest : List Char
  deriving DecidableEq, Repr

def scan : Mode → List Char → Scanned
  | mode, [] => ⟨[], mode.problemAtEnd, [], []⟩
  | mode, c :: cs =>
    match mode.move c with
    | .stop problem => ⟨[], problem, [], c :: cs⟩
    | .take next value problem =>
      let after := scan next cs
      ⟨value ++ after.value, problem <|> after.problem, c :: after.raw, after.rest⟩

/-- Quoting keeps a text from being a keyword or an equals sign, because the raw text decides. -/
def kind (raw : List Char) : Kind :=
  if raw.all Char.isAlpha then
    match Keyword.ofWord? (String.ofList raw) with
    | some k => .keyword k
    | none => .bareWord
  else if raw = ['='] then .equals
  else .word

end Word

structure Lexeme where
  kind : Kind
  value : List Char
  raw : List Char
  rest : List Char
  deriving DecidableEq, Repr

namespace Lexeme

def operator (c : Char) (cs : List Char) : Lexeme :=
  if cs.head? = some c then ⟨if c = '&' then .and else .or, [c, c], [c, c], cs.tail⟩
  else ⟨.error (.loneOperator c), [c], [c], cs⟩

def number (source : List Char) : Lexeme :=
  let raw := source.takeWhile fun c => !isDelimiter c
  let kind :=
    match raw.find? fun c => !c.isDigit with
    | some c => .error (.unexpectedCharInNumber c)
    | none => .integer
  ⟨kind, raw, raw, source.dropWhile fun c => !isDelimiter c⟩

def word (source : List Char) : Lexeme :=
  let scanned := Word.scan .plain source
  let kind :=
    match scanned.problem with
    | some problem => .error problem
    | none => Word.kind scanned.raw
  ⟨kind, scanned.value, scanned.raw, scanned.rest⟩

def ofSource (c : Char) (cs : List Char) : Lexeme :=
  if c = '\n' ∨ c = ';' then ⟨.separator, [], [c], cs⟩
  else if c = '(' then ⟨.openParen, [c], [c], cs⟩
  else if c = ')' then ⟨.closeParen, [c], [c], cs⟩
  else if c = '&' ∨ c = '|' then operator c cs
  else if c.isDigit then number (c :: cs)
  else word (c :: cs)

end Lexeme

def splitGap (source : List Char) : List Char × List Char :=
  let blanks := source.takeWhile isBlank
  let rest := source.dropWhile isBlank
  if rest.head? = some '#' then
    (blanks ++ rest.takeWhile (· ≠ '\n'), rest.dropWhile (· ≠ '\n'))
  else (blanks, rest)

structure Cursor where
  offset : Nat
  row : Nat
  column : Nat
  deriving DecidableEq, Repr

namespace Cursor

def start : Cursor := ⟨0, 1, 0⟩

def pass (k : Cursor) (c : Char) : Cursor :=
  if c = '\n' then ⟨k.offset + c.utf8Size, k.row + 1, 0⟩
  else ⟨k.offset + c.utf8Size, k.row, k.column + 1⟩

def passAll (k : Cursor) (cs : List Char) : Cursor :=
  cs.foldl pass k

def position (path : String) (k : Cursor) (next : Option Char) : Position :=
  if next = some '\n' then ⟨path, k.row + 1, 0⟩ else ⟨path, k.row, k.column + 1⟩

end Cursor

structure Segment where
  gap : String
  token : Token
  deriving DecidableEq, Repr

theorem Word.length_rest_scan (mode : Word.Mode) (source : List Char) :
    (Word.scan mode source).rest.length ≤ source.length := by
  induction source generalizing mode with
  | nil => simp [Word.scan]
  | cons c cs ih =>
    simp only [Word.scan]
    split
    · simp
    · exact Nat.le_succ_of_le (ih _)

theorem Word.length_rest_scan_plain {c : Char} (h : isDelimiter c = false) (cs : List Char) :
    (Word.scan .plain (c :: cs)).rest.length ≤ cs.length := by
  have taken : ∃ next value problem, Word.Mode.plain.move c = .take next value problem := by
    simp only [Word.Mode.move, h, Bool.false_eq_true, if_false]
    split <;> exact ⟨_, _, _, rfl⟩
  obtain ⟨next, value, problem, hmove⟩ := taken
  simp only [Word.scan, hmove]
  exact Word.length_rest_scan next cs

theorem length_dropWhile_le {α : Type} (p : α → Bool) (xs : List α) :
    (xs.dropWhile p).length ≤ xs.length :=
  (List.dropWhile_sublist p).length_le

theorem length_splitGap (source : List Char) : (splitGap source).2.length ≤ source.length := by
  have outer := length_dropWhile_le isBlank source
  have inner := length_dropWhile_le (fun c : Char => decide (c ≠ '\n')) (source.dropWhile isBlank)
  simp only [splitGap]
  split
  · exact Nat.le_trans inner outer
  · exact outer

theorem eq_false_of_dropWhile_eq_cons {α : Type} {p : α → Bool} {xs ys : List α} {x : α}
    (h : xs.dropWhile p = x :: ys) : p x = false := by
  have hx := List.head?_dropWhile_not p xs
  rw [h] at hx
  simpa using hx

theorem head_splitGap {source cs : List Char} {c : Char} (h : (splitGap source).2 = c :: cs) :
    isBlank c = false := by
  simp only [splitGap] at h
  split at h
  · have hn : c = '\n' := by simpa using eq_false_of_dropWhile_eq_cons h
    subst hn
    decide
  · exact eq_false_of_dropWhile_eq_cons h

theorem Lexeme.length_rest_ofSource {c : Char} (h : isBlank c = false) (cs : List Char) :
    (Lexeme.ofSource c cs).rest.length ≤ cs.length := by
  have tail : cs.tail.length ≤ cs.length := by simp
  simp only [Lexeme.ofSource]
  split
  · exact Nat.le_refl _
  split
  · exact Nat.le_refl _
  split
  · exact Nat.le_refl _
  split
  · simp only [Lexeme.operator]
    split
    · exact tail
    · exact Nat.le_refl _
  have hd : isDelimiter c = false := by
    simp_all [isDelimiter]
  split
  · simp only [Lexeme.number, List.dropWhile_cons, hd]
    exact length_dropWhile_le _ cs
  · exact Word.length_rest_scan_plain hd cs

theorem Lexeme.length_rest_lt {source cs : List Char} {c : Char}
    (h : (splitGap source).2 = c :: cs) :
    (Lexeme.ofSource c cs).rest.length < source.length := by
  have gap := length_splitGap source
  have token := Lexeme.length_rest_ofSource (head_splitGap h) cs
  rw [h, List.length_cons] at gap
  omega

namespace Token

def scanFrom (path : String) (k : Cursor) (source : List Char) : List Segment :=
  let gap := (splitGap source).1
  let k := k.passAll gap
  match hrest : (splitGap source).2 with
  | [] =>
    [⟨String.ofList gap, ⟨.eof, "", "", k.offset, k.position path none⟩⟩]
  | c :: cs =>
    have := Lexeme.length_rest_lt hrest
    let lexeme := Lexeme.ofSource c cs
    let token : Token :=
      ⟨lexeme.kind, String.ofList lexeme.value, String.ofList lexeme.raw, k.offset,
        k.position path (some c)⟩
    ⟨String.ofList gap, token⟩ :: scanFrom path (k.passAll lexeme.raw) lexeme.rest
termination_by source.length

/-- All tokens of a source with the gaps before them; the last is the only end token. -/
def scan (path source : String) : List Segment :=
  scanFrom path Cursor.start source.toList

def all (path source : String) : List Token :=
  (scan path source).map Segment.token

end Token

end LineShell
