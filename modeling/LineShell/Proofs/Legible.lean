import LineShell.Highlight
import LineShell.Proofs.Refusal
import LineShell.Proofs.Scanning

/-!
Messages that can be shown. If a source has no control characters, no message about it has any:
what a message repeats of the source is a character of it, or is quoted, and quoting escapes the
control characters that escapes in the source stand for.
-/

namespace LineShell

namespace Text

/-- The characters that a terminal shows in a cell each; the others are control characters. -/
def isVisible (c : Char) : Bool :=
  ('\x20' ≤ c && c ≤ '\x7e') || '\u00a0' ≤ c

def Legible (s : String) : Prop :=
  ∀ c ∈ s.toList, isVisible c = true

instance (s : String) : Decidable (Legible s) :=
  decidable_of_iff (s.toList.all isVisible = true) List.all_eq_true

theorem Legible.append {s t : String} (first : Legible s) (second : Legible t) :
    Legible (s ++ t) := by
  intro c member
  rw [String.toList_append] at member
  rcases List.mem_append.mp member with member | member
  · exact first c member
  · exact second c member

theorem legible_char {c : Char} (visible : isVisible c = true) : Legible c.toString := by
  intro d member
  have same : d = c := by simpa using member
  exact same ▸ visible

theorem isVisible_of_isDigit {c : Char} (digit : c.isDigit = true) : isVisible c = true := by
  simp only [Char.isDigit, Bool.and_eq_true, decide_eq_true_eq] at digit
  have low : '\x20' ≤ c := Char.le_trans (by decide) digit.1
  have high : c ≤ '\x7e' := Char.le_trans digit.2 (by decide)
  simp [isVisible, low, high]

theorem legible_nat (n : Nat) : Legible (toString n) := by
  intro c member
  have digits : (toString n).toList = Nat.toDigits 10 n := by simp [toString, Nat.repr]
  rw [digits] at member
  exact isVisible_of_isDigit (Nat.isDigit_of_mem_toDigits (by decide) (by decide) member)

/-- Texts that quoting makes legible. -/
def Quotable (cs : List Char) : Prop :=
  ∀ c ∈ cs, isVisible c = true ∨ (escapeLetter? c).isSome = true

theorem isVisible_escapeChar {c d : Char}
    (known : isVisible c = true ∨ (escapeLetter? c).isSome = true) (member : d ∈ escapeChar c) :
    isVisible d = true := by
  unfold escapeChar at member
  split at member
  · rename_i letter found
    have named : isVisible letter = true := by
      unfold escapeLetter? at found
      split at found <;> cases found <;> rfl
    simp only [List.mem_cons, List.not_mem_nil, or_false] at member
    rcases member with rfl | rfl
    · rfl
    · exact named
  · rename_i none
    rw [List.mem_singleton.mp member]
    exact known.resolve_right (by simp [none])

theorem legible_quote {s : String} (quotable : Quotable s.toList) : Legible (quote s) := by
  intro c member
  simp only [quote, quoteChars, String.toList_ofList, List.cons_append, List.mem_cons,
    List.mem_append, List.mem_flatMap, List.not_mem_nil, or_false] at member
  rcases member with rfl | ⟨d, there, member⟩ | rfl
  · rfl
  · exact isVisible_escapeChar (quotable d there) member
  · rfl

theorem Legible.quotable {s : String} (h : Legible s) : Quotable s.toList :=
  fun c member => .inl (h c member)

end Text

open Text

namespace LexError

variable {c : Char}

theorem legible_unknownEscape (shown : isVisible c = true) :
    Legible (unknownEscape c).message :=
  Legible.append (Legible.append (by decide) (legible_char shown)) (by decide)

theorem legible_unexpectedCharInNumber (shown : isVisible c = true) :
    Legible (unexpectedCharInNumber c).message :=
  Legible.append (Legible.append (by decide) (legible_char shown)) (by decide)

theorem legible_loneOperator (shown : isVisible c = true) :
    Legible (loneOperator c).message := by
  have char := legible_char shown
  exact (((Legible.append (by decide) char).append (by decide)).append char).append char
    |>.append (by decide)

end LexError

namespace Word

/-- What a character adds to a word can be quoted, and a problem with it can be told. -/
def Move.IsLegible : Move → Prop
  | .stop problem => ∀ e ∈ problem, Legible e.message
  | .take _ value problem => Quotable value ∧ ∀ e ∈ problem, Legible e.message

theorem Mode.legible_move (mode : Mode) {c : Char} (shown : isVisible c = true) :
    (mode.move c).IsLegible := by
  have nothing : Quotable [] := by simp [Quotable]
  have itself : Quotable [c] := by simp [Quotable, shown]
  have exceeds : Move.IsLegible (.stop (some .stringExceedsLine)) := by
    rintro e ⟨⟩
    decide
  cases mode with
  | plain =>
    simp only [Mode.move]
    split
    · simp [Move.IsLegible]
    split
    · exact ⟨nothing, by simp⟩
    · exact ⟨itself, by simp⟩
  | inside q =>
    simp only [Mode.move]
    split
    · exact exceeds
    split
    · exact ⟨nothing, by simp⟩
    split
    · exact ⟨nothing, by simp⟩
    · exact ⟨itself, by simp⟩
  | escape q =>
    simp only [Mode.move]
    split
    · exact exceeds
    split
    · exact ⟨itself, by simp⟩
    split
    · rename_i control found
      have named : (escapeLetter? control).isSome = true := by
        unfold unescape? at found
        split at found <;> cases found <;> rfl
      exact ⟨by simp [Quotable, named], by simp⟩
    · refine ⟨nothing, ?_⟩
      rintro e ⟨⟩
      exact LexError.legible_unknownEscape shown

theorem quotable_scan (mode : Mode) {cs : List Char} (shown : ∀ c ∈ cs, isVisible c = true) :
    Quotable (scan mode cs).value ∧ ∀ e ∈ (scan mode cs).problem, Legible e.message := by
  induction cs generalizing mode with
  | nil =>
    refine ⟨by simp [scan, Quotable], ?_⟩
    cases mode with
    | plain => simp [scan, Mode.problemAtEnd]
    | inside q | escape q =>
      rintro e ⟨⟩
      decide
  | cons c cs ih =>
    have first := shown c List.mem_cons_self
    have step := mode.legible_move first
    rw [scan]
    cases moved : mode.move c with
    | stop problem =>
      rw [moved] at step
      exact ⟨by simp [Quotable], step⟩
    | take next value problem =>
      rw [moved] at step
      obtain ⟨added, told⟩ := step
      obtain ⟨later, told'⟩ := ih next fun d member => shown d (List.mem_cons_of_mem c member)
      constructor
      · intro d member
        rcases List.mem_append.mp member with member | member
        · exact added d member
        · exact later d member
      · cases problem with
        | none => exact told'
        | some e => exact told

end Word

namespace Lexeme

/- A token of visible characters: its text can be quoted, and its problem can be told. -/
theorem quotable_ofSource {c : Char} {cs : List Char}
    (shown : ∀ d ∈ c :: cs, isVisible d = true) :
    Quotable (ofSource c cs).value ∧
      ∀ e, (ofSource c cs).kind = .error e → Legible e.message := by
  have first := shown c List.mem_cons_self
  have itself : Quotable [c] := by simp [Quotable, first]
  unfold ofSource
  split
  · exact ⟨by simp [Quotable], by simp⟩
  split
  · exact ⟨itself, by simp⟩
  split
  · exact ⟨itself, by simp⟩
  split
  · unfold operator
    split
    · exact ⟨by simp [Quotable, first], by split <;> simp⟩
    · refine ⟨itself, ?_⟩
      rintro e ⟨⟩
      exact LexError.legible_loneOperator first
  split
  · have inside : ∀ d ∈ (c :: cs).takeWhile (fun d => !isDelimiter d), isVisible d = true :=
      fun d member => shown d ((List.takeWhile_sublist _).mem member)
    refine ⟨fun d member => .inl (inside d member), ?_⟩
    intro e kind
    unfold number at kind
    dsimp only at kind
    split at kind
    · rename_i d found
      cases kind
      exact LexError.legible_unexpectedCharInNumber (inside d (List.mem_of_find?_eq_some found))
    · cases kind
  · obtain ⟨value, told⟩ := Word.quotable_scan .plain shown
    refine ⟨value, ?_⟩
    intro e kind
    unfold word at kind
    dsimp only at kind
    split at kind
    · rename_i problem found
      cases kind
      exact told _ found
    · rcases Word.kind_cases (Word.scan .plain (c :: cs)).raw with ⟨k, other⟩ | other | other | other
      all_goals
        rw [other] at kind
        cases kind

end Lexeme

namespace Token

/-- What a message may say about a token can be shown. -/
structure IsLegible (t : Token) : Prop where
  path : Legible t.position.path
  lexeme : Quotable t.lexeme.toList
  problem : ∀ e, t.kind = .error e → Legible e.message

theorem isLegible_missing : missing.IsLegible :=
  ⟨by decide, by simp [missing, Quotable], by simp [missing]⟩

theorem isLegible_all {path source : String} (named : Legible path) (shown : Legible source) :
    ∀ t ∈ all path source, t.IsLegible := by
  intro t member
  obtain ⟨s, there, rfl⟩ := List.mem_map.mp member
  rcases (scans_scan path source).mem s there with last | ⟨front, c, cs, whole, _, first⟩
  · rw [last]
    refine ⟨?_, by simp [ending, Quotable], by simp [ending]⟩
    simpa [ending, Cursor.position] using named
  · rw [first]
    have inside : ∀ d ∈ c :: cs, isVisible d = true := by
      intro d member
      apply shown
      rw [← List.nil_append source.toList, whole]
      exact List.mem_append_right front member
    obtain ⟨value, told⟩ := Lexeme.quotable_ofSource inside
    refine ⟨?_, by simpa [starting] using value, told⟩
    simp only [starting, Cursor.position]
    split <;> exact named

end Token

theorem Keyword.legible_word (k : Keyword) : Legible k.word := by
  cases k <;> decide

theorem Kind.legible_label (k : Kind) : Legible k.label := by
  cases k with
  | keyword k => exact Legible.append (by decide) k.legible_word
  | error e =>
    change Legible "error"
    decide
  | _ => decide

theorem Token.IsLegible.describe {t : Token} (h : t.IsLegible) : Legible t.describe := by
  have label := t.kind.legible_label
  have text := legible_quote h.lexeme
  unfold Token.describe
  cases kind : t.kind with
  | word | bareWord | integer =>
    rw [kind] at label
    exact (label.append (by decide)).append text
  | and | or | equals | openParen | closeParen =>
    rw [kind] at label
    exact legible_quote label.quotable
  | eof | separator | keyword | error =>
    rw [kind] at label
    exact label

theorem Position.legible_render {p : Position} (path : Legible p.path) : Legible p.render :=
  (((path.append (by decide)).append (legible_nat _)).append (by decide)).append (legible_nat _)

theorem ShellError.legible_message {e : ShellError} (path : Legible e.position.path)
    (cause : Legible e.cause.message) : Legible e.message :=
  ((Position.legible_render path).append (by decide)).append cause

theorem ParseError.legible_message {problem : ParseError} {t : Token} (names : problem.Names t)
    (h : t.IsLegible) : Legible problem.message := by
  cases problem with
  | unexpected found =>
    cases names
    exact Legible.append (by decide) h.describe
  | expected wanted found =>
    cases names
    exact ((Legible.append (by decide) wanted.legible_label).append (by decide)).append h.describe
  | exitCodeRange code =>
    cases names
    exact (Legible.append (by decide) (legible_quote h.lexeme)).append (by decide)

theorem Refuses.legible {t : Token} {e : ShellError} (refused : Refuses t e) (h : t.IsLegible) :
    Legible e.message := by
  obtain ⟨position, cases⟩ := refused
  have path : Legible e.position.path := position ▸ h.path
  rcases cases with ⟨problem, kind, cause⟩ | ⟨_, problem, cause, names⟩
  · exact ShellError.legible_message path (cause ▸ h.problem problem kind)
  · exact ShellError.legible_message path (cause ▸ ParseError.legible_message names h)

namespace Highlighter

theorem legible_classify {h : Highlighter} {previous next : Option Kind} {t : Token}
    {e : ShellError} (clean : t.IsLegible) (found : (h.classify previous t next).2 = some e) :
    Legible e.message := by
  have unknown : Legible (EvalError.commandNotFound t.lexeme).message :=
    (Legible.append (by decide) (legible_quote clean.lexeme)).append (by decide)
  unfold classify at found
  cases kind : t.kind with
  | error problem =>
    rw [kind] at found
    cases found
    exact ShellError.legible_message clean.path (clean.problem problem kind)
  | word | bareWord =>
    simp only [kind] at found
    split at found
    · split at found
      · cases found
      · cases found
        exact ShellError.legible_message clean.path unknown
    · split at found <;> cases found
  | _ =>
    rw [kind] at found
    cases found

theorem legible_tokenProblem? {h : Highlighter} {previous : Option Kind} {segments : List Segment}
    {e : ShellError} (clean : ∀ s ∈ segments, s.token.IsLegible)
    (found : h.tokenProblem? previous segments = some e) : Legible e.message := by
  induction segments generalizing previous with
  | nil => cases found
  | cons s rest ih =>
    rw [tokenProblem?] at found
    cases here : (h.classify previous s.token (rest.head?.map fun r => r.token.kind)).2 with
    | some problem =>
      simp only [here] at found
      cases found
      exact legible_classify (clean s List.mem_cons_self) here
    | none =>
      simp only [here] at found
      exact ih (fun r member => clean r (List.mem_cons_of_mem s member)) found

/-- The message about a line without control characters has none either. -/
theorem legible_diagnostic {h : Highlighter} {path source : String} {e : ShellError}
    (named : Legible path) (shown : Legible source)
    (found : (h.highlight path source).diagnostic = some e) : Legible e.message := by
  have clean := Token.isLegible_all named shown
  have token : ∀ a, h.tokenProblem? none (Token.scan path source) = some a →
      Legible a.message := by
    intro a problem
    exact legible_tokenProblem? (fun s member => clean _ (List.mem_map_of_mem member)) problem
  have grammar : ∀ b, grammarProblem? (Token.all path source) = some b → Legible b.message := by
    intro b problem
    unfold grammarProblem? at problem
    split at problem
    · cases problem
    · rename_i refused
      cases problem
      obtain ⟨t, member, blamed⟩ := ParseState.refuses_run refused
      rcases member with member | rfl
      · exact blamed.legible (clean t member)
      · exact blamed.legible Token.isLegible_missing
  change firstProblem? (h.tokenProblem? none (Token.scan path source))
    (grammarProblem? (Token.all path source)) = some e at found
  cases first : h.tokenProblem? none (Token.scan path source) with
  | none =>
    rw [first] at found
    exact grammar e found
  | some a =>
    cases second : grammarProblem? (Token.all path source) with
    | none =>
      rw [first, second] at found
      cases found
      exact token e first
    | some b =>
      rw [first, second] at found
      cases found
      split
      · exact grammar b second
      · exact token a first

end Highlighter

end LineShell
