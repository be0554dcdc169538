import LineShell.Environment
import LineShell.Highlight
import LineShell.Proofs.Acceptance
import LineShell.Proofs.Positions
import LineShell.Proofs.Refusal
import LineShell.Proofs.Tiling

/-!
The diagnostic that is shown while a line is typed. A highlighter decides from the two neighbours
of a name whether it is a command; over every derivation of the grammar this picks exactly the
names that the parser turns into commands. So there is nothing to report exactly if the source
parses and its commands are found, and what is reported never stands behind the parser's failure.
-/

namespace LineShell

/-- Names of the commands in a statement, each with its place. -/
def Statement.commands : Statement → List (Position × String)
  | .action position (.run name _) => [(position, name)]
  | .action _ _ => []
  | .chain _ _ left right => left.commands ++ right.commands

namespace Highlighter

/-- The names that stand in command position behind a token of the given kind. -/
def commandTokens (previous : Option Kind) : List Token → List Token
  | [] => []
  | t :: ts =>
    let behind := commandTokens (some t.kind) ts
    if t.kind.isName && isCommand previous (ts.head?.map Token.kind) then t :: behind else behind

/-- What a token in command position says about a command. -/
def named (t : Token) : Position × String :=
  (t.position, t.lexeme)

/-- Behind such a token, or in front of all tokens, a command can start. -/
def Starts (previous : Option Kind) : Prop :=
  ∀ k ∈ previous, k = .separator ∨ k = .and ∨ k = .or ∨ k = .openParen

theorem isCommand_iff (previous next : Option Kind) :
    isCommand previous next = true ↔ Starts previous ∧ next ≠ some .equals := by
  unfold isCommand Starts
  cases previous with
  | none => simp
  | some k => cases k <;> simp

theorem commandTokens_command {previous : Option Kind} {t : Token} {ts : List Token}
    (name : Grammar.IsName t) (starts : Starts previous)
    (other : ∀ u ∈ ts.head?, u.kind ≠ .equals) :
    commandTokens previous (t :: ts) = t :: commandTokens (some t.kind) ts := by
  have next : ts.head?.map Token.kind ≠ some .equals := by
    cases ts with
    | nil => simp
    | cons u us => simpa using other u rfl
  have command := (isCommand_iff previous (ts.head?.map Token.kind)).mpr ⟨starts, next⟩
  simp only [commandTokens, (Grammar.isName_iff t).mpr name, command, Bool.and_self, if_true]

theorem commandTokens_other {previous : Option Kind} {t : Token} {ts : List Token}
    (other : t.kind.isName = false ∨ ¬ Starts previous ∨ ∃ u ∈ ts.head?, u.kind = .equals) :
    commandTokens previous (t :: ts) = commandTokens (some t.kind) ts := by
  have refused :
      (t.kind.isName && isCommand previous (ts.head?.map Token.kind)) = false := by
    rw [Bool.eq_false_iff, ne_eq, Bool.and_eq_true, isCommand_iff]
    rintro ⟨name, starts, next⟩
    rcases other with unnamed | inside | ⟨u, head, equals⟩
    · simp [unnamed] at name
    · exact inside starts
    · exact next (by simp [Option.mem_def.mp head, equals])
  simp [commandTokens, refused]

theorem isName_of_ends {k : Kind} (ends : k.endsArguments = true) : k.isName = false := by
  cases k <;> simp_all [Kind.endsArguments, Kind.isName]

/- In front of a token that ends arguments it does not matter what has been read. -/
theorem commandTokens_stops (previous : Option Kind) {ts : List Token} (stops : Grammar.Stops ts) :
    commandTokens previous ts = commandTokens none ts := by
  cases ts with
  | nil => rfl
  | cons t ts =>
    have unnamed := isName_of_ends (stops t rfl)
    rw [commandTokens_other (.inl unnamed), commandTokens_other (.inl unnamed)]

/-- What may follow the first token of an action. -/
def Inner (t : Token) : Prop :=
  Grammar.IsArgument t ∨ t.kind = .equals

theorem Inner.not_starts {t : Token} (h : Inner t) : ¬ Starts (some t.kind) := by
  rcases h with ((kind | kind) | kind | ⟨k, kind⟩) | kind <;> simp [Starts, kind]

/- Inside an action no command starts. -/
theorem commandTokens_inner {previous : Option Kind} {ws us : List Token}
    (inside : ¬ Starts previous) (inner : ∀ w ∈ ws, Inner w) (stops : Grammar.Stops us) :
    commandTokens previous (ws ++ us) = commandTokens none us := by
  induction ws generalizing previous with
  | nil => exact commandTokens_stops previous stops
  | cons w ws ih =>
    have here : Inner w := inner w List.mem_cons_self
    rw [List.cons_append, commandTokens_other (.inr (.inl inside))]
    exact ih here.not_starts fun u hu => inner u (List.mem_cons_of_mem w hu)

end Highlighter

namespace Grammar

open Highlighter

theorem Phrase.inner {t : Token} {ts : List Token} {a : Action} (h : Phrase t ts a) :
    Inner t ∧ ∀ u ∈ ts, Inner u := by
  have key {k : Keyword} (kind : t.kind = .keyword k) : Inner t := .inl (.inr (.inr ⟨k, kind⟩))
  cases h with
  | run name args => exact ⟨.inl name.argument, fun u hu => .inl (args u hu)⟩
  | assign name equals value =>
    exact ⟨.inl name.argument, by simpa using ⟨.inr equals, .inl value⟩⟩
  | define kind name equals value =>
    exact ⟨key kind, by simpa using ⟨.inl name.argument, .inr equals, .inl value⟩⟩
  | share kind name => exact ⟨key kind, by simpa using .inl name.argument⟩
  | help kind => exact ⟨key kind, by simp⟩
  | exit kind => exact ⟨key kind, by simp⟩
  | exitWith kind integer _ => exact ⟨key kind, by simpa using .inl (.inr (.inl integer))⟩
  | echo kind args => exact ⟨key kind, fun u hu => .inl (args u hu)⟩
  | goHome kind => exact ⟨key kind, by simp⟩
  | changeDir kind path => exact ⟨key kind, by simpa using .inl path⟩

/- The first token of an action is a command name exactly if the action is a command. -/
theorem Phrase.commandTokens {t : Token} {ts us : List Token} {a : Action} (h : Phrase t ts a)
    {previous : Option Kind} (starts : Starts previous) (stops : Stops us) :
    (Highlighter.commandTokens previous (t :: ts ++ us)).map named =
      (Statement.action t.position a).commands ++
        (Highlighter.commandTokens none us).map named := by
  have behind : Highlighter.commandTokens (some t.kind) (ts ++ us) =
      Highlighter.commandTokens none us :=
    commandTokens_inner h.inner.1.not_starts h.inner.2 stops
  rw [List.cons_append]
  cases h with
  | run name args =>
    have other : ∀ u ∈ (ts ++ us).head?, u.kind ≠ .equals := by
      intro u head equals
      cases ts with
      | nil =>
        have ends := stops u head
        simp [equals, Kind.endsArguments] at ends
      | cons v vs =>
        have argument := (isArgument_iff v).mpr (args v List.mem_cons_self)
        cases Option.mem_some_iff.mp head
        simp [equals, Kind.isArgument] at argument
    rw [commandTokens_command name starts other, behind]
    rfl
  | @assign equals value _ kind _ =>
    rw [commandTokens_other (.inr (.inr ⟨equals, rfl, kind⟩)), behind]
    rfl
  | define kind | share kind | help kind | exit kind | exitWith kind | echo kind | goHome kind
  | changeDir kind =>
    rw [commandTokens_other (.inl (by simp [kind, Kind.isName])), behind]
    rfl

theorem Connects.starts {t : Token} {op : Connective} (h : Connects t op) :
    Starts (some t.kind) := by
  cases op <;> simp [Starts, h.kind]

theorem Connects.ends {t : Token} {op : Connective} (h : Connects t op) :
    t.kind.endsArguments = true := by
  cases op <;> simp [h.kind, Kind.endsArguments]

theorem Derives.commandTokens {symbol : Symbol} {ts : List Token} {x : Statement}
    (h : Derives symbol ts x) {previous : Option Kind} {us : List Token}
    (starts : Starts previous) (stops : Stops us) :
    (Highlighter.commandTokens previous (ts ++ us)).map named =
      x.commands ++ (Highlighter.commandTokens none us).map named := by
  -- What stands behind varies: inside a group and left of an operator it is more than `us`.
  induction h generalizing previous us with
  | action phrase => exact phrase.commandTokens starts stops
  | @group left right ts x opens _ closes ih =>
    have ends : right.kind.endsArguments = true := by simp [closes, Kind.endsArguments]
    have unnamed : left.kind.isName = false := by simp [opens, Kind.isName]
    have inner := @ih (some left.kind) (right :: us) (by simp [Starts, opens]) (stops_cons ends)
    simp only [List.cons_append, List.append_assoc, List.nil_append]
    rw [commandTokens_other (.inl unnamed), inner,
      commandTokens_other (.inl (isName_of_ends ends)), commandTokens_stops _ stops]
  | factor _ ih => exact ih starts stops
  | @chain ts vs t op x y _ connects _ left right =>
    have head := @left previous (t :: (vs ++ us)) starts (stops_cons connects.ends)
    have tail := @right (some t.kind) us connects.starts stops
    simp only [List.cons_append, List.append_assoc]
    rw [head, commandTokens_other (.inl (isName_of_ends connects.ends)), tail]
    simp [Statement.commands]

/- Behind separators a statement starts. -/
theorem Separators.commandTokens {seps : List Token} (h : Separators seps) (us : List Token)
    {previous : Option Kind} (starts : Starts previous) :
    ∃ last, Starts last ∧
      Highlighter.commandTokens previous (seps ++ us) = Highlighter.commandTokens last us := by
  induction seps generalizing previous with
  | nil => exact ⟨previous, starts, rfl⟩
  | cons t seps ih =>
    have separator := h t List.mem_cons_self
    have unnamed : t.kind.isName = false := by simp [separator, Kind.isName]
    rw [List.cons_append, commandTokens_other (.inl unnamed)]
    exact ih (fun u hu => h u (List.mem_cons_of_mem t hu)) (by simp [Starts, separator])

theorem starts_none : Starts none := by
  simp [Starts]

theorem More.commandTokens {ts us : List Token} {xs : List Statement} (h : More ts xs)
    (breaks : Breaks us) :
    (Highlighter.commandTokens none (ts ++ us)).map named =
      xs.flatMap Statement.commands ++ (Highlighter.commandTokens none us).map named := by
  induction h with
  | nil => rfl
  | @cons seps ts rest x xs separators _ statement more ih =>
    simp only [List.append_assoc, List.flatMap_cons]
    obtain ⟨last, starts, skipped⟩ :=
      separators.commandTokens (ts ++ (rest ++ us)) starts_none
    rw [skipped, statement.commandTokens starts (more.breaks breaks).stops, ih]

theorem Program.commandTokens {ts us : List Token} {xs : List Statement} (h : Program ts xs)
    (last : ∀ t ∈ us.head?, t.kind = .eof) :
    (Highlighter.commandTokens none (ts ++ us)).map named =
      xs.flatMap Statement.commands ++ (Highlighter.commandTokens none us).map named := by
  have breaks : Breaks us := fun t ht => .inr (last t ht)
  cases h with
  | empty separators =>
    obtain ⟨last, _, skipped⟩ := separators.commandTokens us starts_none
    rw [skipped, commandTokens_stops last breaks.stops]
    rfl
  | @statements before ts more after x xs leading first rest trailing =>
    have tail := trailing.breaks breaks
    obtain ⟨start, starts, skipped⟩ :=
      leading.commandTokens (ts ++ (more ++ (after ++ us))) starts_none
    obtain ⟨last, _, passed⟩ := trailing.commandTokens us starts_none
    simp only [List.append_assoc, List.flatMap_cons]
    rw [skipped, first.commandTokens starts (rest.breaks tail).stops, rest.commandTokens tail,
      passed, commandTokens_stops last breaks.stops]

end Grammar

namespace Highlighter

/- A token is a problem if it is broken, or if it is a command that is not found. -/
theorem classify_problem (h : Highlighter) (previous : Option Kind) (t : Token)
    (next : Option Kind) :
    (h.classify previous t next).2 =
      (t.lexProblem? <|>
        if t.kind.isName && isCommand previous next &&
            !(h.files.resolve t.lexeme h.searchPath).isSome then
          some ⟨t.position, .eval (.commandNotFound t.lexeme)⟩
        else none) := by
  unfold classify Token.lexProblem?
  cases kind : t.kind with
  | word | bareWord =>
    simp only [Kind.isName, Bool.true_and]
    by_cases command : isCommand previous next = true
    · by_cases found : (h.files.resolve t.lexeme h.searchPath).isSome = true <;>
        simp [command, found]
    · simp only [command, Bool.false_eq_true, if_false, Bool.false_and]
      split <;> rfl
  | _ => rfl

theorem position_of_classify {h : Highlighter} {previous next : Option Kind} {t : Token}
    {e : ShellError} (problem : (h.classify previous t next).2 = some e) :
    e.position = t.position := by
  rw [classify_problem] at problem
  cases lexical : t.lexProblem? with
  | some e' =>
    rw [lexical] at problem
    cases problem
    exact (Token.refuses_lexProblem? lexical).1
  | none =>
    rw [lexical] at problem
    change (if _ then _ else none) = some e at problem
    split at problem
    · cases problem
      rfl
    · cases problem

theorem tokenProblem?_eq_none_iff (h : Highlighter) (previous : Option Kind)
    (segments : List Segment) :
    h.tokenProblem? previous segments = none ↔
      (segments.map Segment.token).findSome? Token.lexProblem? = none ∧
        ∀ t ∈ commandTokens previous (segments.map Segment.token),
          (h.files.resolve t.lexeme h.searchPath).isSome = true := by
  induction segments generalizing previous with
  | nil => simp [tokenProblem?, commandTokens]
  | cons s rest ih =>
    have next : (rest.map Segment.token).head?.map Token.kind =
        rest.head?.map fun r => r.token.kind := by
      rw [List.head?_map, Option.map_map]
      rfl
    simp only [tokenProblem?, classify_problem, List.map_cons, List.findSome?_cons, commandTokens,
      next]
    cases lexical : s.token.lexProblem? with
    | some e => simp
    | none =>
      by_cases command : (s.token.kind.isName &&
          isCommand previous (rest.head?.map fun r => r.token.kind)) = true
      · by_cases found : (h.files.resolve s.token.lexeme h.searchPath).isSome = true
        · simp [command, found, ih]
        · simp [command, found]
      · simp [command, ih]

/- Up to the first error token a problem is found. -/
theorem tokenProblem?_of_problem (h : Highlighter) (previous : Option Kind)
    {segments : List Segment} {e : ShellError}
    (ordered : (segments.map Segment.token).Pairwise
      fun t u => t.position.place < u.position.place)
    (lexical : (segments.map Segment.token).findSome? Token.lexProblem? = some e) :
    ∃ d, h.tokenProblem? previous segments = some d ∧ d.position.place ≤ e.position.place := by
  induction segments generalizing previous with
  | nil => simp at lexical
  | cons s rest ih =>
    rw [List.map_cons] at ordered lexical
    obtain ⟨headFirst, tail⟩ := List.pairwise_cons.mp ordered
    rw [tokenProblem?]
    cases here : (h.classify previous s.token (rest.head?.map fun r => r.token.kind)).2 with
    | some d =>
      obtain ⟨t, member, found⟩ := List.exists_of_findSome?_eq_some lexical
      refine ⟨d, rfl, ?_⟩
      -- The error token is this one or stands behind it.
      rw [position_of_classify here, (Token.refuses_lexProblem? found).1]
      rcases List.mem_cons.mp member with rfl | later
      · exact le_refl _
      · exact (headFirst t later).le
    | none =>
      have clean : s.token.lexProblem? = none := by
        rw [classify_problem] at here
        cases broken : s.token.lexProblem? with
        | none => rfl
        | some e' => simp [broken] at here
      rw [List.findSome?_cons, clean] at lexical
      exact ih (some s.token.kind) tail lexical

theorem firstProblem?_eq_none_iff (token grammar : Option ShellError) :
    firstProblem? token grammar = none ↔ token = none ∧ grammar = none := by
  cases token <;> cases grammar <;> simp [firstProblem?]

/- What is reported stands behind neither of the two problems. -/
theorem firstProblem?_le {token grammar : Option ShellError} {e : ShellError}
    (given : token = some e ∨ grammar = some e) :
    ∃ d, firstProblem? token grammar = some d ∧ d.position.place ≤ e.position.place := by
  cases token with
  | none =>
    obtain rfl := given.resolve_left nofun
    exact ⟨e, rfl, le_refl _⟩
  | some a =>
    cases grammar with
    | none =>
      cases given.resolve_right nofun
      exact ⟨e, rfl, le_refl _⟩
    | some b =>
      have order := Position.before_iff b.position a.position
      by_cases before : b.position.before a.position = true
      · refine ⟨b, by simp [firstProblem?, before], ?_⟩
        rcases given with given | given <;> cases given
        · exact (order.mp before).le
        · exact le_refl _
      · refine ⟨a, by simp [firstProblem?, before], ?_⟩
        rcases given with given | given <;> cases given
        · exact le_refl _
        · exact not_lt.mp fun later => before (order.mpr later)

theorem grammarProblem?_of_error {tokens : List Token} {e : ShellError}
    (refused : Statement.ofTokens tokens = .error e) : grammarProblem? tokens = some e := by
  simp only [grammarProblem?, refused]

theorem grammarProblem?_eq_none_iff (tokens : List Token) :
    grammarProblem? tokens = none ↔ ∃ xs, Statement.ofTokens tokens = .ok xs := by
  unfold grammarProblem?
  cases Statement.ofTokens tokens <;> simp

theorem diagnostic_highlight (h : Highlighter) (path source : String) :
    (h.highlight path source).diagnostic =
      firstProblem? (h.tokenProblem? none (Token.scan path source))
        (grammarProblem? (Token.all path source)) :=
  rfl

theorem diagnostic_eq_none_iff (h : Highlighter) (path source : String) :
    (h.highlight path source).diagnostic = none ↔
      (∃ xs, Statement.parse path source = .ok xs) ∧
        ∀ t ∈ commandTokens none (Token.all path source),
          (h.files.resolve t.lexeme h.searchPath).isSome = true := by
  rw [diagnostic_highlight, firstProblem?_eq_none_iff, tokenProblem?_eq_none_iff,
    grammarProblem?_eq_none_iff]
  change ((Token.all path source).findSome? Token.lexProblem? = none ∧ _) ∧ _ ↔ _
  cases lexical : (Token.all path source).findSome? Token.lexProblem? with
  | some e => simp [Statement.parse_of_problem lexical]
  | none =>
    rw [Statement.parse_of_clean lexical]
    exact ⟨fun ⟨⟨_, found⟩, parsed⟩ => ⟨parsed, found⟩,
      fun ⟨parsed, found⟩ => ⟨⟨rfl, found⟩, parsed⟩⟩

/- In every source that parses, the names in command position are the commands of its statements,
in the same order and at the same places. -/
theorem commandTokens_parse {path source : String} {xs : List Statement}
    (parsed : Statement.parse path source = .ok xs) :
    (commandTokens none (Token.all path source)).map named = xs.flatMap Statement.commands := by
  cases lexical : (Token.all path source).findSome? Token.lexProblem? with
  | some e =>
    rw [Statement.parse_of_problem lexical] at parsed
    cases parsed
  | none =>
    rw [Statement.parse_of_clean lexical] at parsed
    -- The parser has read the tokens up to the end token, and that is the last one.
    have program := Grammar.Reads.start.run parsed
    obtain ⟨body, tokens, others⟩ := (Token.scans_scan path source).ended
    change Token.all path source = body ++ [Token.ending path source.toList] at tokens
    have before : (body ++ [Token.ending path source.toList]).takeWhile
        (fun t => t.kind ≠ .eof) = body := by
      rw [List.takeWhile_append_of_pos (by simpa using others)]
      simp [Token.ending]
    rw [tokens, before, List.nil_append] at program
    have last : ∀ t ∈ [Token.ending path source.toList].head?, t.kind = .eof := by
      simp [Token.ending]
    rw [tokens, program.commandTokens last]
    exact List.append_nil _

example : (commandTokens none (Token.all "stdin" "a && (X = 1 || b c); echo d")).map
    Token.lexeme = ["a", "b"] := by
  decide +kernel

theorem diagnostic_of_error {h : Highlighter} {path source : String} {e : ShellError}
    (refused : Statement.parse path source = .error e) :
    ∃ d, (h.highlight path source).diagnostic = some d ∧
      d.position.place ≤ e.position.place := by
  rw [diagnostic_highlight]
  cases lexical : (Token.all path source).findSome? Token.lexProblem? with
  | some problem =>
    rw [Statement.parse_of_problem lexical] at refused
    cases refused
    obtain ⟨a, found, early⟩ := h.tokenProblem?_of_problem none
      (Token.scans_scan path source).increasing lexical
    obtain ⟨d, shown, first⟩ := firstProblem?_le (.inl found)
    exact ⟨d, shown, first.trans early⟩
  | none =>
    rw [Statement.parse_of_clean lexical] at refused
    exact firstProblem?_le (.inr (grammarProblem?_of_error refused))

/-- The diagnostic agrees with the parser and with the lookup of commands. -/
theorem diagnostic_agrees (files : FileView) (env : Environment) (path source : String) :
    ((highlight ⟨files, env.get? "PATH"⟩ path source).diagnostic = none ↔
      ∃ xs, Statement.parse path source = .ok xs ∧
        ∀ c ∈ xs.flatMap Statement.commands,
          (files.resolve c.2 (env.get? "PATH")).isSome = true) ∧
    (∀ xs, Statement.parse path source = .ok xs →
      (commandTokens none (Token.all path source)).map named = xs.flatMap Statement.commands) ∧
    (∀ e, Statement.parse path source = .error e →
      ∃ d, (highlight ⟨files, env.get? "PATH"⟩ path source).diagnostic = some d ∧
        d.position.place ≤ e.position.place) := by
  refine ⟨?_, fun xs parsed => commandTokens_parse parsed,
    fun e refused => diagnostic_of_error refused⟩
  rw [diagnostic_eq_none_iff]
  constructor
  · rintro ⟨⟨xs, parsed⟩, found⟩
    refine ⟨xs, parsed, ?_⟩
    rw [← commandTokens_parse parsed]
    intro c member
    obtain ⟨t, command, rfl⟩ := List.mem_map.mp member
    exact found t command
  · rintro ⟨xs, parsed, found⟩
    refine ⟨⟨xs, parsed⟩, ?_⟩
    rw [← commandTokens_parse parsed] at found
    intro t command
    exact found (named t) (List.mem_map_of_mem command)

end Highlighter

end LineShell
