import LineShell.Proofs.Refusal
import LineShell.Proofs.Seams
import LineShell.Proofs.Tiling
import LineShell.Proofs.Unplaced

/-!
Sources that parse on their own, put one behind the other. In a larger source each of them has the
tokens that it has alone, up to places, and the parser reads them as the same statements.
-/

namespace LineShell

open Grammar

theorem Token.lexProblem?_eq_none_iff (t : Token) : t.lexProblem? = none ↔ t.IsSound := by
  unfold Token.lexProblem? Token.IsSound
  cases t.kind <;> simp

theorem Statement.parse_eq_ok_iff {path source : String} {xs : List Statement} :
    Statement.parse path source = .ok xs ↔
      (∀ t ∈ Token.all path source, t.IsSound) ∧
        Statement.ofTokens (Token.all path source) = .ok xs := by
  cases lexical : (Token.all path source).findSome? Token.lexProblem? with
  | some e =>
    obtain ⟨t, member, problem⟩ := List.exists_of_findSome?_eq_some lexical
    have broken : ¬t.IsSound := by
      rw [← Token.lexProblem?_eq_none_iff, problem]
      simp
    rw [Statement.parse_of_problem lexical]
    constructor
    · intro ok
      cases ok
    · intro sound
      exact absurd (sound.1 t member) broken
  | none =>
    rw [Statement.parse_of_clean lexical]
    have sound : ∀ t ∈ Token.all path source, t.IsSound := by
      intro t member
      rw [← Token.lexProblem?_eq_none_iff]
      exact List.findSome?_eq_none_iff.mp lexical t member
    exact ⟨fun parsed => ⟨sound, parsed⟩, fun h => h.2⟩

/-- In front of a separator or the end a program is read whole. -/
theorem Grammar.Program.run {ts us : List Token} {xs : List Statement} (h : Program ts xs)
    (breaks : Breaks us) (zs : List Statement) :
    (between zs).run (ts ++ us) = (between (zs ++ xs)).run us := by
  cases h with
  | empty separators => rw [run_separators separators, List.append_nil]
  | statements before first more after =>
    simp only [List.append_assoc]
    rw [run_separators before, run_statement first (more.breaks (after.breaks breaks)),
      run_more more (after.breaks breaks), run_separators after]
    simp

theorem run_separator {t : Token} (separator : t.kind = .separator) (us : List Token)
    (zs : List Statement) : (between zs).run (t :: us) = (between zs).run us :=
  run_separators (Separators.singleton separator) zs

theorem run_ending (path : String) (before : List Char) (zs : List Statement) :
    (between zs).run [Token.ending path before] = .ok zs := by
  simp [ParseState.run, ParseState.finish, Token.ending, between, ParseState.atBoundary]

namespace Token

theorem Scans.split {path : String} {before a : List Char} {segments : List Segment}
    (h : Scans path before a segments) :
    ∃ body gap, segments = body ++ [⟨gap, ending path (before ++ a)⟩] := by
  induction h with
  | finish _ => exact ⟨[], _, rfl⟩
  | @token before gap cs c segments _ _ _ _ ih =>
    obtain ⟨body, last, split⟩ := ih
    rw [behind_token] at split
    exact ⟨_ :: body, last, by rw [split, List.cons_append]⟩

/- A run whose tokens parse has read a program in front of the end token. -/
theorem Scans.program {path : String} {before a : List Char} {segments : List Segment}
    (h : Scans path before a segments) {xs : List Statement}
    (parsed : Statement.ofTokens (segments.map Segment.token) = .ok xs) {body : List Segment}
    {gap : String} (split : segments = body ++ [⟨gap, ending path (before ++ a)⟩]) :
    Grammar.Program (body.map Segment.token) xs := by
  obtain ⟨front, tokens, others⟩ := h.ended
  have same : front = body.map Segment.token := by
    rw [split, List.map_append] at tokens
    exact (List.append_inj_left' tokens rfl).symm
  have read := Reads.start.run parsed
  have cut : (front ++ [ending path (before ++ a)]).takeWhile (fun t => t.kind ≠ .eof) = front := by
    rw [List.takeWhile_append_of_pos (by simpa using others)]
    simp [ending]
  rwa [tokens, cut, List.nil_append, same] at read

/-- A source that parses on its own scans and parses alike behind any other characters. -/
theorem scans_of_parse {alone : String} {a : List Char} {ys : List Statement}
    (parsed : Statement.parse alone (String.ofList a) = .ok ys) (path : String)
    (before : List Char) :
    ∃ segments xs, Scans path before a segments ∧ (∀ s ∈ segments, s.token.IsSound) ∧
      segments.map Segment.gap = (scan alone (String.ofList a)).map Segment.gap ∧
      xs.map Statement.unplaced = ys.map Statement.unplaced ∧
      ∀ body gap, segments = body ++ [⟨gap, ending path (before ++ a)⟩] →
        Grammar.Program (body.map Segment.token) xs := by
  obtain ⟨sound, tokens⟩ := Statement.parse_eq_ok_iff.mp parsed
  have first := scans_scan alone (String.ofList a)
  rw [String.toList_ofList] at first
  obtain ⟨segments, run, alike⟩ := first.move path before
  have gaps := congrArg (List.map Prod.fst) alike
  have kinds := congrArg (List.map fun p => p.2.1) alike
  have bare := congrArg (List.map fun p => (⟨p.2.1, p.2.2, "", 0, .nowhere⟩ : Token)) alike
  simp only [List.map_map, Function.comp_def] at gaps kinds bare
  have unplaced : (segments.map Segment.token).map unplaced =
      (all alone (String.ofList a)).map unplaced := by
    rw [all, List.map_map, List.map_map]
    exact bare
  obtain ⟨xs, again, same⟩ := Statement.ofTokens_alike unplaced tokens
  refine ⟨segments, xs, run, ?_, gaps, same, fun body gap split => run.program again split⟩
  intro s member e error
  have kind : s.token.kind ∈ segments.map fun s => s.token.kind :=
    List.mem_map_of_mem (f := fun s : Segment => s.token.kind) member
  rw [kinds] at kind
  obtain ⟨t, there, eq⟩ := List.mem_map.mp kind
  exact sound t.token (List.mem_map_of_mem there) e (eq.trans error)

/-- A source behind other characters whose tokens are sound, and what they are read as between
statements. -/
structure Yields (path : String) (before a : List Char) (segments : List Segment)
    (xs : List Statement) : Prop where
  scans : Scans path before a segments
  sound : ∀ s ∈ segments, s.token.IsSound
  read : ∀ zs, (between zs).run (segments.map Segment.token) = .ok (zs ++ xs)

namespace Yields

variable {path gap : String} {before a : List Char} {body tail : List Segment}
  {xs ys : List Statement}

theorem last (scans : Scans path before a (body ++ [⟨gap, ending path (before ++ a)⟩]))
    (sound : ∀ s ∈ body, s.token.IsSound)
    (program : Grammar.Program (body.map Segment.token) xs) :
    Yields path before a (body ++ [⟨gap, ending path (before ++ a)⟩]) xs := by
  refine ⟨scans, ?_, ?_⟩
  · intro s member
    rcases List.mem_append.mp member with member | member
    · exact sound s member
    · rw [List.mem_singleton.mp member]
      simp [IsSound, ending]
  · intro zs
    rw [List.map_append, program.run (by simp [Breaks, ending])]
    exact run_ending path (before ++ a) (zs ++ xs)

/- A separator stands between what is in front of it and what is behind. -/
theorem separated {t : Token} (scans : Scans path before a (body ++ ⟨gap, t⟩ :: tail))
    (separator : t.kind = .separator) (sound : ∀ s ∈ body, s.token.IsSound)
    (program : Grammar.Program (body.map Segment.token) xs) {before' b : List Char}
    (behind : Yields path before' b tail ys) :
    Yields path before a (body ++ ⟨gap, t⟩ :: tail) (xs ++ ys) := by
  refine ⟨scans, ?_, ?_⟩
  · intro s member
    rcases List.mem_append.mp member with member | member
    · exact sound s member
    rcases List.mem_cons.mp member with rfl | member
    · intro e error
      rw [separator] at error
      cases error
    · exact behind.sound s member
  · intro zs
    have breaks : Breaks (t :: tail.map Segment.token) := by
      simpa [Breaks] using .inl separator
    rw [List.map_append, List.map_cons, program.run breaks, run_separator separator, behind.read,
      List.append_assoc]

theorem parse {source : String} {segments : List Segment}
    (h : Yields path [] source.toList segments xs) : Statement.parse path source = .ok xs := by
  have tokens : all path source = segments.map Segment.token := by
    rw [all, h.scans.eq_scan]
  rw [Statement.parse_eq_ok_iff, tokens]
  constructor
  · intro t member
    obtain ⟨s, there, rfl⟩ := List.mem_map.mp member
    exact h.sound s there
  · exact h.read []

end Yields

end Token

end LineShell
