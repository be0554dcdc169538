import LineShell.Statement.Parse

/-!
How the parser fails: always at the token in hand. An error token is its own reason, and any other
token breaks the grammar, so a source that does not parse leaves status 1 behind.
-/

namespace LineShell

/-- What a problem says was found is the token. -/
def ParseError.Names (t : Token) : ParseError → Prop
  | .unexpected found | .expected _ found => found = t.describe
  | .exitCodeRange code => code = t.lexeme

/-- A failure at a token. -/
def Refuses (t : Token) (e : ShellError) : Prop :=
  e.position = t.position ∧
    ((∃ problem, t.kind = .error problem ∧ e.cause = .lex problem) ∨
      (∀ problem, t.kind ≠ .error problem) ∧
        ∃ problem, e.cause = .parse problem ∧ problem.Names t)

theorem Refuses.exitStatus {t : Token} {e : ShellError} (h : Refuses t e) : e.exitStatus = 1 := by
  unfold ShellError.exitStatus
  rcases h.2 with ⟨problem, _, cause⟩ | ⟨_, problem, cause, _⟩ <;> simp [cause, Cause.exitStatus]

theorem refuses_reject {t : Token} {problem : ParseError} (names : problem.Names t) :
    Refuses t (t.reject problem) := by
  unfold Token.reject
  split
  · rename_i e kind
    exact ⟨rfl, .inl ⟨e, kind, rfl⟩⟩
  · rename_i other
    exact ⟨rfl, .inr ⟨other, problem, rfl, names⟩⟩

theorem refuses_unexpected (t : Token) : Refuses t t.unexpected :=
  refuses_reject rfl

theorem refuses_expected (t : Token) (wanted : Kind) : Refuses t (t.expected wanted) :=
  refuses_reject rfl

theorem Draft.refuses_refuse (d : Draft) (t : Token) : Refuses t (d.refuse t) := by
  cases d <;> exact refuses_reject rfl

/- A token is accepted or refused as the draft says. -/
theorem refused_draft {ok : Bool} {next d : Draft} {t : Token} {e : ShellError}
    (h : (if ok then .ok next else .error (d.refuse t) : Except ShellError Draft) = .error e) :
    Refuses t e := by
  split at h
  · cases h
  · cases h
    exact d.refuses_refuse t

theorem Draft.refuses_extend {d : Draft} {t : Token} {e : ShellError}
    (h : d.extend t = .error e) : Refuses t e := by
  cases d with
  | run name args =>
    simp only [Draft.extend] at h
    split at h
    · cases h
    · exact refused_draft h
  | exitCode =>
    simp only [Draft.extend] at h
    split at h
    · cases h
    · rename_i integer _
      cases h
      exact ⟨rfl, .inr ⟨by simp [integer], _, rfl, rfl⟩⟩
    · cases h
      exact Draft.exitCode.refuses_refuse t
  | complete action =>
    cases h
    exact (Draft.complete action).refuses_refuse t
  | assignValue | defineName | defineEquals | defineValue | shareName | echo | directory =>
    exact refused_draft h

namespace ParseState

variable {s : ParseState} {t : Token} {e : ShellError}

theorem refuses_openFactor (h : s.openFactor t = .error e) : Refuses t e := by
  unfold openFactor at h
  split at h
  · cases h
  · cases h
  · cases h
  · cases h
  · split at h
    · cases h
    · cases h
      exact refuses_unexpected t
  · cases h
    exact refuses_unexpected t

theorem refuses_follow {x : Statement} (h : s.follow x t = .error e) : Refuses t e := by
  unfold follow at h
  split at h
  · cases h
  · cases h
  · cases h
  · cases h
  · cases h
    exact refuses_expected t _
  · cases h
    exact refuses_expected t _

theorem refuses_step (h : s.step t = .error e) : Refuses t e := by
  unfold step at h
  split at h
  · exact refuses_openFactor h
  · rename_i position d _
    split at h
    · exact refuses_follow h
    · cases extended : d.extend t with
      | ok next => simp [extended, Except.map] at h
      | error problem =>
        rw [extended] at h
        cases h
        exact Draft.refuses_extend extended
  · exact refuses_follow h

theorem refuses_close {x : Statement} (h : s.close x t = .error e) : Refuses t e := by
  unfold close at h
  split at h
  · cases h
  · cases h
    exact refuses_expected t _

theorem refuses_finish (h : s.finish t = .error e) : Refuses t e := by
  unfold finish at h
  split at h
  · split at h
    · cases h
    · cases h
      exact refuses_unexpected t
  · rename_i position d _
    split at h
    · exact refuses_close h
    · cases h
      exact d.refuses_refuse t
  · exact refuses_close h

/-- A failed run has refused one of its tokens, or the end of a list without an end token. -/
theorem refuses_run {ts : List Token} (h : s.run ts = .error e) :
    ∃ t, (t ∈ ts ∨ t = Token.missing) ∧ Refuses t e := by
  induction ts generalizing s with
  | nil => exact ⟨Token.missing, .inr rfl, refuses_finish h⟩
  | cons t ts ih =>
    rw [run] at h
    split at h
    · exact ⟨t, .inl List.mem_cons_self, refuses_finish h⟩
    · split at h
      · obtain ⟨u, member, refused⟩ := ih h
        exact ⟨u, member.imp_left (List.mem_cons_of_mem t), refused⟩
      · rename_i problem failed
        cases h
        exact ⟨t, .inl List.mem_cons_self, refuses_step failed⟩

end ParseState

theorem Token.refuses_lexProblem? {t : Token} {e : ShellError} (h : t.lexProblem? = some e) :
    Refuses t e := by
  unfold Token.lexProblem? at h
  split at h
  · rename_i problem kind
    cases h
    exact ⟨rfl, .inl ⟨problem, kind, rfl⟩⟩
  · cases h

namespace Statement

variable {path source : String} {e : ShellError}

/- The first error token decides, and without any the parser does. -/
theorem parse_of_problem (lexical : (Token.all path source).findSome? Token.lexProblem? = some e) :
    Statement.parse path source = .error e := by
  unfold Statement.parse Token.checked
  simp only [lexical]
  rfl

theorem parse_of_clean (lexical : (Token.all path source).findSome? Token.lexProblem? = none) :
    Statement.parse path source = Statement.ofTokens (Token.all path source) := by
  unfold Statement.parse Token.checked
  simp only [lexical]
  rfl

theorem exitStatus_parse (h : Statement.parse path source = .error e) : e.exitStatus = 1 := by
  cases lexical : (Token.all path source).findSome? Token.lexProblem? with
  | some problem =>
    rw [parse_of_problem lexical] at h
    cases h
    obtain ⟨t, _, found⟩ := List.exists_of_findSome?_eq_some lexical
    exact (Token.refuses_lexProblem? found).exitStatus
  | none =>
    rw [parse_of_clean lexical] at h
    obtain ⟨t, _, refused⟩ := ParseState.refuses_run h
    exact refused.exitStatus

end Statement

end LineShell
