import LineShell.Proofs.Acceptance
import LineShell.Proofs.Execution

/-!
Places carry no meaning. Parsing and running commute with forgetting where tokens stand, so two
sources with the same kinds and lexemes have the same statements, or the same failure, and do the
same; only the places in their statements and failures differ.
-/

namespace LineShell

/-- The place of everything whose place is forgotten. -/
def Position.nowhere : Position :=
  Token.missing.position

def Token.unplaced (t : Token) : Token :=
  ⟨t.kind, t.lexeme, "", 0, .nowhere⟩

def ShellError.unplaced (e : ShellError) : ShellError :=
  ⟨.nowhere, e.cause⟩

def Statement.unplaced : Statement → Statement
  | .action _ a => .action .nowhere a
  | .chain _ op left right => .chain .nowhere op left.unplaced right.unplaced

def Waiting.unplaced (w : Waiting) : Waiting :=
  ⟨.nowhere, w.op, w.left.unplaced⟩

def Chain.unplaced (chain : Chain) : Chain :=
  chain.map Waiting.unplaced

def Stage.unplaced : Stage → Stage
  | .factor => .factor
  | .action _ draft => .action .nowhere draft
  | .chained statement => .chained statement.unplaced

def ParseState.unplaced (s : ParseState) : ParseState :=
  ⟨s.finished.map Statement.unplaced, s.groups.map Chain.unplaced, s.chain.unplaced,
    s.stage.unplaced⟩

/-- A result of which the places are forgotten. -/
def forget {α : Type} (f : α → α) : Except ShellError α → Except ShellError α
  | .ok a => .ok (f a)
  | .error e => .error e.unplaced

theorem forget_eq_ok {α : Type} {f : α → α} {x : Except ShellError α} {b : α}
    (h : forget f x = .ok b) : ∃ a, x = .ok a ∧ f a = b := by
  cases x with
  | ok a => exact ⟨a, rfl, Except.ok.inj h⟩
  | error e => cases h

theorem forget_eq_error {α : Type} {f : α → α} {x : Except ShellError α} {e : ShellError}
    (h : forget f x = .error e) : ∃ e', x = .error e' ∧ e'.unplaced = e := by
  cases x with
  | ok a => cases h
  | error e' => exact ⟨e', rfl, Except.error.inj h⟩

namespace Token

theorem unplaced_reject (t : Token) (problem : ParseError) :
    (t.reject problem).unplaced = t.unplaced.reject problem := by
  obtain ⟨kind, lexeme, raw, start, position⟩ := t
  cases kind <;> rfl

theorem unplaced_unexpected (t : Token) : t.unexpected.unplaced = t.unplaced.unexpected :=
  unplaced_reject t _

theorem unplaced_expected (t : Token) (wanted : Kind) :
    (t.expected wanted).unplaced = t.unplaced.expected wanted :=
  unplaced_reject t _

end Token

theorem Draft.unplaced_refuse (d : Draft) (t : Token) :
    (d.refuse t).unplaced = d.refuse t.unplaced := by
  cases d <;> exact Token.unplaced_reject t _

/- A token is accepted or refused by its kind and its lexeme. -/
theorem forget_draft (ok : Bool) (next d : Draft) (t : Token) :
    forget id (if ok then .ok next else .error (d.refuse t)) =
      if ok then .ok next else .error (d.refuse t.unplaced) := by
  cases ok with
  | true => rfl
  | false => exact congrArg Except.error (d.unplaced_refuse t)

theorem Draft.forget_extend (d : Draft) (t : Token) :
    forget id (d.extend t) = d.extend t.unplaced := by
  cases d with
  | run name args =>
    by_cases equals : args = [] ∧ t.kind = .equals
    · simp [Draft.extend, Token.unplaced, equals, forget]
    · have same : ¬(args = [] ∧ t.unplaced.kind = .equals) := equals
      simp only [Draft.extend]
      rw [if_neg equals, if_neg same]
      exact forget_draft _ _ (.run name args) t
  | exitCode =>
    simp only [Draft.extend, Token.unplaced]
    split
    · rfl
    · rfl
    · exact congrArg Except.error (Draft.exitCode.unplaced_refuse t)
  | complete action => exact congrArg Except.error ((Draft.complete action).unplaced_refuse t)
  | assignValue | defineName | defineEquals | defineValue | shareName | echo | directory =>
    exact forget_draft _ _ _ t

namespace ParseState

theorem unplaced_close_chain (chain : Chain) (x : Statement) :
    (chain.close x).unplaced = chain.unplaced.close x.unplaced := by
  cases chain <;> rfl

theorem atBoundary_unplaced (s : ParseState) : s.unplaced.atBoundary = s.atBoundary := by
  obtain ⟨finished, groups, chain, stage⟩ := s
  cases stage <;> cases groups <;> cases chain <;> rfl

theorem forget_openFactor (s : ParseState) (t : Token) :
    forget unplaced (s.openFactor t) = s.unplaced.openFactor t.unplaced := by
  have boundary := atBoundary_unplaced s
  have refused := congrArg (Except.error (α := ParseState)) t.unplaced_unexpected
  unfold openFactor
  cases kind : t.kind with
  | separator =>
    simp only [Token.unplaced, kind, boundary]
    split
    · rfl
    · rwa [Token.unplaced, kind] at refused
  | word | bareWord | keyword => simp [Token.unplaced, kind, forget, unplaced, Stage.unplaced]
  | openParen => simp [Token.unplaced, kind, forget, unplaced, Stage.unplaced, Chain.unplaced]
  | _ =>
    simp only [Token.unplaced, kind]
    rwa [Token.unplaced, kind] at refused

theorem forget_follow (s : ParseState) (x : Statement) (t : Token) :
    forget unplaced (s.follow x t) = s.unplaced.follow x.unplaced t.unplaced := by
  obtain ⟨finished, groups, chain, stage⟩ := s
  obtain ⟨kind, lexeme, raw, start, position⟩ := t
  cases kind <;> cases groups <;>
    simp [follow, forget, unplaced, Token.unplaced, Stage.unplaced, Chain.unplaced,
      Waiting.unplaced, unplaced_close_chain, Token.unplaced_expected]

theorem forget_step (s : ParseState) (t : Token) :
    forget unplaced (s.step t) = s.unplaced.step t.unplaced := by
  unfold step
  cases stage : s.stage with
  | factor =>
    simp only [unplaced, stage, Stage.unplaced]
    have opened := forget_openFactor s t
    simpa only [unplaced, stage, Stage.unplaced] using opened
  | action position draft =>
    have extended : forget unplaced ((draft.extend t).map fun draft =>
        { s with stage := .action position draft }) =
        (draft.extend t.unplaced).map fun draft =>
          { s.unplaced with stage := .action .nowhere draft } := by
      rw [← draft.forget_extend t]
      cases draft.extend t <;> rfl
    have kind : t.unplaced.kind = t.kind := rfl
    simp only [unplaced, stage, Stage.unplaced, kind]
    cases t.kind.endsArguments with
    | false => exact extended
    | true =>
      cases draft.action? with
      | none => exact extended
      | some a =>
        have followed := forget_follow s (s.chain.close (.action position a)) t
        rw [unplaced_close_chain, Statement.unplaced] at followed
        simpa only [unplaced, stage, Stage.unplaced] using followed
  | chained statement =>
    have followed := forget_follow s statement t
    simpa only [unplaced, stage, Stage.unplaced] using followed

theorem forget_close (s : ParseState) (x : Statement) (t : Token) :
    forget (List.map Statement.unplaced) (s.close x t) =
      s.unplaced.close x.unplaced t.unplaced := by
  obtain ⟨finished, groups, chain, stage⟩ := s
  cases groups with
  | nil => simp [close, forget, unplaced]
  | cons chain chains => simp [close, forget, unplaced, Token.unplaced_expected]

theorem forget_finish (s : ParseState) (t : Token) :
    forget (List.map Statement.unplaced) (s.finish t) = s.unplaced.finish t.unplaced := by
  unfold finish
  cases stage : s.stage with
  | factor =>
    have same : s.unplaced.stage = .factor := by simp only [unplaced, stage, Stage.unplaced]
    simp only [same, atBoundary_unplaced]
    split
    · rfl
    · exact congrArg Except.error t.unplaced_unexpected
  | action position draft =>
    have same : s.unplaced.stage = .action .nowhere draft := by
      simp only [unplaced, stage, Stage.unplaced]
    simp only [same]
    cases draft.action? with
    | none => exact congrArg Except.error (draft.unplaced_refuse t)
    | some a =>
      have closed := forget_close s (s.chain.close (.action position a)) t
      rwa [unplaced_close_chain] at closed
  | chained statement =>
    have same : s.unplaced.stage = .chained statement.unplaced := by
      simp only [unplaced, stage, Stage.unplaced]
    simp only [same]
    exact forget_close s statement t

theorem forget_run (s : ParseState) (ts : List Token) :
    forget (List.map Statement.unplaced) (s.run ts) =
      s.unplaced.run (ts.map Token.unplaced) := by
  induction ts generalizing s with
  | nil => exact forget_finish s Token.missing
  | cons t ts ih =>
    have kind : t.unplaced.kind = t.kind := rfl
    have stepped := forget_step s t
    rw [List.map_cons, run, run, kind]
    split
    · exact forget_finish s t
    · rw [← stepped]
      cases s.step t with
      | error e => rfl
      | ok next => exact ih next

end ParseState

/-- The statements of tokens depend on their kinds and lexemes alone. -/
theorem Statement.ofTokens_alike {ts us : List Token}
    (alike : us.map Token.unplaced = ts.map Token.unplaced) {xs : List Statement}
    (parsed : Statement.ofTokens ts = .ok xs) :
    ∃ ys, Statement.ofTokens us = .ok ys ∧
      ys.map Statement.unplaced = xs.map Statement.unplaced := by
  have first := ParseState.forget_run .start ts
  have second := ParseState.forget_run .start us
  change ParseState.start.run ts = .ok xs at parsed
  rw [alike, ← first, parsed] at second
  exact forget_eq_ok second

namespace Shell

variable {σ : Type}

/- Running reads no places; they only come back in a failure. -/
theorem exec_unplaced (host : Host σ) (s : Shell σ) (x : Statement) :
    s.exec host x.unplaced = (forget id (s.exec host x).1, (s.exec host x).2) := by
  induction x generalizing s with
  | action position action =>
    rw [Statement.unplaced, exec, exec]
    cases s.perform host action with
    | mk result after => cases result <;> rfl
  | chain position op left right ihLeft ihRight =>
    rw [Statement.unplaced, exec_chain, exec_chain, ihLeft]
    cases s.exec host left with
    | mk outcome middle =>
      cases outcome with
      | error e => rfl
      | ok status =>
        simp only [forget, id]
        split
        · exact ihRight middle
        · rfl

theorem execAll_unplaced (host : Host σ) (s : Shell σ) (xs : List Statement) :
    s.execAll host (xs.map Statement.unplaced) =
      (forget id (s.execAll host xs).1, (s.execAll host xs).2) := by
  induction xs generalizing s with
  | nil => rfl
  | cons x xs ih =>
    rw [List.map_cons, execAll, execAll, exec_unplaced]
    cases s.exec host x with
    | mk outcome middle =>
      cases outcome with
      | error e => rfl
      | ok status =>
        simp only [forget, id]
        split
        · rfl
        · exact ih middle

/-- Statements that differ in places only leave the same session behind, and their outcomes differ
in the place of a failure only. -/
theorem execAll_alike (host : Host σ) (s : Shell σ) {xs ys : List Statement}
    (alike : ys.map Statement.unplaced = xs.map Statement.unplaced) :
    (s.execAll host ys).2 = (s.execAll host xs).2 ∧
      forget id (s.execAll host ys).1 = forget id (s.execAll host xs).1 := by
  have first := execAll_unplaced host s xs
  have second := execAll_unplaced host s ys
  rw [alike, first] at second
  exact ⟨(congrArg Prod.snd second).symm, (congrArg Prod.fst second).symm⟩

end Shell

end LineShell
