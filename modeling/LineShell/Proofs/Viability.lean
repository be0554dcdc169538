import LineShell.Proofs.Acceptance
import LineShell.Proofs.Positions
import LineShell.Proofs.Refusal
import LineShell.Proofs.Seams
import LineShell.Proofs.Tiling

/-!
A failure of the parser is at the first token that cannot go on. Whatever has been read can still
become a program: `ParseState.remaining` lists tokens that finish the action in hand, close the open
groups and end the list. So the tokens in front of a failure are the start of a program, and with
the failing token no list of tokens is one any more.
-/

namespace LineShell

open Grammar

namespace Token

/-- A token of which only the kind counts. -/
def ofKind (kind : Kind) : Token :=
  { missing with kind := kind }

/-- The end token is the last one, and the only one of its kind. -/
def Closed (ts : List Token) : Prop :=
  ∃ body last, ts = body ++ [last] ∧ (∀ t ∈ body, t.kind ≠ .eof) ∧ last.kind = .eof

theorem Closed.append {ts us : List Token} (inner : ∀ t ∈ ts, t.kind ≠ .eof) (h : Closed us) :
    Closed (ts ++ us) := by
  obtain ⟨body, last, rfl, others, ends⟩ := h
  refine ⟨ts ++ body, last, (List.append_assoc ..).symm, ?_, ends⟩
  intro t ht
  rcases List.mem_append.mp ht with ht | ht
  · exact inner t ht
  · exact others t ht

theorem Closed.tail {t : Token} {ts : List Token} (more : t.kind ≠ .eof)
    (h : Closed (t :: ts)) : Closed ts := by
  obtain ⟨body, last, split, others, ends⟩ := h
  cases body with
  | nil =>
    cases split
    exact absurd ends more
  | cons u body =>
    cases split
    exact ⟨body, last, rfl, fun t ht => others t (List.mem_cons_of_mem _ ht), ends⟩

theorem closed_all (path source : String) : Closed (all path source) := by
  obtain ⟨body, tokens, others⟩ := (scans_scan path source).ended
  exact ⟨body, _, tokens, others, rfl⟩

end Token

/-- Tokens that finish an action. -/
def Draft.remaining : Draft → List Token
  | run _ _ | exitCode | echo _ | directory | complete _ => []
  | assignValue _ | defineValue _ | shareName => [.ofKind .word]
  | defineEquals _ => [.ofKind .equals, .ofKind .word]
  | defineName => [.ofKind .word, .ofKind .equals, .ofKind .word]

/- The first of them brings the action one token closer to its end. -/
theorem Draft.extend_remaining (d : Draft) {t : Token} {ts : List Token}
    (h : d.remaining = t :: ts) :
    t.kind.endsArguments = false ∧ ∃ next, d.extend t = .ok next ∧ next.remaining = ts := by
  cases d <;> cases h <;> exact ⟨rfl, _, rfl, rfl⟩

theorem Draft.action_of_remaining (d : Draft) (h : d.remaining = []) :
    ∃ a, d.action? = some a := by
  cases d <;> cases h <;> exact ⟨_, rfl⟩

namespace ParseState

/-- Tokens that close the open groups, and the end token. -/
def closing (s : ParseState) : List Token :=
  s.groups.map (fun _ => .ofKind .closeParen) ++ [.ofKind .eof]

/-- Tokens that turn what has been read into a program. -/
def remaining (s : ParseState) : List Token :=
  match s.stage with
  | .factor => .ofKind .word :: s.closing
  | .action _ draft => draft.remaining ++ s.closing
  | .chained _ => s.closing

theorem closed_closing (s : ParseState) : Token.Closed s.closing :=
  ⟨_, _, rfl, by simp [Token.ofKind], rfl⟩

theorem closed_remaining (s : ParseState) : Token.Closed s.remaining := by
  unfold remaining
  split
  · exact @Token.Closed.append [.ofKind .word] _ (by simp [Token.ofKind]) s.closed_closing
  · rename_i draft _
    refine Token.Closed.append ?_ s.closed_closing
    cases draft <;> simp [Draft.remaining, Token.ofKind]
  · exact s.closed_closing

theorem stops_closing (s : ParseState) : Stops s.closing := by
  unfold closing
  cases s.groups <;> exact stops_cons rfl

/- Each closing parenthesis leaves one open group less. -/
theorem run_closing {s : ParseState} {x : Statement} (stage : s.stage = .chained x) :
    ∃ xs, s.run s.closing = .ok xs := by
  obtain ⟨finished, groups, chain, stage'⟩ := s
  cases stage
  induction groups generalizing chain x with
  | nil => exact ⟨_, rfl⟩
  | cons outer groups ih => exact ih none

theorem run_draft {s : ParseState} {p : Position} {d : Draft} (stage : s.stage = .action p d) :
    ∃ a, ∀ us, Stops us → s.run (d.remaining ++ us) = (behind s (.action p a)).run us := by
  generalize left : d.remaining = ts
  induction ts generalizing s d with
  | nil =>
    obtain ⟨a, complete⟩ := d.action_of_remaining left
    exact ⟨a, fun us stops => run_settle stage complete stops⟩
  | cons t ts ih =>
    obtain ⟨continues, next, extended, later⟩ := d.extend_remaining left
    obtain ⟨a, go⟩ := ih (s := { s with stage := .action p next }) rfl later
    refine ⟨a, fun us stops => ?_⟩
    rw [List.cons_append, run_extend stage continues extended]
    exact go us stops

/-- Whatever the parser has read is the start of something that it accepts. -/
theorem run_remaining (s : ParseState) : ∃ xs, s.run s.remaining = .ok xs := by
  unfold remaining
  cases stage : s.stage with
  | factor =>
    have name : IsName (.ofKind .word) := .inl rfl
    rw [run_name name stage]
    obtain ⟨a, go⟩ := run_draft (s := { s with stage := .action _ (.run _ []) }) rfl
    exact (go s.closing s.stops_closing).symm ▸ run_closing rfl
  | action p d =>
    obtain ⟨a, go⟩ := run_draft stage
    exact (go s.closing s.stops_closing).symm ▸ run_closing rfl
  | chained x => exact run_closing stage

/- Error tokens have no place in a program. -/
theorem sound_of_extend {d d' : Draft} {t : Token} (accepted : d.extend t = .ok d') :
    t.IsSound := by
  intro problem kind
  cases d <;> simp [Draft.extend, kind, Kind.isArgument, Kind.isName] at accepted

theorem sound_of_follow {s s' : ParseState} {x : Statement} {t : Token}
    (accepted : s.follow x t = .ok s') : t.IsSound := by
  intro problem kind
  cases groups : s.groups <;> simp [follow, kind, groups] at accepted

theorem sound_of_step {s s' : ParseState} {t : Token} (accepted : s.step t = .ok s') :
    t.IsSound := by
  unfold step at accepted
  split at accepted
  · intro problem kind
    simp [openFactor, kind] at accepted
  · rename_i d _
    split at accepted
    · exact sound_of_follow accepted
    · cases extended : d.extend t with
      | error e => simp [extended, Except.map] at accepted
      | ok next => exact sound_of_extend extended
  · exact sound_of_follow accepted

/-- A failing run stops at one token. What stands before it can be gone on with, and it cannot. -/
theorem run_error {s : ParseState} {ts : List Token} {e : ShellError} (closed : Token.Closed ts)
    (failed : s.run ts = .error e) :
    ∃ front t back, ts = front ++ t :: back ∧ Refuses t e ∧
      (∀ u ∈ front, u.kind ≠ .eof ∧ u.IsSound) ∧
      (∃ more xs, Token.Closed more ∧ s.run (front ++ more) = .ok xs) ∧
      ∀ more, s.run (front ++ t :: more) = .error e := by
  induction ts generalizing s with
  | nil =>
    obtain ⟨body, last, split, _⟩ := closed
    simp at split
  | cons t ts ih =>
    have viable : ∃ more xs, Token.Closed more ∧ s.run ([] ++ more) = .ok xs := by
      obtain ⟨xs, accepted⟩ := s.run_remaining
      exact ⟨s.remaining, xs, s.closed_remaining, accepted⟩
    by_cases eof : t.kind = .eof
    · have finished : s.finish t = .error e := by simpa [run, eof] using failed
      exact ⟨[], t, ts, rfl, refuses_finish finished, by simp, viable,
        fun more => by simp [run, eof, finished]⟩
    · cases stepped : s.step t with
      | error problem =>
        have same : problem = e := by simpa [run, eof, stepped] using failed
        subst same
        exact ⟨[], t, ts, rfl, refuses_step stepped, by simp, viable,
          fun more => by simp [run, eof, stepped]⟩
      | ok next =>
        rw [run_cons eof stepped] at failed
        obtain ⟨front, u, back, rfl, refuses, inner, ⟨more, xs, ends, accepted⟩, dead⟩ :=
          ih (closed.tail eof) failed
        refine ⟨t :: front, u, back, rfl, refuses, ?_, ⟨more, xs, ends, ?_⟩, ?_⟩
        · intro v member
          rcases List.mem_cons.mp member with rfl | member
          · exact ⟨eof, sound_of_step stepped⟩
          · exact inner v member
        · rwa [List.cons_append, run_cons eof stepped]
        · intro more
          rw [List.cons_append, run_cons eof stepped]
          exact dead more

end ParseState

/-- A failure at `t`, which reports it. Behind `front` a program can still follow, behind `t` none
can. -/
structure FailsAt (front : List Token) (t : Token) (e : ShellError) : Prop where
  refuses : Refuses t e
  viable : ∃ more xs, Token.Closed (front ++ more) ∧ Statement.ofTokens (front ++ more) = .ok xs
  dead : ∀ more xs, Statement.ofTokens (front ++ t :: more) ≠ .ok xs
  sound : ∀ u ∈ front, u.IsSound

/- Every place in a source is behind the one that stands for a missing end token. -/
theorem Token.position_ne_missing {path source : String} {t : Token}
    (member : t ∈ Token.all path source) : t.position ≠ Token.missing.position := by
  obtain ⟨s, hs, rfl⟩ := List.mem_map.mp member
  have later := (Token.scans_scan path source).place_lt s hs
  intro missing
  rw [missing] at later
  exact absurd later (by decide)

theorem Token.increasing_all (path source : String) :
    (Token.all path source).Pairwise fun t u => t.position.place < u.position.place :=
  (Token.scans_scan path source).increasing

/-- A failure of the parser is at the first token that cannot go on, so in a source no error token
stands before it. -/
theorem Statement.ofTokens_error (ts : List Token) (closed : Token.Closed ts) (e : ShellError)
    (failed : Statement.ofTokens ts = .error e) :
    (∃ front t back, ts = front ++ t :: back ∧ FailsAt front t e) ∧
    ∀ path source, ts = Token.all path source →
      e.position ≠ Token.missing.position ∧
      ∀ u ∈ ts, ¬u.IsSound → ¬u.position.before e.position := by
  obtain ⟨front, t, back, rfl, refuses, inner, ⟨more, xs, ends, accepted⟩, dead⟩ :=
    ParseState.run_error closed failed
  refine ⟨⟨front, t, back, rfl, refuses, ?_, ?_, fun u hu => (inner u hu).2⟩, ?_⟩
  · exact ⟨more, xs, .append (fun u hu => (inner u hu).1) ends, accepted⟩
  · intro more xs accepted
    cases (dead more).symm.trans accepted
  intro path source tokens
  have member : t ∈ Token.all path source := by
    rw [← tokens]
    exact List.mem_append_right _ List.mem_cons_self
  have increasing := Token.increasing_all path source
  rw [← tokens, List.pairwise_append, List.pairwise_cons] at increasing
  rw [refuses.1]
  refine ⟨Token.position_ne_missing member, ?_⟩
  intro u member broken before
  rw [Position.before_iff] at before
  rcases List.mem_append.mp member with member | member
  · exact broken (inner u member).2
  rcases List.mem_cons.mp member with rfl | member
  · exact lt_irrefl _ before
  · exact lt_asymm before (increasing.2.1.1 u member)

/- The semicolon in the group is in the way, and the open string behind it is not reached. -/
theorem Statement.ofTokens_error_group :
    Statement.ofTokens (Token.all "f" "(echo a; 'b") =
      .error ⟨⟨"f", 1, 8⟩, .parse (.expected .closeParen "separator")⟩ ∧
    ∃ front t back, Token.all "f" "(echo a; 'b" = front ++ t :: back ∧
      FailsAt front t ⟨⟨"f", 1, 8⟩, .parse (.expected .closeParen "separator")⟩ := by
  have failed : Statement.ofTokens (Token.all "f" "(echo a; 'b") =
      .error ⟨⟨"f", 1, 8⟩, .parse (.expected .closeParen "separator")⟩ := by decide +kernel
  exact ⟨failed, (Statement.ofTokens_error _ (Token.closed_all _ _) _ failed).1⟩

end LineShell
