import LineShell.Machine
import LineShell.Proofs.Acceptance
import LineShell.Proofs.Execution

/-!
Chains run flat. A row is a first factor and its links, each an operator and a factor, and a factor
may be a row in parentheses. The parser folds a row to the left into one tree; running the tree is
the same as a loop that goes through the row once, whatever the host answers and records.
-/

namespace LineShell

mutual

/-- An action, or a row in parentheses. -/
inductive Factor where
  | action (position : Position) (action : Action)
  | group (first : Factor) (links : Links)

/-- What follows the first factor of a row. -/
inductive Links where
  | nil
  | cons (position : Position) (op : Connective) (factor : Factor) (rest : Links)

end

mutual

def Factor.tree : Factor → Statement
  | .action position action => .action position action
  | .group first links => links.fold first.tree

/-- The tree of a row whose left part has a tree already. -/
def Links.fold (left : Statement) : Links → Statement
  | .nil => left
  | .cons position op factor rest => rest.fold (.chain position op left factor.tree)

end

open Grammar in
mutual

/-- The tokens that a factor is written with. -/
def Factor.Written : Factor → List Token → Prop
  | .action position action, ts =>
    ∃ t args, ts = t :: args ∧ t.position = position ∧ Phrase t args action
  | .group first links, ts =>
    ∃ left us vs right, ts = left :: (us ++ vs) ++ [right] ∧ left.kind = .openParen ∧
      first.Written us ∧ links.Written vs ∧ right.kind = .closeParen

def Links.Written : Links → List Token → Prop
  | .nil, ts => ts = []
  | .cons position op factor rest, ts =>
    ∃ t us vs, ts = t :: us ++ vs ∧ t.position = position ∧ Connects t op ∧
      factor.Written us ∧ rest.Written vs

end

section Running

variable {σ : Type}

mutual

def Factor.run (host : Host σ) (s : Shell σ) : Factor → Outcome × Shell σ
  | .action position action => s.exec host (.action position action)
  | .group first links => links.loop host (first.run host s)

/-- Goes through the links of a row behind what has run of it so far. A failure and the end of the
session leave the loop; a factor that its operator does not ask for is passed over. -/
def Links.loop (host : Host σ) (current : Outcome × Shell σ) : Links → Outcome × Shell σ
  | .nil => current
  | .cons _ op factor rest =>
    match current with
    | (.error e, s) => (.error e, s)
    | (.ok status, s) =>
      if s.env.forcedExit then (.ok status, s)
      else if (op = .and ∧ status = 0) ∨ (op = .or ∧ status ≠ 0) then
        rest.loop host (factor.run host s)
      else rest.loop host (.ok status, s)

end

theorem Connective.continues_iff (op : Connective) (status : Int) :
    op.continues status = true ↔ (op = .and ∧ status = 0) ∨ (op = .or ∧ status ≠ 0) := by
  cases op <;> simp [Connective.continues]

theorem Links.loop_error (host : Host σ) (e : ShellError) (s : Shell σ) (links : Links) :
    links.loop host (.error e, s) = (.error e, s) := by
  cases links <;> rfl

theorem Links.loop_ended (host : Host σ) (status : Int) {s : Shell σ}
    (ended : s.env.forcedExit = true) (links : Links) :
    links.loop host (.ok status, s) = (.ok status, s) := by
  cases links with
  | nil => rfl
  | cons position op factor rest => rw [Links.loop, if_pos ended]

/-- One link: the tree that it adds a node to does what one round of the loop does. -/
theorem Links.loop_cons (host : Host σ) (s : Shell σ) (position : Position) (op : Connective)
    (left : Statement) (factor : Factor) (rest : Links)
    (same : ∀ s : Shell σ, s.exec host factor.tree = factor.run host s) :
    rest.loop host (s.exec host (.chain position op left factor.tree)) =
      (Links.cons position op factor rest).loop host (s.exec host left) := by
  rw [Shell.exec_chain]
  cases s.exec host left with
  | mk outcome s' =>
    cases outcome with
    | error e => exact Links.loop_error host e s' rest
    | ok status =>
      simp only [Links.loop, Bool.and_eq_true, Connective.continues_iff, Bool.not_eq_true', same]
      by_cases ended : s'.env.forcedExit = true
      · simpa [ended] using Links.loop_ended host status ended rest
      · simp only [ended, and_true]
        split <;> rfl

mutual

theorem Factor.exec_tree (host : Host σ) (s : Shell σ) :
    (f : Factor) → s.exec host f.tree = f.run host s
  | .action _ _ => rfl
  | .group first links => by
    rw [Factor.tree, Factor.run, Links.exec_fold host s first.tree links,
      Factor.exec_tree host s first]

theorem Links.exec_fold (host : Host σ) (s : Shell σ) (left : Statement) :
    (links : Links) → s.exec host (links.fold left) = links.loop host (s.exec host left)
  | .nil => rfl
  | .cons position op factor rest => by
    rw [Links.fold, Links.exec_fold host s _ rest]
    exact Links.loop_cons host s position op left factor rest
      fun s => Factor.exec_tree host s factor

end

end Running

open Grammar

mutual

theorem Factor.Written.derives :
    (f : Factor) → {ts : List Token} → f.Written ts → Derives .factor ts f.tree
  | .action position action, ts, written => by
    obtain ⟨t, args, rfl, rfl, phrase⟩ := written
    exact .action phrase
  | .group first links, ts, written => by
    obtain ⟨left, us, vs, right, rfl, opens, inner, more, closes⟩ := written
    have row := Links.Written.derives links (.factor (Factor.Written.derives first inner)) more
    exact .group opens row closes

theorem Links.Written.derives :
    (links : Links) → {us ts : List Token} → {x : Statement} → Derives .statement us x →
      links.Written ts → Derives .statement (us ++ ts) (links.fold x)
  | .nil, us, ts, x, left, written => by
    cases written
    simpa [Links.fold] using left
  | .cons position op factor rest, us, ts, x, left, written => by
    obtain ⟨t, vs, ws, rfl, rfl, connects, inner, more⟩ := written
    have longer := Derives.chain left connects (Factor.Written.derives factor inner)
    simpa [Links.fold] using Links.Written.derives rest longer more

end

theorem run_row {first : Factor} {links : Links} {ts us rest : List Token}
    (opened : first.Written ts) (linked : links.Written us)
    (ended : ∀ t ∈ rest.head?, t.kind = .eof) :
    Statement.ofTokens (ts ++ us ++ rest) = .ok [links.fold first.tree] := by
  have row := linked.derives links (.factor (opened.derives first))
  have program := Program.statements Separators.nil row .nil Separators.nil
  simpa [Statement.ofTokens] using run_program program ended

/-- The tree that the parser builds for a row runs like the loop over the row: same outcome, same
variables, and the same state of the host, which may hold a record of all output and children. -/
theorem exec_row {σ : Type} (host : Host σ) (s : Shell σ) (first : Factor) (links : Links)
    (ts us rest : List Token) (opened : first.Written ts) (linked : links.Written us)
    (ended : ∀ t ∈ rest.head?, t.kind = .eof) :
    ∃ x, Statement.ofTokens (ts ++ us ++ rest) = .ok [x] ∧
      s.exec host x = links.loop host (first.run host s) := by
  refine ⟨links.fold first.tree, run_row opened linked ended, ?_⟩
  rw [Links.exec_fold, Factor.exec_tree]

/- The row `exit || (help && cd)`, on a machine without files. -/
theorem exec_row_nested :
    let token (kind : Kind) (text : String) (column : Nat) : Token :=
      ⟨kind, text, text, column - 1, ⟨"stdin", 1, column⟩⟩
    let first : Factor := .action ⟨"stdin", 1, 1⟩ (.exit none)
    let inner : Links :=
      .cons ⟨"stdin", 1, 15⟩ .and (.action ⟨"stdin", 1, 18⟩ (.changeDir "~/")) .nil
    let links : Links :=
      .cons ⟨"stdin", 1, 6⟩ .or (.group (.action ⟨"stdin", 1, 10⟩ .help) inner) .nil
    let ts := [token (.keyword .exit) "exit" 1]
    let us := [token .or "||" 6, token .openParen "(" 9, token (.keyword .help) "help" 10,
      token .and "&&" 15, token (.keyword .changeDir) "cd" 18, token .closeParen ")" 20]
    let s : Shell Machine :=
      ⟨{ Environment.empty with lastStatus := 3 }, ⟨.empty, .root, [], ⟨none, false⟩, "", ""⟩⟩
    first.Written ts ∧ links.Written us ∧
      ∃ x, Statement.ofTokens (ts ++ us ++ [token .eof "" 21]) = .ok [x] ∧
        s.exec Machine.host x = links.loop Machine.host (first.run Machine.host s) := by
  intro token first inner links ts us s
  have opened : first.Written ts := ⟨_, [], rfl, rfl, .exit rfl⟩
  have changes : inner.Written [token .and "&&" 15, token (.keyword .changeDir) "cd" 18] :=
    ⟨_, [_], [], rfl, rfl, rfl, ⟨_, [], rfl, rfl, .goHome rfl⟩, rfl⟩
  have linked : links.Written us :=
    ⟨_, us.tail, [], rfl, rfl, rfl,
      ⟨_, [_], _, _, rfl, rfl, ⟨_, [], rfl, rfl, .help rfl⟩, changes, rfl⟩, rfl⟩
  exact ⟨opened, linked,
    exec_row Machine.host s first links ts us _ opened linked (by simp [token])⟩

end LineShell
