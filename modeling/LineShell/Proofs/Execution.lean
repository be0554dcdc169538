import LineShell.Evaluate

/-!
What an evaluation runs, as a list of actions. `Runs` says what such a list is: each action starts
from the session that the one before it left, and nothing runs behind a failure or behind an action
that ends the session. The result of an evaluation is the result of its list, so a fact about every
evaluation is a fact about one action and an induction over the list.
-/

namespace LineShell

/-- An action that ran, with the session before and after it. -/
structure Step (σ : Type) where
  position : Position
  action : Action
  before : Shell σ
  outcome : Outcome
  after : Shell σ

namespace Step

variable {σ : Type}

/-- Nothing runs behind such an action. -/
def Stops (t : Step σ) : Prop :=
  (∃ e, t.outcome = .error e) ∨ t.after.env.forcedExit = true

end Step

namespace Shell

variable {σ : Type}

def step (host : Host σ) (s : Shell σ) (position : Position) (action : Action) : Step σ :=
  let (outcome, after) := s.exec host (.action position action)
  ⟨position, action, s, outcome, after⟩

/-- The actions that a statement runs, in order. -/
def steps (host : Host σ) (s : Shell σ) : Statement → List (Step σ)
  | .action position action => [s.step host position action]
  | .chain _ op left right =>
    s.steps host left ++
      match s.exec host left with
      | (.error _, _) => []
      | (.ok status, s) =>
        if op.continues status && !s.env.forcedExit then s.steps host right else []

def stepsAll (host : Host σ) (s : Shell σ) : List Statement → List (Step σ)
  | [] => []
  | statement :: rest =>
    s.steps host statement ++
      match s.exec host statement with
      | (.error _, _) => []
      | (.ok _, s) => if s.env.forcedExit then [] else s.stepsAll host rest

/-- A source that does not parse runs nothing. -/
def evaluateSteps (host : Host σ) (s : Shell σ) (path source : String) : List (Step σ) :=
  match Statement.parse path source with
  | .error _ => []
  | .ok statements => s.stepsAll host statements

theorem record_eq {outcome : Outcome} {s : Shell σ} (h : s.env.lastStatus = outcome.status) :
    record outcome s = (outcome, s) := by
  rw [record, setStatus, ← h]

/-- Every statement leaves behind the status of its outcome. -/
theorem lastStatus_exec (host : Host σ) (s : Shell σ) (x : Statement) :
    (s.exec host x).2.env.lastStatus = (s.exec host x).1.status := by
  cases x with
  | action position action => rfl
  | chain position op left right =>
    simp only [exec]
    split
    · rfl
    · split <;> rfl

/- A chain records what its last part has recorded already. -/
theorem exec_chain (host : Host σ) (s : Shell σ) (position : Position) (op : Connective)
    (left right : Statement) :
    s.exec host (.chain position op left right) =
      match s.exec host left with
      | (.error e, s) => (.error e, s)
      | (.ok status, s) =>
        if op.continues status && !s.env.forcedExit then s.exec host right
        else (.ok status, s) := by
  have recorded := lastStatus_exec host s left
  rw [exec]
  cases result : s.exec host left with
  | mk outcome middle =>
    rw [result] at recorded
    cases outcome with
    | error e => exact record_eq recorded
    | ok status =>
      dsimp only
      split
      · exact record_eq (lastStatus_exec host middle right)
      · exact record_eq recorded

/-- Actions that ran one after the other, with the outcome and the session that they lead to. -/
inductive Runs (host : Host σ) : Shell σ → List (Step σ) → Outcome → Shell σ → Prop where
  | done {s : Shell σ} : Runs host s [] (.ok s.env.lastStatus) s
  | stop {s : Shell σ} {position : Position} {action : Action} :
      (s.step host position action).Stops →
      Runs host s [s.step host position action] (s.step host position action).outcome
        (s.step host position action).after
  | next {s final : Shell σ} {position : Position} {action : Action} {steps : List (Step σ)}
      {outcome : Outcome} :
      ¬ (s.step host position action).Stops →
      Runs host (s.step host position action).after steps outcome final →
      Runs host s (s.step host position action :: steps) outcome final

theorem lastStatus_step (host : Host σ) (s : Shell σ) (position : Position) (action : Action) :
    (s.step host position action).after.env.lastStatus =
      (s.step host position action).outcome.status :=
  lastStatus_exec host s (.action position action)

theorem runs_action (host : Host σ) (s : Shell σ) (position : Position) (action : Action) :
    Runs host s [s.step host position action] (s.exec host (.action position action)).1
      (s.exec host (.action position action)).2 := by
  by_cases stops : (s.step host position action).Stops
  · exact .stop stops
  · cases result : (s.step host position action).outcome with
    | error e => exact absurd (.inl ⟨e, result⟩) stops
    | ok status =>
      have recorded := lastStatus_step host s position action
      have run := Runs.next stops .done
      rw [recorded, result] at run
      have outcome : (s.exec host (.action position action)).1 = .ok status := result
      rw [outcome]
      exact run

namespace Runs

variable {host : Host σ} {s final : Shell σ} {steps : List (Step σ)} {outcome : Outcome}

/-- A run that succeeded and did not end the session can go on. -/
theorem append {middle : Shell σ} {status : Int} {more : List (Step σ)}
    (first : Runs host s steps (.ok status) middle) (running : middle.env.forcedExit = false)
    (second : Runs host middle more outcome final) :
    Runs host s (steps ++ more) outcome final := by
  generalize reached : (Except.ok status : Outcome) = o at first
  induction first with
  | done => exact second
  | stop stops =>
    -- The first run neither failed nor ended the session, so it cannot have stopped.
    rcases stops with ⟨e, failed⟩ | ended
    · rw [failed] at reached
      cases reached
    · rw [ended] at running
      cases running
  | next goes _ ih => exact .next goes (ih running second reached)

end Runs

theorem runs_exec (host : Host σ) (s : Shell σ) (x : Statement) :
    Runs host s (s.steps host x) (s.exec host x).1 (s.exec host x).2 := by
  induction x generalizing s with
  | action position action => exact runs_action host s position action
  | chain position op left right ihLeft ihRight =>
    have first := ihLeft s
    rw [exec_chain, steps]
    cases result : s.exec host left with
    | mk outcome middle =>
      rw [result] at first
      cases outcome with
      | error e => simpa using first
      | ok status =>
        dsimp only
        split
        · rename_i goes
          have running : middle.env.forcedExit = false := by simp_all
          exact first.append running (ihRight middle)
        · simpa using first

theorem runs_execAll (host : Host σ) (s : Shell σ) (xs : List Statement) :
    Runs host s (s.stepsAll host xs) (s.execAll host xs).1 (s.execAll host xs).2 := by
  induction xs generalizing s with
  | nil => exact .done
  | cons x xs ih =>
    have first := runs_exec host s x
    rw [execAll, stepsAll]
    cases result : s.exec host x with
    | mk outcome middle =>
      rw [result] at first
      cases outcome with
      | error e => simpa using first
      | ok status =>
        dsimp only
        split
        · simpa using first
        · rename_i running
          exact first.append (Bool.eq_false_iff.mpr running) (ih middle)

theorem evaluate_of_error (host : Host σ) (s : Shell σ) {path source : String} {e : ShellError}
    (refused : Statement.parse path source = .error e) :
    s.evaluate host path source = (.error e, s.setStatus 1) ∧
      s.evaluateSteps host path source = [] := by
  simp only [evaluate, evaluateSteps, refused, and_self]

theorem runs_evaluate (host : Host σ) (s : Shell σ) {path source : String}
    {xs : List Statement} (parsed : Statement.parse path source = .ok xs) :
    Runs host s (s.evaluateSteps host path source) (s.evaluate host path source).1
      (s.evaluate host path source).2 := by
  simp only [evaluate, evaluateSteps, parsed]
  exact runs_execAll host s xs

end Shell

end LineShell
