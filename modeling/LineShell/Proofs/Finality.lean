import LineShell.Machine
import LineShell.Proofs.Effects
import LineShell.Proofs.Execution
import LineShell.Proofs.Refusal

/-!
Statuses and the end of a session. An evaluation leaves behind the status of its outcome, and an
exit is the last action of the evaluation that runs it.
-/

namespace LineShell

theorem ShellError.exitStatus_cases (e : ShellError) :
    ((∃ name, e.cause = .eval (.commandNotFound name)) ∧ e.exitStatus = 127) ∨
      ((∀ name, e.cause ≠ .eval (.commandNotFound name)) ∧ e.exitStatus = 1) := by
  obtain ⟨position, cause⟩ := e
  cases cause with
  | lex e => exact .inr ⟨by simp, rfl⟩
  | parse e => exact .inr ⟨by simp, rfl⟩
  | eval e => cases e <;> simp [ShellError.exitStatus, Cause.exitStatus, EvalError.exitStatus]

namespace Shell

variable {σ : Type}

/-- The session that actions leave behind. -/
def resume (s : Shell σ) (steps : List (Step σ)) : Shell σ :=
  steps.foldl (fun _ t => t.after) s

/-- An exit sets the flag and the status, and nothing else. -/
def exited (s : Shell σ) (code : Option Int) : Shell σ :=
  { s with
    env := { s.env with forcedExit := true, lastStatus := code.getD s.env.lastStatus } }

/-- Statuses are recorded, and nothing runs behind an exit. -/
structure Concludes (s : Shell σ) (steps : List (Step σ)) (outcome : Outcome) (final : Shell σ) :
    Prop where
  success : ∀ status, outcome = .ok status → final.env.lastStatus = status
  failure : ∀ e, outcome = .error e → final.env.lastStatus = e.exitStatus ∧
    (((∃ name, e.cause = .eval (.commandNotFound name)) ∧ e.exitStatus = 127) ∨
      ((∀ name, e.cause ≠ .eval (.commandNotFound name)) ∧ e.exitStatus = 1))
  ended : final.env.forcedExit = true ↔ ∃ t ∈ steps, ∃ code, t.action = .exit code
  exit : ∀ earlier t later code, steps = earlier ++ t :: later → t.action = .exit code →
    later = [] ∧ outcome = .ok (code.getD (s.resume earlier).env.lastStatus) ∧
      final = (s.resume earlier).exited code

/- Only an exit ends the session. -/
theorem forcedExit_step (host : Host σ) {s : Shell σ} (running : s.env.forcedExit = false)
    (position : Position) (action : Action) :
    (s.step host position action).after.env.forcedExit = true ↔ ∃ code, action = .exit code := by
  have effect := perform_effect host s action
  change (s.perform host action).2.env.forcedExit = true ↔ _
  generalize (s.perform host action).1 = result, (s.perform host action).2 = after at effect
  cases effect with
  | exit => simp
  | refused named =>
    simp only [running, Bool.false_eq_true, false_iff]
    rintro ⟨code, rfl⟩
    exact named rfl
  | outside _ other => simpa [running] using other
  | put named _ =>
    simp only [Environment.create, running, Bool.false_eq_true, false_iff]
    rintro ⟨code, rfl⟩
    cases named
  | entered => simp [running]

namespace Runs

variable {host : Host σ} {s final : Shell σ} {steps : List (Step σ)} {outcome : Outcome}

theorem lastStatus (h : Runs host s steps outcome final) :
    final.env.lastStatus = outcome.status := by
  induction h with
  | done => rfl
  | stop _ => exact lastStatus_step host _ _ _
  | next _ _ ih => exact ih

theorem forcedExit (h : Runs host s steps outcome final) (running : s.env.forcedExit = false) :
    final.env.forcedExit = true ↔ ∃ t ∈ steps, ∃ code, t.action = .exit code := by
  induction h with
  | done => simp [running]
  | stop _ =>
    rw [forcedExit_step host running]
    simp [step]
  | @next s final position action steps outcome goes _ ih =>
    have still : (s.step host position action).after.env.forcedExit = false :=
      Bool.eq_false_iff.mpr fun ended => goes (.inr ended)
    have other : ¬ ∃ code, action = .exit code := by
      rw [← forcedExit_step host running position, still]
      simp
    rw [ih still]
    simp only [List.mem_cons, exists_eq_or_imp]
    exact ⟨.inr, fun h => h.resolve_left other⟩

/- The rest of a run is a run from the session that its first actions leave behind. -/
theorem behind {earlier later : List (Step σ)} {t : Step σ}
    (h : Runs host s (earlier ++ t :: later) outcome final) :
    Runs host (s.resume earlier) (t :: later) outcome final := by
  induction earlier generalizing s with
  | nil => exact h
  | cons u earlier ih =>
    rw [List.cons_append] at h
    generalize rest : earlier ++ t :: later = tail at h
    cases h with
    | stop _ => simp at rest
    | next _ more =>
      rw [← rest] at more
      exact ih more

theorem exit {earlier later : List (Step σ)} {t : Step σ} {code : Option Int}
    (h : Runs host s (earlier ++ t :: later) outcome final) (exits : t.action = .exit code) :
    later = [] ∧ outcome = .ok (code.getD (s.resume earlier).env.lastStatus) ∧
      final = (s.resume earlier).exited code := by
  generalize s.resume earlier = before, h.behind = last
  cases last with
  | stop _ =>
    cases exits
    exact ⟨rfl, rfl, rfl⟩
  | next goes _ =>
    cases exits
    exact absurd (.inr rfl) goes

theorem concludes (h : Runs host s steps outcome final) (running : s.env.forcedExit = false) :
    Concludes s steps outcome final where
  success := by
    rintro status rfl
    exact h.lastStatus
  failure := by
    rintro e rfl
    exact ⟨h.lastStatus, e.exitStatus_cases⟩
  ended := h.forcedExit running
  exit := by
    rintro earlier t later code rfl exits
    exact h.exit exits

end Runs

theorem concludes_of_error {s : Shell σ} {path source : String} {e : ShellError}
    (refused : Statement.parse path source = .error e) (running : s.env.forcedExit = false) :
    Concludes s [] (.error e) (s.setStatus 1) where
  success := by
    intro status ok
    cases ok
  failure := by
    intro e' same
    cases same
    exact ⟨(Statement.exitStatus_parse refused).symm, e.exitStatus_cases⟩
  ended := by simp [setStatus, running]
  exit := by simp

/-- `evaluateSteps` are the actions of the evaluation, so the last part says that nothing at all
happens behind an exit, wherever in the source it stands. -/
theorem evaluate_concludes (host : Host σ) (s : Shell σ) (path source : String)
    (running : s.env.forcedExit = false) :
    (∀ xs, Statement.parse path source = .ok xs →
      Runs host s (s.evaluateSteps host path source) (s.evaluate host path source).1
        (s.evaluate host path source).2) ∧
    Concludes s (s.evaluateSteps host path source) (s.evaluate host path source).1
      (s.evaluate host path source).2 := by
  cases parsed : Statement.parse path source with
  | error e =>
    obtain ⟨result, steps⟩ := evaluate_of_error host s parsed
    rw [result, steps]
    exact ⟨nofun, concludes_of_error parsed running⟩
  | ok xs =>
    have run := runs_evaluate host s parsed
    exact ⟨fun _ _ => run, run.concludes running⟩

/- An exit inside a group, with more behind it in its chain and in the source. -/
theorem evaluate_concludes_group :
    let s : Shell Machine :=
      ⟨{ Environment.empty with lastStatus := 4 }, ⟨.empty, .root, [], ⟨none, false⟩, "", ""⟩⟩
    let source := "(let a = 1 && exit) || help; cd"
    s.env.forcedExit = false ∧
      (s.evaluateSteps Machine.host "stdin" source).map Step.action =
        [.define "a" "1", .exit none] ∧
      (s.evaluate Machine.host "stdin" source).2.env.forcedExit = true := by
  intro s source
  have actions : (s.evaluateSteps Machine.host "stdin" source).map Step.action =
      [.define "a" "1", .exit none] := by decide +kernel
  have concludes := (evaluate_concludes Machine.host s "stdin" source rfl).2
  have exits :
      Action.exit none ∈ (s.evaluateSteps Machine.host "stdin" source).map Step.action := by
    simp [actions]
  obtain ⟨t, member, action⟩ := List.mem_map.mp exits
  exact ⟨rfl, actions, concludes.ended.mpr ⟨t, member, none, action⟩⟩

end Shell

end LineShell
