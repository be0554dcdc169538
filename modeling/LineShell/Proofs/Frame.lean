import LineShell.Proofs.Effects
import LineShell.Proofs.Execution

/-!
What an evaluation leaves alone. Variables change only where an action that ran names them, none is
removed, scopes above the global one are never touched, and a builtin that fails does nothing.
-/

namespace LineShell

namespace Shell

variable {σ : Type}

/-- The variables of a session before and after the actions that ran in between. -/
structure Framed (s : Shell σ) (steps : List (Step σ)) (final : Shell σ) : Prop where
  depth : final.env.depth = s.env.depth
  inner : final.env.inner = s.env.inner
  kept : ∀ name, s.env.globals.contains name = true → final.env.globals.contains name = true
  named : ∀ name, final.env.globals.find? name ≠ s.env.globals.find? name →
    ∃ t ∈ steps, name ∈ t.action.targets
  created : ∀ name, s.env.globals.contains name = false →
    final.env.globals.contains name = true → Identifier name

namespace Framed

variable {s middle final : Shell σ}

theorem of_variables (steps : List (Step σ)) (globals : final.env.globals = s.env.globals)
    (inner : final.env.inner = s.env.inner) : Framed s steps final where
  depth := by simp only [Environment.depth, inner]
  inner := inner
  kept := by simp [globals]
  named := by simp [globals]
  created := by
    intro name missing found
    rw [globals, missing] at found
    cases found

theorem trans {first second : List (Step σ)} (before : Framed s first middle)
    (behind : Framed middle second final) : Framed s (first ++ second) final where
  depth := behind.depth.trans before.depth
  inner := behind.inner.trans before.inner
  kept name found := behind.kept name (before.kept name found)
  named := by
    intro name differs
    by_cases early : middle.env.globals.find? name = s.env.globals.find? name
    · rw [← early] at differs
      obtain ⟨t, member, target⟩ := behind.named name differs
      exact ⟨t, List.mem_append_right first member, target⟩
    · obtain ⟨t, member, target⟩ := before.named name early
      exact ⟨t, List.mem_append_left second member, target⟩
  created := by
    intro name missing found
    by_cases early : middle.env.globals.contains name = true
    · exact before.created name missing early
    · exact behind.created name (Bool.eq_false_iff.mpr early) found

end Framed

/- One variable is put under a name that the action gives. -/
theorem framed_create {s final : Shell σ} {t : Step σ} {name value : String} {exported : Bool}
    (target : name ∈ t.action.targets)
    (allowed : s.env.globals.contains name = true ∨ Identifier name)
    (globals : final.env.globals = s.env.globals.create name value exported)
    (inner : final.env.inner = s.env.inner) : Framed s [t] final where
  depth := by simp only [Environment.depth, inner]
  inner := inner
  kept := by
    intro other found
    rw [globals, Scope.contains_create, found, Bool.or_true]
  named := by
    intro other differs
    rw [globals, Scope.find?_create] at differs
    by_cases same : other = name
    · exact ⟨t, List.mem_singleton.mpr rfl, same ▸ target⟩
    · exact absurd (if_neg same) differs
  created := by
    intro other missing found
    rw [globals, Scope.contains_create, missing, Bool.or_false, decide_eq_true_eq] at found
    subst found
    exact allowed.resolve_left (by simp [missing])

theorem framed_step (host : Host σ) (s : Shell σ) (position : Position) (action : Action) :
    Framed s [s.step host position action] (s.step host position action).after := by
  have effect := perform_effect host s action
  -- Recording the status touches no variable, so the effect of the action alone decides.
  have globals : (s.step host position action).after.env.globals =
      (s.perform host action).2.env.globals := rfl
  have inner : (s.step host position action).after.env.inner =
      (s.perform host action).2.env.inner := rfl
  generalize (s.perform host action).1 = result, (s.perform host action).2 = after
    at effect globals inner
  cases effect with
  | exit => exact .of_variables _ globals inner
  | refused _ => exact .of_variables _ globals inner
  | outside _ _ => exact .of_variables _ globals inner
  | put target allowed => exact framed_create target allowed globals inner
  | entered => exact .of_variables _ globals inner

theorem Runs.framed {host : Host σ} {s final : Shell σ} {steps : List (Step σ)}
    {outcome : Outcome} (h : Runs host s steps outcome final) : Framed s steps final := by
  induction h with
  | done => exact .of_variables [] rfl rfl
  | stop _ => exact framed_step host _ _ _
  | next _ _ ih => exact (framed_step host _ _ _).trans ih

/- A failing action that names variables leaves everything but the status as it was. -/
theorem refused_step {host : Host σ} {s : Shell σ} {position : Position} {action : Action}
    {e : ShellError} (named : action.targets ≠ [])
    (failed : (s.step host position action).outcome = .error e) :
    (s.step host position action).after =
      (s.step host position action).before.setStatus e.exitStatus := by
  have effect := perform_effect host s action
  have after : (s.step host position action).after =
      (s.perform host action).2.setStatus (s.step host position action).outcome.status := rfl
  have outcome : (s.step host position action).outcome =
      (s.perform host action).1.mapError fun e => ⟨position, .eval e⟩ := rfl
  rw [after, failed]
  rw [failed] at outcome
  generalize (s.perform host action).1 = result, (s.perform host action).2 = final at effect outcome
  cases effect with
  | exit => cases outcome
  | refused _ => rfl
  | outside none _ => exact absurd none named
  | put _ _ => cases outcome
  | entered => cases outcome

theorem Runs.refused {host : Host σ} {s final : Shell σ} {steps : List (Step σ)}
    {outcome : Outcome} (h : Runs host s steps outcome final) :
    ∀ t ∈ steps, t.action.targets ≠ [] → ∀ e, t.outcome = .error e →
      t.after = t.before.setStatus e.exitStatus := by
  induction h with
  | done => simp
  | stop _ =>
    intro t member named e failed
    cases List.mem_singleton.mp member
    exact refused_step named failed
  | next _ _ ih =>
    intro t member named e failed
    rcases List.mem_cons.mp member with rfl | member
    · exact refused_step named failed
    · exact ih t member named e failed

/-- Evaluation touches only what the actions that ran name, a builtin that fails touches nothing,
and neither does a source that does not parse. -/
theorem evaluate_frame (host : Host σ) (s : Shell σ) (path source : String) :
    (∀ xs, Statement.parse path source = .ok xs →
      Runs host s (s.evaluateSteps host path source) (s.evaluate host path source).1
        (s.evaluate host path source).2) ∧
    Framed s (s.evaluateSteps host path source) (s.evaluate host path source).2 ∧
    (∀ t ∈ s.evaluateSteps host path source, t.action.targets ≠ [] →
      ∀ e, t.outcome = .error e → t.after = t.before.setStatus e.exitStatus) ∧
    (∀ e, Statement.parse path source = .error e →
      s.evaluate host path source = (.error e, s.setStatus 1) ∧
        s.evaluateSteps host path source = []) := by
  cases parsed : Statement.parse path source with
  | error e =>
    obtain ⟨result, steps⟩ := evaluate_of_error host s parsed
    rw [result, steps]
    refine ⟨nofun, .of_variables [] rfl rfl, by simp, ?_⟩
    rintro _ ⟨⟩
    exact ⟨rfl, rfl⟩
  | ok xs =>
    have run := runs_evaluate host s parsed
    exact ⟨fun _ _ => run, run.framed, run.refused, nofun⟩

end Shell

end LineShell
