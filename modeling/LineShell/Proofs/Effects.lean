import LineShell.Evaluate

/-!
What one action can do to a session. Five kinds of effect are possible, and later proofs go through
these instead of through the builtins: ending the session, a refusal that changes nothing, a change
of the host alone, one variable that is put into the global scope, and a directory that is entered.
-/

namespace LineShell

/-- Letters, digits and underscores, and at least one of them. -/
def Identifier (name : String) : Prop :=
  name ≠ "" ∧ ∀ c ∈ name.toList,
    ('A' ≤ c ∧ c ≤ 'Z') ∨ ('a' ≤ c ∧ c ≤ 'z') ∨ ('0' ≤ c ∧ c ≤ '9') ∨ c = '_'

theorem isIdentifierChar_iff (c : Char) :
    isIdentifierChar c = true ↔
      ('A' ≤ c ∧ c ≤ 'Z') ∨ ('a' ≤ c ∧ c ≤ 'z') ∨ ('0' ≤ c ∧ c ≤ '9') ∨ c = '_' := by
  have range (low high : Char) :
      (decide (c.val ≥ low.val) && decide (c.val ≤ high.val)) = true ↔ low ≤ c ∧ c ≤ high := by
    rw [Bool.and_eq_true, decide_eq_true_eq, decide_eq_true_eq]
    rfl
  have upper : c.isUpper = true ↔ 'A' ≤ c ∧ c ≤ 'Z' := decide_eq_true_iff
  have lower : c.isLower = true ↔ 'a' ≤ c ∧ c ≤ 'z' := range 'a' 'z'
  have digit : c.isDigit = true ↔ '0' ≤ c ∧ c ≤ '9' := range '0' '9'
  change (((c.isUpper || c.isLower) || c.isDigit) || c == '_') = true ↔ _
  simp only [Bool.or_eq_true, beq_iff_eq, upper, lower, digit, or_assoc]

theorem find?_zipIdx_eq_none_iff (p : Char → Bool) (cs : List Char) :
    (cs.zipIdx.find? fun x => p x.1) = none ↔ ∀ c ∈ cs, p c = false := by
  rw [List.find?_eq_none]
  constructor
  · intro none c member
    rw [← List.zipIdx_map_fst 0 cs] at member
    obtain ⟨x, found, rfl⟩ := List.mem_map.mp member
    simpa using none x found
  · intro all x found
    simpa using all x.1 (List.fst_mem_of_mem_zipIdx found)

/-- Exactly the identifiers can be given to new variables. -/
theorem identifierProblem?_eq_none_iff (name : String) :
    identifierProblem? name = none ↔ Identifier name := by
  have chars := find?_zipIdx_eq_none_iff (fun c => !isIdentifierChar c) name.toList
  simp only [Bool.not_eq_false', isIdentifierChar_iff] at chars
  unfold identifierProblem? Identifier
  split
  · rename_i empty
    simp [String.toList_eq_nil_iff.mp empty]
  · rename_i cs some
    have nonempty : name ≠ "" := fun empty => some (by simp [empty])
    rw [and_iff_right nonempty, ← chars]
    split
    · rename_i c index found
      simp [found]
    · rename_i none
      simp [none]

theorem identifier_pwd : Identifier "PWD" :=
  (identifierProblem?_eq_none_iff "PWD").mp (by decide +kernel)

namespace Action

/-- The variables that an action names. Entering a directory is recorded in PWD. -/
def targets : Action → List String
  | define name _ | assign name _ | share name => [name]
  | changeDir _ => ["PWD"]
  | run _ _ | exit _ | echo _ | help => []

end Action

namespace Shell

variable {σ : Type}

inductive Effect (s : Shell σ) : Action → Except EvalError Int → Shell σ → Prop where
  | exit {code : Option Int} :
      Effect s (.exit code) (.ok (code.getD s.env.lastStatus))
        { s with env := { s.env with forcedExit := true } }
  | refused {action : Action} {e : EvalError} :
      action.targets ≠ [] → Effect s action (.error e) s
  | outside {action : Action} {result : Except EvalError Int} {world : σ} :
      action.targets = [] → (∀ code, action ≠ .exit code) →
      Effect s action result { s with world := world }
  | put {action : Action} {name value : String} {exported : Bool} {world : σ} :
      name ∈ action.targets → s.env.globals.contains name = true ∨ Identifier name →
      Effect s action (.ok 0) ⟨s.env.create name value exported, world⟩
  | entered {path : String} {world : σ} :
      Effect s (.changeDir path) (.ok 0) { s with world := world }

theorem runCommand_world (host : Host σ) (s : Shell σ) (name : String) (args : List String) :
    ∃ world, (s.runCommand host name args).2 = { s with world := world } := by
  unfold runCommand
  split
  · exact ⟨s.world, rfl⟩
  · exact ⟨_, rfl⟩

theorem print_world (host : Host σ) (s : Shell σ) (text : String) :
    ∃ world, (s.print host text).2 = { s with world := world } := by
  unfold print
  split <;> exact ⟨_, rfl⟩

theorem changeDir_effect (host : Host σ) (s : Shell σ) (path : String) :
    Effect s (.changeDir path) (s.changeDir host path).1 (s.changeDir host path).2 := by
  unfold changeDir
  split
  · exact .refused (by simp [Action.targets])
  · split
    · exact .refused (by simp [Action.targets])
    · rename_i world _
      cases found : host.workingDir world with
      | error e => exact .entered
      | ok dir =>
        exact .put (List.mem_singleton.mpr rfl) (.inr identifier_pwd)

theorem perform_effect (host : Host σ) (s : Shell σ) (action : Action) :
    Effect s action (s.perform host action).1 (s.perform host action).2 := by
  cases action with
  | run name args =>
    obtain ⟨world, after⟩ := runCommand_world host s name args
    rw [perform, after]
    exact .outside rfl (by simp)
  | exit code => exact .exit
  | echo message =>
    obtain ⟨world, after⟩ := print_world host s (message ++ "\n")
    rw [perform, after]
    exact .outside rfl (by simp)
  | changeDir path => exact changeDir_effect host s path
  | help =>
    obtain ⟨world, after⟩ := print_world host s helpText
    rw [perform, after]
    exact .outside rfl (by simp)
  | define name value =>
    rw [perform]
    split
    · exact .refused (by simp [Action.targets])
    · rename_i valid
      exact .put (List.mem_singleton.mpr rfl)
        (.inr ((identifierProblem?_eq_none_iff name).mp valid))
  | assign name value =>
    cases found : s.env.globals.find? name with
    | none =>
      simp only [perform, Scope.setValue?, found, Option.map_none]
      exact .refused (by simp [Action.targets])
    | some v =>
      simp only [perform, Scope.setValue?, found, Option.map_some]
      exact .put (List.mem_singleton.mpr rfl) (.inl (Scope.contains_of_find? found))
  | share name =>
    cases found : s.env.globals.find? name with
    | none =>
      simp only [perform, Scope.setExported?, found, Option.map_none]
      exact .refused (by simp [Action.targets])
    | some v =>
      simp only [perform, Scope.setExported?, found, Option.map_some]
      exact .put (List.mem_singleton.mpr rfl) (.inl (Scope.contains_of_find? found))

end Shell

end LineShell
