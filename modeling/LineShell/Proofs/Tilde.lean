import LineShell.Evaluate
import LineShell.Prompt.Template

/-!
The home directory as a tilde. A prompt writes a tilde for the home directory, and a change of
directory reads it back. What a prompt shows of the working directory leads to it again, except when
the working directory is outside the home directory and looks like a path with a tilde itself.
-/

namespace LineShell

namespace Environment

/-- The working directory by its variable, empty if there is none. -/
def dir (env : Environment) : String :=
  (env.get? "PWD").getD ""

/-- What can stand behind the name of a directory: nothing, or a slash and more. -/
def Below (rest : List Char) : Prop :=
  rest = [] ∨ ∃ more, rest = '/' :: more

/-- The working directory is the home directory with `rest` behind its name. -/
def AtHome (env : Environment) (rest : List Char) : Prop :=
  ∃ home, env.get? "HOME" = some home ∧ home ≠ "" ∧ env.dir.toList = home.toList ++ rest ∧
    Below rest

variable {env : Environment} {rest : List Char}

theorem below_iff : Below rest ↔ rest.head?.all (· = '/') = true := by
  cases rest with
  | nil => simp [Below]
  | cons c more => simp [Below]

/- With a home directory, all turns on what stands behind its name. -/
theorem shownDir_eq {home : String} (known : env.get? "HOME" = some home) (filled : home ≠ "")
    (path : env.dir.toList = home.toList ++ rest) :
    env.shownDir =
      if rest.head?.all (· = '/') = true then String.ofList ('~' :: rest) else env.dir := by
  have front : home.toList.isPrefixOf env.dir.toList = true := by
    rw [path, List.isPrefixOf_iff_prefix]
    exact List.prefix_append home.toList rest
  have behind : env.dir.toList.drop home.length = rest := by
    rw [path, ← String.length_toList, List.drop_left]
  rw [← behind]
  unfold shownDir
  split
  · rename_i unset
    cases known.symm.trans unset
  · rename_i empty
    cases known.symm.trans empty
    exact absurd rfl filled
  · rename_i other
    cases known.symm.trans other
    exact if_pos front

theorem shownDir_of_atHome (h : env.AtHome rest) : env.shownDir = String.ofList ('~' :: rest) := by
  obtain ⟨home, known, filled, path, below⟩ := h
  rw [shownDir_eq known filled path]
  exact if_pos (below_iff.mp below)

theorem shownDir_of_not_atHome (h : ∀ rest, ¬ env.AtHome rest) : env.shownDir = env.dir := by
  by_cases front : ∃ home rest, env.get? "HOME" = some home ∧ home ≠ "" ∧
      env.dir.toList = home.toList ++ rest
  · obtain ⟨home, rest, known, filled, path⟩ := front
    rw [shownDir_eq known filled path]
    refine if_neg ?_
    intro below
    exact h rest ⟨home, known, filled, path, below_iff.mpr below⟩
  · unfold shownDir
    split
    · rfl
    · rfl
    · rename_i home filled known
      refine if_neg ?_
      intro starts
      obtain ⟨rest, path⟩ := List.isPrefixOf_iff_prefix.mp starts
      exact front ⟨home, rest, known, filled, path.symm⟩

theorem expandHome_tilde (below : Below rest) :
    env.expandHome (String.ofList ('~' :: rest)) =
      (env.get? "HOME").map (· ++ String.ofList rest) := by
  rw [expandHome, String.toList_ofList]
  exact if_pos (below_iff.mp below)

theorem expandHome_other {path : String} (h : ∀ rest, Below rest → path.toList ≠ '~' :: rest) :
    env.expandHome path = some path := by
  unfold expandHome
  split
  · rename_i rest text
    refine if_neg ?_
    intro below
    exact h rest (below_iff.mpr below) text
  · rfl

theorem AtHome.expandHome_shownDir (h : env.AtHome rest) :
    env.expandHome env.shownDir = some env.dir := by
  rw [shownDir_of_atHome h]
  obtain ⟨home, known, -, path, below⟩ := h
  have whole : env.dir = home ++ String.ofList rest := by
    apply String.toList_inj.mp
    rw [path, String.toList_append, String.toList_ofList]
  rw [expandHome_tilde below, known, whole]
  rfl

/- Only a home directory that is named by a tilde itself is put in for one unchanged. -/
theorem atHome_of_expandHome (below : Below rest) (tilde : env.dir.toList = '~' :: rest)
    (leads : env.expandHome env.dir = some env.dir) : env.AtHome rest := by
  have text : env.dir = String.ofList ('~' :: rest) := by
    apply String.toList_inj.mp
    rw [tilde, String.toList_ofList]
  rw [text, expandHome_tilde below, Option.map_eq_some_iff] at leads
  obtain ⟨home, known, same⟩ := leads
  have chars := congrArg String.toList same
  rw [String.toList_append, String.toList_ofList, String.toList_ofList] at chars
  have name : home.toList = ['~'] := List.append_cancel_right chars
  refine ⟨home, known, ?_, ?_, below⟩
  · rintro rfl
    cases name
  · rw [tilde, name]
    rfl

/-- What is shown of the working directory leads back to it exactly if the working directory is the
home directory, or lies in it, or is no path with a tilde. -/
theorem expandHome_shownDir_iff :
    env.expandHome env.shownDir = some env.dir ↔
      (∃ rest, env.AtHome rest) ∨ ∀ rest, Below rest → env.dir.toList ≠ '~' :: rest := by
  by_cases inside : ∃ rest, env.AtHome rest
  · refine iff_of_true ?_ (.inl inside)
    obtain ⟨rest, atHome⟩ := inside
    exact atHome.expandHome_shownDir
  · rw [shownDir_of_not_atHome (not_exists.mp inside)]
    constructor
    · intro leads
      right
      intro rest below tilde
      exact inside ⟨rest, atHome_of_expandHome below tilde leads⟩
    · rintro (atHome | other)
      · exact absurd atHome inside
      · exact expandHome_other other

/- Outside a home directory, a name that starts like one is taken for it. -/
example :
    let globals : Scope := ⟨[("HOME", ⟨"/home/a", true⟩), ("PWD", ⟨"~/src", true⟩)]⟩
    let env : Environment := { Environment.empty with globals := globals }
    env.shownDir = "~/src" ∧ env.expandHome env.shownDir = some "/home/a/src" := by
  decide

end Environment

namespace Shell

variable {σ : Type}

section ChangeDir

variable (host : Host σ) (s : Shell σ) {path other target : String}

/- A path that leads to a target is accepted if the target is, and refused under its own name. -/
theorem changeDir_result (leads : s.env.expandHome path = some target) :
    (s.changeDir host path).1 =
      if (host.changeDir s.world target).isSome then .ok 0 else .error (.fileNotFound path) := by
  simp only [changeDir, leads]
  cases host.changeDir s.world target with
  | none => rfl
  | some world => rfl

theorem changeDir_shell (leads : s.env.expandHome path = some target)
    (alike : s.env.expandHome other = some target) :
    (s.changeDir host path).2 = (s.changeDir host other).2 := by
  simp only [changeDir, leads, alike]
  cases host.changeDir s.world target with
  | none => rfl
  | some world => rfl

end ChangeDir

/-- The directory that a prompt shows can be changed to: it leads to the working directory, a missing
home directory is never the problem, and the shell is left as by a change to the working directory
itself. -/
theorem perform_shown (host : Host σ) (s : Shell σ)
    (plain : s.env.dir.toList.head? ≠ some '~') :
    let shown := Prompt.expand s.env "\\w"
    s.env.expandHome shown = some s.env.dir ∧
      (∀ path, (s.perform host (.changeDir shown)).1 ≠ .error (.homeNotSet path)) ∧
      ((s.perform host (.changeDir shown)).1 = .ok 0 ↔
        (host.changeDir s.world s.env.dir).isSome = true) ∧
      (s.perform host (.changeDir shown)).2 = (s.perform host (.changeDir s.env.dir)).2 := by
  intro shown
  have text : shown = s.env.shownDir := String.append_empty
  have other : ∀ rest, Environment.Below rest → s.env.dir.toList ≠ '~' :: rest := by
    intro rest _ tilde
    exact plain (congrArg List.head? tilde)
  have leads : s.env.expandHome shown = some s.env.dir := by
    rw [text]
    exact Environment.expandHome_shownDir_iff.mpr (.inr other)
  have result := changeDir_result host s leads
  refine ⟨leads, ?_, ?_, ?_⟩
  · intro path missing
    rw [perform, result] at missing
    split at missing <;> cases missing
  · rw [perform, result]
    split
    · rename_i accepted
      exact iff_of_true rfl accepted
    · rename_i refused
      refine iff_of_false ?_ refused
      intro accepted
      cases accepted
  · exact changeDir_shell host s leads (Environment.expandHome_other other)

/- Below the home directory, on a host that keeps a record of the directories entered. -/
theorem perform_shown_below :
    let host : Host (List String) :=
      { files := fun _ => ⟨fun _ => true, fun _ => true, fun _ => true⟩
        workingDir := fun _ => .ok "/"
        changeDir := fun record path => some (record ++ [path])
        spawn := fun record _ => (.exited 0, record)
        print := fun record _ => (none, record)
        complain := fun record _ => record
        display := fun record _ => record
        readFile := fun _ _ => .error .notFound
        appendFile := fun record _ _ => .ok record
        hostName := fun _ => ""
        home := fun _ => "" }
    let globals : Scope := ⟨[("HOME", ⟨"/home/a", true⟩), ("PWD", ⟨"/home/a/src/", true⟩)]⟩
    let s : Shell (List String) := ⟨{ Environment.empty with globals := globals }, []⟩
    let shown := Prompt.expand s.env "\\w"
    s.env.dir.toList.head? ≠ some '~' ∧ shown = "~/src/" ∧
      s.env.expandHome shown = some "/home/a/src/" ∧
      (s.perform host (.changeDir shown)).1 = .ok 0 ∧
      (s.perform host (.changeDir shown)).2.world = ["/home/a/src/"] := by
  intro host globals s shown
  have plain : s.env.dir.toList.head? ≠ some '~' := by decide
  obtain ⟨leads, -, accepted, after⟩ := perform_shown host s plain
  refine ⟨plain, by decide, leads, accepted.mpr rfl, ?_⟩
  rw [after]
  decide

end Shell

end LineShell
