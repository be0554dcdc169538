import LineShell.Proofs.Execution
import Mathlib.Data.List.Nodup
import Mathlib.Data.Prod.Lex
import Mathlib.Data.String.Basic

/-!
Variables that are not exported stay inside the shell. Two sessions that differ only in the value of
such a variable run the same actions with the same outcomes, start the same children with the same
words and variables, and differ afterwards in that value at most.
-/

namespace LineShell

namespace Scope

def names (s : Scope) : List String :=
  s.vars.map Prod.fst

/-- The same variables, each name at most once in either scope; only the value of `n` may differ,
and only as long as `n` is exported in neither. -/
structure AgreesBut (n : String) (s s' : Scope) : Prop where
  distinct : s.names.Nodup
  distinct' : s'.names.Nodup
  others : ∀ name, name ≠ n → s'.find? name = s.find? name
  own : s'.find? n = s.find? n ∨
    ∃ v v', s.find? n = some v ∧ s'.find? n = some v' ∧ v.exported = false ∧ v'.exported = false

theorem mem_names_put (name : String) (v : Variable) (vars : List (String × Variable))
    (other : String) :
    other ∈ (put name v vars).map Prod.fst ↔ other = name ∨ other ∈ vars.map Prod.fst := by
  induction vars with
  | nil => simp [put]
  | cons first rest ih =>
    obtain ⟨key, old⟩ := first
    rw [put]
    split
    · rename_i here
      simp [here]
    · rw [List.map_cons, List.mem_cons, ih, List.map_cons, List.mem_cons]
      exact or_left_comm

theorem nodup_put {name : String} {vars : List (String × Variable)}
    (distinct : (vars.map Prod.fst).Nodup) (v : Variable) :
    ((put name v vars).map Prod.fst).Nodup := by
  induction vars with
  | nil => simp [put]
  | cons first rest ih =>
    obtain ⟨key, old⟩ := first
    rw [List.map_cons, List.nodup_cons] at distinct
    rw [put]
    split
    · rename_i here
      rw [List.map_cons, List.nodup_cons, ← here]
      exact distinct
    · rename_i differs
      rw [List.map_cons, List.nodup_cons, mem_names_put]
      exact ⟨fun member => member.elim differs distinct.1, ih distinct.2⟩

theorem nodup_create {s : Scope} (distinct : s.names.Nodup) (name value : String)
    (exported : Bool) : (s.create name value exported).names.Nodup :=
  nodup_put distinct _

theorem mem_vars_iff {s : Scope} (distinct : s.names.Nodup) (name : String) (v : Variable) :
    (name, v) ∈ s.vars ↔ s.find? name = some v := by
  obtain ⟨vars⟩ := s
  simp only [find?, names] at distinct ⊢
  induction vars with
  | nil => simp
  | cons first rest ih =>
    obtain ⟨key, old⟩ := first
    rw [List.map_cons, List.nodup_cons] at distinct
    rw [lookup_cons, List.mem_cons, Prod.mk.injEq]
    by_cases same : name = key
    · subst same
      have absent : (name, v) ∉ rest :=
        fun member => distinct.1 (List.mem_map.mpr ⟨_, member, rfl⟩)
      simp [absent, eq_comm]
    · simp [same, ih distinct.2]

/- Pairs are sorted by name and then by value, a linear order. -/
theorem pairLe_iff (a b : String × String) : pairLe a b = true ↔ toLex a ≤ toLex b := by
  rw [Prod.Lex.toLex_le_toLex]
  simp only [pairLe, Bool.or_eq_true, Bool.and_eq_true, decide_eq_true_eq, beq_iff_eq,
    Bool.not_eq_true', decide_eq_false_iff_not, not_lt]

theorem pairwise_exported (s : Scope) :
    s.exported.Pairwise fun a b => pairLe a b = true := by
  apply List.pairwise_mergeSort
  · intro a b c
    rw [pairLe_iff, pairLe_iff, pairLe_iff]
    exact le_trans
  · intro a b
    rw [Bool.or_eq_true, pairLe_iff, pairLe_iff]
    exact le_total _ _

theorem mem_exported_iff {s : Scope} (distinct : s.names.Nodup) (name value : String) :
    (name, value) ∈ s.exported ↔ s.find? name = some ⟨value, true⟩ := by
  rw [← mem_vars_iff distinct, exported, List.mem_mergeSort, List.mem_map]
  constructor
  · rintro ⟨⟨key, v⟩, member, pair⟩
    obtain ⟨member, shared⟩ := List.mem_filter.mp member
    cases pair
    obtain ⟨value, exported⟩ := v
    cases shared
    exact member
  · intro member
    exact ⟨(name, ⟨value, true⟩), List.mem_filter.mpr ⟨member, rfl⟩, rfl⟩

theorem nodup_exported {s : Scope} (distinct : s.names.Nodup) : s.exported.Nodup := by
  rw [exported, (List.mergeSort_perm _ _).nodup_iff]
  apply List.Nodup.of_map Prod.fst
  rw [List.map_map]
  exact distinct.sublist (List.filter_sublist.map Prod.fst)

namespace AgreesBut

variable {n : String} {s s' : Scope}

/-- What children are given does not depend on the value. -/
theorem exported (h : AgreesBut n s s') : s'.exported = s.exported := by
  have same : ∀ pair, pair ∈ s'.exported ↔ pair ∈ s.exported := by
    rintro ⟨name, value⟩
    rw [mem_exported_iff h.distinct', mem_exported_iff h.distinct]
    by_cases own : name = n
    · subst own
      rcases h.own with equal | ⟨v, v', before, after, hidden, hidden'⟩
      · rw [equal]
      · rw [before, after]
        constructor
        · rintro ⟨⟩
          cases hidden'
        · rintro ⟨⟩
          cases hidden
    · rw [h.others name own]
  have perm := (List.perm_ext_iff_of_nodup (nodup_exported h.distinct')
    (nodup_exported h.distinct)).mpr same
  refine perm.eq_of_pairwise ?_ (pairwise_exported s') (pairwise_exported s)
  intro a b _ _ below above
  rw [pairLe_iff] at below above
  exact toLex_inj.mp (le_antisymm below above)

theorem create (h : AgreesBut n s s') (name value : String) (exported : Bool) :
    AgreesBut n (s.create name value exported) (s'.create name value exported) where
  distinct := nodup_create h.distinct name value exported
  distinct' := nodup_create h.distinct' name value exported
  others := by
    intro other differs
    rw [find?_create, find?_create, h.others other differs]
  own := by
    rw [find?_create, find?_create]
    split
    · exact .inl rfl
    · exact h.own

/- An assignment to `n` itself writes the same value into both scopes. -/
theorem setValue? (h : AgreesBut n s s') (name value : String) :
    Option.Rel (AgreesBut n) (s.setValue? name value) (s'.setValue? name value) := by
  unfold Scope.setValue?
  have equal (same : s'.find? name = s.find? name) :
      Option.Rel (AgreesBut n) ((s.find? name).map fun v => s.create name value v.exported)
        ((s'.find? name).map fun v => s'.create name value v.exported) := by
    rw [same]
    cases s.find? name with
    | none => exact .none
    | some v => exact .some (h.create name value v.exported)
  by_cases own : name = n
  · subst own
    rcases h.own with same | ⟨v, v', before, after, hidden, hidden'⟩
    · exact equal same
    · rw [before, after, Option.map_some, Option.map_some, hidden, hidden']
      exact .some (h.create name value false)
  · exact equal (h.others name own)

theorem setExported? (h : AgreesBut n s s') {name : String} (other : name ≠ n)
    (exported : Bool) :
    Option.Rel (AgreesBut n) (s.setExported? name exported) (s'.setExported? name exported) := by
  unfold Scope.setExported?
  rw [h.others name other]
  cases s.find? name with
  | none => exact .none
  | some v => exact .some (h.create name v.value exported)

end AgreesBut

end Scope

namespace Environment

/-- Equal but for the value of one variable that is not exported. -/
structure AgreesBut (n : String) (env env' : Environment) : Prop where
  globals : env.globals.AgreesBut n env'.globals
  inner : List.Forall₂ (Scope.AgreesBut n) env.inner env'.inner
  lastStatus : env'.lastStatus = env.lastStatus
  forcedExit : env'.forcedExit = env.forcedExit

namespace AgreesBut

variable {n : String} {env env' : Environment}

theorem get? (h : AgreesBut n env env') {name : String} (other : n ≠ name) :
    env'.get? name = env.get? name := by
  rw [Environment.get?, Scope.get?, h.globals.others name other.symm]
  rfl

theorem expandHome (h : AgreesBut n env env') (home : n ≠ "HOME") (path : String) :
    env'.expandHome path = env.expandHome path := by
  unfold Environment.expandHome
  rw [h.get? home]

theorem create (h : AgreesBut n env env') (name value : String) (exported : Bool) :
    AgreesBut n (env.create name value exported) (env'.create name value exported) :=
  ⟨h.globals.create name value exported, h.inner, h.lastStatus, h.forcedExit⟩

end AgreesBut

end Environment

def Statement.actions : Statement → List Action
  | .action _ a => [a]
  | .chain _ _ left right => left.actions ++ right.actions

namespace Shell

variable {σ : Type}

/-- What a command would be started with, and in which directory; there may be no such program. -/
def child? (host : Host σ) (s : Shell σ) (name : String) (args : List String) :
    Option (Spawn × Except IoError String) :=
  ((host.files s.world).resolve name (s.env.get? "PATH")).map fun program =>
    (⟨program, name, args, s.env.globals.exported⟩, host.workingDir s.world)

/-- The host is in the same state, and the variables differ in one hidden value at most. -/
structure Alike (n : String) (s s' : Shell σ) : Prop where
  world : s'.world = s.world
  env : s.env.AgreesBut n s'.env

/-- The same answer, and sessions that are still alike. -/
def Matched {α : Type} (n : String) (out out' : α × Shell σ) : Prop :=
  out'.1 = out.1 ∧ out.2.Alike n out'.2

section Lockstep

variable {n : String} {s s' : Shell σ} {host : Host σ}

theorem Alike.child? (h : s.Alike n s') (search : n ≠ "PATH") (name : String)
    (args : List String) : s'.child? host name args = s.child? host name args := by
  unfold Shell.child?
  rw [h.world, h.env.get? search, h.env.globals.exported]

/- A command depends on the session only through the child that it starts. -/
theorem runCommand_eq (s : Shell σ) (name : String) (args : List String) :
    s.runCommand host name args =
      match s.child? host name args with
      | none => (.error (.commandNotFound name), s)
      | some (spawn, _) =>
        let (ending, world) := host.spawn s.world spawn
        (match ending with
          | .exited code => .ok code
          | .killed signal => .ok (128 + signal)
          | .notFound => .error (.commandNotFound name)
          | .failed reason => .error (.spawn name reason),
        { s with world := world }) := by
  unfold runCommand Shell.child?
  cases (host.files s.world).resolve name (s.env.get? "PATH") <;> rfl

theorem matched_runCommand (h : s.Alike n s') (search : n ≠ "PATH") (name : String)
    (args : List String) :
    Matched n (s.runCommand host name args) (s'.runCommand host name args) := by
  rw [runCommand_eq, runCommand_eq, h.child? search]
  cases s.child? host name args with
  | none => exact ⟨rfl, h⟩
  | some child =>
    dsimp only
    rw [h.world]
    exact ⟨rfl, rfl, h.env⟩

theorem matched_print (h : s.Alike n s') (text : String) :
    Matched n (s.print host text) (s'.print host text) := by
  unfold print
  rw [h.world]
  split
  · exact ⟨rfl, rfl, h.env⟩
  · exact ⟨rfl, rfl, h.env⟩

theorem matched_changeDir (h : s.Alike n s') (home : n ≠ "HOME") (path : String) :
    Matched n (s.changeDir host path) (s'.changeDir host path) := by
  unfold changeDir
  rw [h.world, h.env.expandHome home]
  split
  · exact ⟨rfl, h⟩
  · split
    · exact ⟨rfl, h⟩
    · split
      · exact ⟨rfl, rfl, h.env.create _ _ _⟩
      · exact ⟨rfl, rfl, h.env⟩

theorem Alike.setGlobals (h : s.Alike n s') {globals globals' : Scope}
    (agree : globals.AgreesBut n globals') :
    (s.setGlobals globals).Alike n (s'.setGlobals globals') :=
  ⟨h.world, agree, h.env.inner, h.env.lastStatus, h.env.forcedExit⟩

theorem matched_perform (h : s.Alike n s') (search : n ≠ "PATH") (home : n ≠ "HOME")
    {action : Action} (kept : action ≠ .share n) :
    Matched n (s.perform host action) (s'.perform host action) := by
  cases action with
  | run name args => exact matched_runCommand h search name args
  | exit code =>
    refine ⟨?_, h.world, h.env.globals, h.env.inner, h.env.lastStatus, rfl⟩
    simp only [perform, h.env.lastStatus]
  | echo message => exact matched_print h _
  | changeDir path => exact matched_changeDir h home path
  | help => exact matched_print h _
  | define name value =>
    simp only [perform]
    cases identifierProblem? name with
    | some problem => exact ⟨rfl, h⟩
    | none => exact ⟨rfl, h.setGlobals (h.env.globals.create name value false)⟩
  | assign name value =>
    have assigned := h.env.globals.setValue? name value
    simp only [perform]
    generalize s.env.globals.setValue? name value = globals,
      s'.env.globals.setValue? name value = globals' at assigned ⊢
    cases assigned with
    | none => exact ⟨rfl, h⟩
    | some agree => exact ⟨rfl, h.setGlobals agree⟩
  | share name =>
    have other : name ≠ n := fun same => kept (congrArg Action.share same)
    have shared := h.env.globals.setExported? other true
    simp only [perform]
    generalize s.env.globals.setExported? name true = globals,
      s'.env.globals.setExported? name true = globals' at shared ⊢
    cases shared with
    | none => exact ⟨rfl, h⟩
    | some agree => exact ⟨rfl, h.setGlobals agree⟩

theorem Alike.setStatus (h : s.Alike n s') (status : Int) :
    (s.setStatus status).Alike n (s'.setStatus status) :=
  ⟨h.world, h.env.globals, h.env.inner, rfl, h.env.forcedExit⟩

theorem matched_action (h : s.Alike n s') (search : n ≠ "PATH") (home : n ≠ "HOME")
    {action : Action} (kept : action ≠ .share n) (position : Position) :
    Matched n (s.exec host (.action position action)) (s'.exec host (.action position action)) := by
  obtain ⟨result, alike⟩ := @matched_perform _ n s s' host h search home action kept
  simp only [exec]
  rw [result]
  exact ⟨rfl, alike.setStatus _⟩

end Lockstep

end Shell

/-- The child that an action started. -/
def Step.child? {σ : Type} (host : Host σ) (t : Step σ) : Option (Spawn × Except IoError String) :=
  match t.action with
  | .run name args => t.before.child? host name args
  | _ => none

/-- The children of an evaluation, in order. -/
def Shell.children {σ : Type} (host : Host σ) (s : Shell σ) (path source : String) :
    List (Spawn × Except IoError String) :=
  (s.evaluateSteps host path source).filterMap (Step.child? host)

/-- The same action in two runs, from sessions that are alike. -/
structure Step.Alike {σ : Type} (n : String) (t t' : Step σ) : Prop where
  action : t'.action = t.action
  before : t.before.Alike n t'.before

namespace Shell

section Runs

variable {σ : Type} {n : String} {host : Host σ}

/- Both runs take the same side of every chain, because the answers of the first are those of the
second. -/
theorem matched_exec (search : n ≠ "PATH") (home : n ≠ "HOME") {x : Statement}
    (kept : .share n ∉ x.actions) {s s' : Shell σ} (h : s.Alike n s') :
    Matched n (s.exec host x) (s'.exec host x) ∧
      List.Forall₂ (Step.Alike n) (s.steps host x) (s'.steps host x) := by
  induction x generalizing s s' with
  | action position action =>
    have other : action ≠ .share n := fun same => kept (by simp [Statement.actions, same])
    exact ⟨matched_action h search home other position, .cons ⟨rfl, h⟩ .nil⟩
  | chain position op left right ihLeft ihRight =>
    rw [Statement.actions, List.mem_append, not_or] at kept
    obtain ⟨first, steps⟩ := ihLeft kept.1 h
    rw [exec_chain, exec_chain, Shell.steps, Shell.steps]
    generalize s.exec host left = out, s'.exec host left = out' at first
    obtain ⟨outcome, middle⟩ := out
    obtain ⟨outcome', middle'⟩ := out'
    obtain ⟨rfl, alike⟩ := first
    dsimp only at alike
    cases outcome' with
    | error e => exact ⟨⟨rfl, alike⟩, by simpa using steps⟩
    | ok status =>
      dsimp only
      rw [alike.env.forcedExit]
      split
      · obtain ⟨second, more⟩ := ihRight kept.2 alike
        exact ⟨second, List.rel_append steps more⟩
      · exact ⟨⟨rfl, alike⟩, by simpa using steps⟩

theorem matched_execAll (search : n ≠ "PATH") (home : n ≠ "HOME") {xs : List Statement}
    (kept : ∀ x ∈ xs, .share n ∉ x.actions) {s s' : Shell σ} (h : s.Alike n s') :
    Matched n (s.execAll host xs) (s'.execAll host xs) ∧
      List.Forall₂ (Step.Alike n) (s.stepsAll host xs) (s'.stepsAll host xs) := by
  induction xs generalizing s s' with
  | nil => exact ⟨⟨congrArg Except.ok h.env.lastStatus, h⟩, .nil⟩
  | cons x xs ih =>
    rw [List.forall_mem_cons] at kept
    obtain ⟨first, steps⟩ := @matched_exec σ n host search home x kept.1 s s' h
    rw [execAll, execAll, stepsAll, stepsAll]
    generalize s.exec host x = out, s'.exec host x = out' at first
    obtain ⟨outcome, middle⟩ := out
    obtain ⟨outcome', middle'⟩ := out'
    obtain ⟨rfl, alike⟩ := first
    dsimp only at alike
    cases outcome' with
    | error e => exact ⟨⟨rfl, alike⟩, by simpa using steps⟩
    | ok status =>
      dsimp only
      rw [alike.env.forcedExit]
      split
      · exact ⟨⟨rfl, alike⟩, by simpa using steps⟩
      · obtain ⟨second, more⟩ := ih kept.2 alike
        exact ⟨second, List.rel_append steps more⟩

theorem children_eq (search : n ≠ "PATH") {steps steps' : List (Step σ)}
    (alike : List.Forall₂ (Step.Alike n) steps steps') :
    steps'.filterMap (Step.child? host) = steps.filterMap (Step.child? host) := by
  induction alike with
  | nil => rfl
  | @cons t t' steps steps' first _ ih =>
    have same : t'.child? host = t.child? host := by
      unfold Step.child?
      rw [first.action]
      cases t.action with
      | run name args => exact first.before.child? search name args
      | _ => rfl
    rw [List.filterMap_cons, List.filterMap_cons, same, ih]

end Runs

/-- The value of a variable that is not exported reaches nothing outside the shell. From sessions
that differ in it alone, a source that does not export it has the same outcome and children and
leaves the host in the same state, which may hold a record of all output; the sessions differ
afterwards in this value at most, and then it is still not exported. -/
theorem evaluate_secret {σ : Type} (host : Host σ) (s s' : Shell σ) (path source n : String)
    (search : n ≠ "PATH") (home : n ≠ "HOME") (alike : s.Alike n s')
    (kept : ∀ xs, Statement.parse path source = .ok xs → ∀ x ∈ xs, .share n ∉ x.actions) :
    (s'.evaluate host path source).1 = (s.evaluate host path source).1 ∧
      s'.children host path source = s.children host path source ∧
      (s.evaluate host path source).2.Alike n (s'.evaluate host path source).2 := by
  unfold evaluate children evaluateSteps
  cases parsed : Statement.parse path source with
  | error e => exact ⟨rfl, rfl, alike.setStatus 1⟩
  | ok xs =>
    obtain ⟨matched, steps⟩ := @matched_execAll σ n host search home xs (kept xs parsed) s s' alike
    exact ⟨matched.1, children_eq search steps, matched.2⟩

/- A child before and after the hidden variable is assigned, on a host that keeps a record of its
children. -/
theorem evaluate_secret_assigned :
    let host : Host (List Spawn) :=
      { files := fun _ => ⟨fun _ => true, fun _ => true, fun _ => true⟩
        workingDir := fun _ => .ok "/"
        changeDir := fun record _ => some record
        spawn := fun record child => (.exited 0, record ++ [child])
        print := fun record _ => (none, record)
        complain := fun record _ => record
        display := fun record _ => record
        readFile := fun _ _ => .error .notFound
        appendFile := fun record _ _ => .ok record
        hostName := fun _ => ""
        home := fun _ => "" }
    let s (key : String) : Shell (List Spawn) :=
      ⟨⟨⟨[("PATH", ⟨"/bin", true⟩), ("KEY", ⟨key, false⟩)]⟩, [], 0, false⟩, []⟩
    let source := "ls a && KEY = b; ls || export KEYS"
    (s "one").Alike "KEY" (s "two") ∧
      ((s "two").evaluate host "stdin" source).2.world =
        [⟨"/bin/ls", "ls", ["a"], [("PATH", "/bin")]⟩,
          ⟨"/bin/ls", "ls", [], [("PATH", "/bin")]⟩] ∧
      ((s "one").evaluate host "stdin" source).2.world =
        ((s "two").evaluate host "stdin" source).2.world := by
  intro host s source
  have alike : (s "one").Alike "KEY" (s "two") := by
    refine ⟨rfl, ⟨by decide, by decide, ?_, .inr ⟨_, _, rfl, rfl, rfl, rfl⟩⟩, .nil, rfl, rfl⟩
    intro name differs
    simp [s, Scope.find?, Scope.lookup_cons, differs]
  have kept : ∀ xs, Statement.parse "stdin" source = .ok xs →
      ∀ x ∈ xs, .share "KEY" ∉ x.actions := by
    have none : ((Statement.parse "stdin" source).toOption.getD []).all
        fun x => !x.actions.contains (.share "KEY") := by decide +kernel
    intro xs parsed x member
    rw [parsed] at none
    simpa using List.all_eq_true.mp none x member
  obtain ⟨_, _, final⟩ :=
    evaluate_secret host (s "one") (s "two") "stdin" source "KEY" (by decide) (by decide) alike kept
  exact ⟨alike, by decide +kernel, final.world.symm⟩

end Shell

end LineShell
