import LineShell.IoError

/-!
Shell variables and the state of a session.
-/

namespace LineShell

structure Variable where
  value : String
  exported : Bool
  deriving DecidableEq, Repr

/-- One level of variables; a name stands in it at most once. -/
structure Scope where
  vars : List (String × Variable)
  deriving DecidableEq, Repr

namespace Scope

def empty : Scope := ⟨[]⟩

def find? (s : Scope) (name : String) : Option Variable :=
  s.vars.lookup name

def get? (s : Scope) (name : String) : Option String :=
  (s.find? name).map Variable.value

def contains (s : Scope) (name : String) : Bool :=
  (s.find? name).isSome

def put (name : String) (v : Variable) : List (String × Variable) → List (String × Variable)
  | [] => [(name, v)]
  | (other, old) :: rest =>
    if other = name then (name, v) :: rest else (other, old) :: put name v rest

def create (s : Scope) (name value : String) (exported : Bool) : Scope :=
  ⟨put name ⟨value, exported⟩ s.vars⟩

theorem lookup_cons {α : Type} (name : String) (v : α) (vars : List (String × α))
    (other : String) :
    ((name, v) :: vars).lookup other = if other = name then some v else vars.lookup other := by
  by_cases same : other = name
  · simp [same]
  · have differs : (other == name) = false := beq_eq_false_iff_ne.mpr same
    simp only [List.lookup_cons, differs, same, if_false]

theorem lookup_put (name : String) (v : Variable) (vars : List (String × Variable))
    (other : String) :
    (put name v vars).lookup other = if other = name then some v else vars.lookup other := by
  induction vars with
  | nil => exact lookup_cons name v [] other
  | cons first rest ih =>
    obtain ⟨key, old⟩ := first
    rw [put]
    split
    · rename_i here
      rw [lookup_cons, lookup_cons, here]
      split <;> rfl
    · rename_i differs
      rw [lookup_cons, lookup_cons, ih]
      by_cases same : other = key
      · rw [if_pos same, if_neg (same ▸ differs), if_pos same]
      · rw [if_neg same, if_neg same]

theorem find?_create (s : Scope) (name value : String) (exported : Bool) (other : String) :
    (s.create name value exported).find? other =
      if other = name then some ⟨value, exported⟩ else s.find? other :=
  lookup_put name ⟨value, exported⟩ s.vars other

theorem contains_create (s : Scope) (name value : String) (exported : Bool) (other : String) :
    (s.create name value exported).contains other = (decide (other = name) || s.contains other) := by
  unfold contains
  rw [find?_create]
  by_cases same : other = name <;> simp [same]

theorem contains_of_find? {s : Scope} {name : String} {v : Variable}
    (found : s.find? name = some v) : s.contains name = true := by
  simp [contains, found]

def setValue? (s : Scope) (name value : String) : Option Scope :=
  (s.find? name).map fun v => s.create name value v.exported

def setExported? (s : Scope) (name : String) (exported : Bool) : Option Scope :=
  (s.find? name).map fun v => s.create name v.value exported

def delete (s : Scope) (name : String) : Scope :=
  ⟨s.vars.filter fun v => v.1 ≠ name⟩

def pairLe (a b : String × String) : Bool :=
  a.1 < b.1 || (a.1 == b.1 && !(b.2 < a.2))

def exported (s : Scope) : List (String × String) :=
  let pairs := (s.vars.filter fun v => v.2.exported).map fun v => (v.1, v.2.value)
  pairs.mergeSort pairLe

end Scope

/-- The global scope, the scopes above it with the innermost first, the status of what ran last, and
whether the session has been told to end. -/
structure Environment where
  globals : Scope
  inner : List Scope
  lastStatus : Int
  forcedExit : Bool
  deriving DecidableEq, Repr

namespace Environment

def empty : Environment := ⟨Scope.empty, [], 0, false⟩

def ofProcess (vars : List (String × String)) : Environment :=
  { empty with
    globals := vars.foldl (fun scope (name, value) => scope.create name value true) .empty }

def get? (env : Environment) (name : String) : Option String :=
  env.globals.get? name

def depth (env : Environment) : Nat :=
  env.inner.length + 1

def pushScope (env : Environment) : Environment :=
  { env with inner := Scope.empty :: env.inner }

def popScope (env : Environment) : Option Scope × Environment :=
  match env.inner with
  | [] => (none, env)
  | scope :: rest => (some scope, { env with inner := rest })

def create (env : Environment) (name value : String) (exported : Bool) : Environment :=
  { env with globals := env.globals.create name value exported }

/-- A leading tilde that stands alone or before a slash is the home directory. Without a home there
is no path. -/
def expandHome (env : Environment) (path : String) : Option String :=
  match path.toList with
  | '~' :: rest =>
    if rest.head?.all (· = '/') then (env.get? "HOME").map (· ++ String.ofList rest)
    else some path
  | _ => some path

structure Facts where
  hostName : String
  workingDir : Except IoError String
  home : String

/-- Sets HOSTNAME, PWD and HOME; the working directory may be gone, and then PWD stays. -/
def refresh (env : Environment) (facts : Facts) : Environment :=
  let env := env.create "HOSTNAME" facts.hostName true
  let env :=
    match facts.workingDir with
    | .ok dir => env.create "PWD" dir true
    | .error _ => env
  env.create "HOME" facts.home true

def Facts.failure? (facts : Facts) : Option String :=
  match facts.workingDir with
  | .ok _ => none
  | .error e => some ("Failed to set \"$PWD\": " ++ e.message)

end Environment

end LineShell
