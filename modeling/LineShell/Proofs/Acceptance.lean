import LineShell.Proofs.Grammar
import LineShell.Statement.Parse

/-!
The parser accepts exactly the programs of the grammar and returns what they denote.

Soundness carries an invariant along the tokens: `Reads s ts` says which parts of a program the
state `s` has read in `ts`. Completeness follows the derivation: behind the tokens of a factor the
parser is in the state that `behind` gives, whatever stands around the factor.
-/

namespace LineShell

namespace Grammar

theorem isName_iff (t : Token) : t.kind.isName = true ↔ IsName t := by
  unfold IsName
  cases t.kind <;> simp [Kind.isName]

theorem isArgument_iff (t : Token) : t.kind.isArgument = true ↔ IsArgument t := by
  unfold IsArgument IsName
  cases t.kind <;> simp [Kind.isArgument]

/-- What a draft has read of an action. -/
inductive Drafted : Draft → Token → List Token → Prop where
  | run {name : Token} {args : List Token} :
      IsName name → (∀ a ∈ args, IsArgument a) →
      Drafted (.run name.lexeme (args.map Token.lexeme)) name args
  | assignValue {name equals : Token} :
      IsName name → equals.kind = .equals → Drafted (.assignValue name.lexeme) name [equals]
  | defineName {key : Token} : key.kind = .keyword .define → Drafted .defineName key []
  | defineEquals {key name : Token} :
      key.kind = .keyword .define → IsName name → Drafted (.defineEquals name.lexeme) key [name]
  | defineValue {key name equals : Token} :
      key.kind = .keyword .define → IsName name → equals.kind = .equals →
      Drafted (.defineValue name.lexeme) key [name, equals]
  | shareName {key : Token} : key.kind = .keyword .share → Drafted .shareName key []
  | exitCode {key : Token} : key.kind = .keyword .exit → Drafted .exitCode key []
  | echo {key : Token} {args : List Token} :
      key.kind = .keyword .echo → (∀ a ∈ args, IsArgument a) →
      Drafted (.echo (args.map Token.lexeme)) key args
  | directory {key : Token} : key.kind = .keyword .changeDir → Drafted .directory key []
  | complete {t : Token} {ts : List Token} {a : Action} :
      Phrase t ts a → Drafted (.complete a) t ts

theorem Drafted.ofKeyword {t : Token} {k : Keyword} (h : t.kind = .keyword k) :
    Drafted (.ofKeyword k) t [] := by
  cases k with
  | help => exact .complete (.help h)
  | exit => exact .exitCode h
  | echo => exact @Drafted.echo t [] h (by simp)
  | changeDir => exact .directory h
  | define => exact .defineName h
  | share => exact .shareName h

theorem Drafted.phrase {d : Draft} {t : Token} {ts : List Token} {a : Action}
    (h : Drafted d t ts) (ends : d.action? = some a) : Phrase t ts a := by
  cases h with
  | run name args => cases ends; exact .run name args
  | exitCode key => cases ends; exact .exit key
  | echo key args =>
    cases ends
    simpa [Draft.message, Function.comp_def] using Phrase.echo key args
  | directory key => cases ends; exact .goHome key
  | complete phrase => cases ends; exact phrase
  | assignValue | defineName | defineEquals | defineValue | shareName => cases ends

theorem arguments_append {ts : List Token} {u : Token} (args : ∀ a ∈ ts, IsArgument a)
    (h : IsArgument u) : ∀ a ∈ ts ++ [u], IsArgument a := by
  intro a ha
  rcases List.mem_append.mp ha with ha | ha
  · exact args a ha
  · exact (List.mem_singleton.mp ha) ▸ h

/-- The only draft that an accepted token leads to. -/
theorem accepted_draft {ok : Bool} {next d : Draft} {e : ShellError}
    (h : (if ok then .ok next else .error e : Except ShellError Draft) = .ok d) :
    ok = true ∧ d = next := by
  split at h
  · exact ⟨‹_›, (Except.ok.inj h).symm⟩
  · cases h

theorem Drafted.extend {d d' : Draft} {t u : Token} {ts : List Token} (h : Drafted d t ts)
    (accepted : d.extend u = .ok d') : Drafted d' t (ts ++ [u]) := by
  cases h with
  | @run _ args name arguments =>
    simp only [Draft.extend, List.map_eq_nil_iff] at accepted
    split at accepted
    · rename_i equals
      cases accepted
      obtain ⟨rfl, equals⟩ := equals
      exact .assignValue name equals
    · obtain ⟨argument, rfl⟩ := accepted_draft accepted
      simpa using Drafted.run name
        (arguments_append arguments ((isArgument_iff u).mp argument))
  | assignValue name equals =>
    obtain ⟨value, rfl⟩ := accepted_draft accepted
    exact .complete (.assign name equals ((isArgument_iff u).mp value))
  | defineName key =>
    obtain ⟨name, rfl⟩ := accepted_draft accepted
    exact .defineEquals key ((isName_iff u).mp name)
  | defineEquals key name =>
    obtain ⟨equals, rfl⟩ := accepted_draft accepted
    exact .defineValue key name (of_decide_eq_true equals)
  | defineValue key name equals =>
    obtain ⟨value, rfl⟩ := accepted_draft accepted
    exact .complete (.define key name equals ((isArgument_iff u).mp value))
  | shareName key =>
    obtain ⟨name, rfl⟩ := accepted_draft accepted
    exact .complete (.share key ((isName_iff u).mp name))
  | exitCode key =>
    simp only [Draft.extend] at accepted
    split at accepted
    · rename_i code integer hcode
      cases accepted
      exact .complete (.exitWith key integer (Text.int32?_eq_some_iff.mp hcode))
    · cases accepted
    · cases accepted
  | echo key arguments =>
    obtain ⟨argument, rfl⟩ := accepted_draft accepted
    simpa using Drafted.echo key (arguments_append arguments ((isArgument_iff u).mp argument))
  | directory key =>
    obtain ⟨argument, rfl⟩ := accepted_draft accepted
    exact .complete (.changeDir key ((isArgument_iff u).mp argument))
  | complete phrase => cases accepted

/-- A program that ends with a statement. -/
inductive Ended : List Token → List Statement → Prop where
  | mk {before ts us : List Token} {x : Statement} {xs : List Statement} :
      Separators before → Derives .statement ts x → More us xs →
      Ended (before ++ ts ++ us) (x :: xs)

/-- Finished statements, behind which the next one may start. -/
inductive Ready : List Token → List Statement → Prop where
  | empty {seps : List Token} : Separators seps → Ready seps []
  | behind {ts after : List Token} {xs : List Statement} :
      Ended ts xs → Separators after → after ≠ [] → Ready (ts ++ after) xs

inductive InChain : Chain → List Token → Prop where
  | start : InChain none []
  | link {ts : List Token} {t : Token} {op : Connective} {x : Statement} :
      Derives .statement ts x → Connects t op → InChain (some ⟨t.position, op, x⟩) (ts ++ [t])

inductive InGroups : List Chain → List Token → Prop where
  | nil : InGroups [] []
  | cons {chain : Chain} {chains : List Chain} {ts us : List Token} {t : Token} :
      InGroups chains ts → InChain chain us → t.kind = .openParen →
      InGroups (chain :: chains) (ts ++ us ++ [t])

/-- What a parser state has read. -/
inductive Reads : ParseState → List Token → Prop where
  | factor {xs : List Statement} {groups : List Chain} {chain : Chain} {ts us vs : List Token} :
      Ready ts xs → InGroups groups us → InChain chain vs →
      Reads ⟨xs, groups, chain, .factor⟩ (ts ++ us ++ vs)
  | action {xs : List Statement} {groups : List Chain} {chain : Chain} {ts us vs ws : List Token}
      {t : Token} {d : Draft} :
      Ready ts xs → InGroups groups us → InChain chain vs → Drafted d t ws →
      Reads ⟨xs, groups, chain, .action t.position d⟩ (ts ++ us ++ vs ++ t :: ws)
  | chained {xs : List Statement} {groups : List Chain} {ts us vs : List Token} {x : Statement} :
      Ready ts xs → InGroups groups us → Derives .statement vs x →
      Reads ⟨xs, groups, none, .chained x⟩ (ts ++ us ++ vs)

theorem InChain.close {chain : Chain} {ts us : List Token} {x : Statement} (h : InChain chain ts)
    (factor : Derives .factor us x) : Derives .statement (ts ++ us) (chain.close x) := by
  cases h with
  | start => exact .factor factor
  | link left op => simpa [Chain.close] using Derives.chain left op factor

theorem Separators.nil : Separators [] := by
  simp [Separators]

theorem Separators.append {ts us : List Token} (h : Separators ts) (h' : Separators us) :
    Separators (ts ++ us) := by
  intro t ht
  rcases List.mem_append.mp ht with ht | ht
  · exact h t ht
  · exact h' t ht

theorem Separators.singleton {t : Token} (h : t.kind = .separator) : Separators [t] := by
  simpa [Separators] using h

theorem More.snoc {us seps ts : List Token} {xs : List Statement} {x : Statement}
    (h : More us xs) (separators : Separators seps) (nonempty : seps ≠ [])
    (statement : Derives .statement ts x) : More (us ++ seps ++ ts) (xs ++ [x]) := by
  induction h with
  | nil => simpa using More.cons separators nonempty statement .nil
  | cons first some head _ ih => simpa using More.cons first some head ih

theorem Ended.program {ts after : List Token} {xs : List Statement} (h : Ended ts xs)
    (seps : Separators after) : Program (ts ++ after) xs := by
  cases h with
  | mk before first more => exact .statements before first more seps

theorem Ready.separator {ts : List Token} {xs : List Statement} {t : Token} (h : Ready ts xs)
    (separator : t.kind = .separator) : Ready (ts ++ [t]) xs := by
  cases h with
  | empty seps => exact .empty (seps.append (.singleton separator))
  | behind body after _ =>
    simpa using Ready.behind body (after.append (.singleton separator)) (by simp)

theorem Ready.program {ts : List Token} {xs : List Statement} (h : Ready ts xs) :
    Program ts xs := by
  cases h with
  | empty seps => exact .empty seps
  | behind body after _ => exact body.program after

theorem Ready.statement {ts us : List Token} {xs : List Statement} {x : Statement}
    (h : Ready ts xs) (statement : Derives .statement us x) : Ended (ts ++ us) (xs ++ [x]) := by
  cases h with
  | empty before => simpa using Ended.mk before statement .nil
  | behind body between some =>
    cases body with
    | mk before first more => simpa using Ended.mk before first (more.snoc between some statement)

/- Outside groups and chains only finished statements have been read. -/
theorem Reads.boundary {xs : List Statement} {groups : List Chain} {chain : Chain}
    {ts : List Token} (h : Reads ⟨xs, groups, chain, .factor⟩ ts)
    (boundary : ParseState.atBoundary ⟨xs, groups, chain, .factor⟩ = true) :
    groups = [] ∧ chain = none ∧ Ready ts xs := by
  obtain ⟨rfl, rfl⟩ : groups = [] ∧ chain = none := by
    simpa [ParseState.atBoundary] using boundary
  cases h with
  | factor ready around before =>
    cases around
    cases before
    exact ⟨rfl, rfl, by simpa using ready⟩

theorem Reads.follow {s s' : ParseState} {x : Statement} {t : Token} {ts us vs : List Token}
    (ready : Ready ts s.finished) (groups : InGroups s.groups us)
    (statement : Derives .statement vs x) (accepted : s.follow x t = .ok s') :
    Reads s' (ts ++ us ++ vs ++ [t]) := by
  obtain ⟨xs, chains, chain, stage⟩ := s
  simp only [ParseState.follow] at accepted
  split at accepted
  · rename_i kind
    have op : Connects t .and := kind
    cases accepted
    simpa using Reads.factor ready groups (.link statement op)
  · rename_i kind
    have op : Connects t .or := kind
    cases accepted
    simpa using Reads.factor ready groups (.link statement op)
  · rename_i close
    cases accepted
    cases groups with
    | cons around before left =>
      have group := before.close (.group left statement close)
      simpa using Reads.chained ready around group
  · rename_i kind
    cases accepted
    cases groups with
    | nil =>
      have next := Ready.behind (ready.statement statement) (.singleton kind) (by simp)
      simpa using Reads.factor next .nil .start
  · cases accepted
  · cases accepted

theorem Reads.step {s s' : ParseState} {ts : List Token} {t : Token} (h : Reads s ts)
    (accepted : s.step t = .ok s') : Reads s' (ts ++ [t]) := by
  cases h with
  | @factor xs chains chain ts us vs ready groups before =>
    simp only [ParseState.step, ParseState.openFactor] at accepted
    split at accepted
    · rename_i kind
      cases accepted
      exact .action ready groups before (@Drafted.run t [] (.inl kind) (by simp))
    · rename_i kind
      cases accepted
      exact .action ready groups before (@Drafted.run t [] (.inr kind) (by simp))
    · rename_i kind
      cases accepted
      exact .action ready groups before (.ofKeyword kind)
    · rename_i kind
      cases accepted
      simpa using Reads.factor ready (.cons groups before kind) .start
    · rename_i kind
      split at accepted
      · rename_i boundary
        cases accepted
        obtain ⟨rfl, rfl, all⟩ := (Reads.factor ready groups before).boundary boundary
        simpa using Reads.factor (all.separator kind) .nil .start
      · cases accepted
    · cases accepted
  | @action xs chains chain ts us vs ws first d ready groups before drafted =>
    simp only [ParseState.step] at accepted
    split at accepted
    · rename_i ends action
      have statement := before.close (.action (drafted.phrase action))
      simpa using Reads.follow ready groups statement accepted
    · cases hd : d.extend t with
      | error e => simp [hd, Except.map] at accepted
      | ok d' =>
        simp only [hd, Except.map] at accepted
        cases accepted
        simpa using Reads.action ready groups before (drafted.extend hd)
  | chained ready groups statement => exact Reads.follow ready groups statement accepted

theorem Reads.close {s : ParseState} {x : Statement} {t : Token} {xs : List Statement}
    {ts us vs : List Token} (ready : Ready ts s.finished) (groups : InGroups s.groups us)
    (statement : Derives .statement vs x) (accepted : s.close x t = .ok xs) :
    Program (ts ++ us ++ vs) xs := by
  obtain ⟨finished, chains, chain, stage⟩ := s
  simp only [ParseState.close] at accepted
  split at accepted
  · rename_i none
    cases none
    cases accepted
    cases groups
    simpa using (ready.statement statement).program .nil
  · cases accepted

theorem Reads.finish {s : ParseState} {ts : List Token} {t : Token} {xs : List Statement}
    (h : Reads s ts) (accepted : s.finish t = .ok xs) : Program ts xs := by
  cases h with
  | @factor finished chains chain ts us vs ready groups before =>
    simp only [ParseState.finish] at accepted
    split at accepted
    · rename_i boundary
      cases accepted
      obtain ⟨_, _, all⟩ := (Reads.factor ready groups before).boundary boundary
      exact all.program
    · cases accepted
  | action ready groups before drafted =>
    simp only [ParseState.finish] at accepted
    split at accepted
    · rename_i action
      have statement := before.close (.action (drafted.phrase action))
      simpa using Reads.close ready groups statement accepted
    · cases accepted
  | chained ready groups statement => exact Reads.close ready groups statement accepted

/-- Every accepting run has read a program. -/
theorem Reads.run {s : ParseState} {ts us : List Token} {xs : List Statement} (h : Reads s ts)
    (accepted : s.run us = .ok xs) :
    Program (ts ++ us.takeWhile fun t => t.kind ≠ .eof) xs := by
  induction us generalizing s ts with
  | nil => simpa using h.finish accepted
  | cons t us ih =>
    simp only [ParseState.run] at accepted
    split at accepted
    · rename_i eof
      simpa [eof] using h.finish accepted
    · rename_i more
      split at accepted
      · rename_i next hnext
        simpa [more] using ih (h.step hnext) accepted
      · cases accepted

theorem Reads.start : Reads .start [] :=
  Reads.factor (.empty .nil) .nil .start

/-- The parser state behind a factor. -/
def behind (s : ParseState) (x : Statement) : ParseState :=
  { s with chain := none, stage := .chained (s.chain.close x) }

/-- Only such tokens may stand behind an action. -/
def Stops (ts : List Token) : Prop :=
  ∀ t ∈ ts.head?, t.kind.endsArguments = true

theorem IsArgument.continues {t : Token} (h : IsArgument t) : t.kind.endsArguments = false := by
  rcases h with (kind | kind) | kind | ⟨k, kind⟩ <;> simp [kind, Kind.endsArguments]

theorem run_cons {s s' : ParseState} {t : Token} {ts : List Token} (more : t.kind ≠ .eof)
    (accepted : s.step t = .ok s') : s.run (t :: ts) = s'.run ts := by
  simp [ParseState.run, more, accepted]

theorem run_extend {s : ParseState} {p : Position} {d d' : Draft} {t : Token} {ts : List Token}
    (stage : s.stage = .action p d) (more : t.kind.endsArguments = false)
    (accepted : d.extend t = .ok d') :
    s.run (t :: ts) = { s with stage := .action p d' : ParseState }.run ts := by
  apply run_cons
  · intro eof
    simp [eof, Kind.endsArguments] at more
  · simp [ParseState.step, stage, more, accepted, Except.map]

/-- An action that may end does so in front of any token that ends arguments. -/
theorem run_settle {s : ParseState} {p : Position} {d : Draft} {a : Action} {ts : List Token}
    (stage : s.stage = .action p d) (complete : d.action? = some a) (stops : Stops ts) :
    s.run ts = (behind s (.action p a)).run ts := by
  have finish (t : Token) : s.finish t = (behind s (.action p a)).finish t := by
    simp only [ParseState.finish, stage, complete, behind]
    rfl
  cases ts with
  | nil => exact finish Token.missing
  | cons t ts =>
    have ends : t.kind.endsArguments = true := stops t rfl
    have step : s.step t = (behind s (.action p a)).step t := by
      simp only [ParseState.step, stage, ends, complete, behind]
      rfl
    simp only [ParseState.run, step, finish]

/-- Arguments are collected in order by a draft that takes any number of them. -/
theorem run_arguments {s : ParseState} {p : Position} {collect : List String → Draft}
    (collects : ∀ given u, IsArgument u →
      (collect given).extend u = .ok (collect (given ++ [u.lexeme])))
    {args ts : List Token} (arguments : ∀ a ∈ args, IsArgument a) {given : List String}
    (stage : s.stage = .action p (collect given)) :
    s.run (args ++ ts) =
      { s with stage := .action p (collect (given ++ args.map Token.lexeme)) : ParseState }.run
        ts := by
  induction args generalizing s given with
  | nil =>
    obtain ⟨xs, groups, chain, stage'⟩ := s
    cases stage
    simp
  | cons a args ih =>
    have argument := arguments a (by simp)
    rw [List.cons_append, run_extend stage argument.continues (collects given a argument)]
    rw [ih (fun b hb => arguments b (by simp [hb])) rfl]
    simp

theorem extend_run (name : String) (given : List String) (u : Token) (h : IsArgument u) :
    (Draft.run name given).extend u = .ok (.run name (given ++ [u.lexeme])) := by
  have argument := (isArgument_iff u).mpr h
  have other : u.kind ≠ .equals := by
    intro equals
    simp [equals, Kind.isArgument] at argument
  simp [Draft.extend, argument, other]

theorem extend_echo (given : List String) (u : Token) (h : IsArgument u) :
    (Draft.echo given).extend u = .ok (.echo (given ++ [u.lexeme])) := by
  simp [Draft.extend, (isArgument_iff u).mpr h]

theorem run_name {s : ParseState} {t : Token} {ts : List Token} (name : IsName t)
    (stage : s.stage = .factor) :
    s.run (t :: ts) =
      { s with stage := .action t.position (.run t.lexeme []) : ParseState }.run ts := by
  rcases name with kind | kind
  · exact run_cons (by simp [kind]) (by simp [ParseState.step, stage, ParseState.openFactor, kind])
  · exact run_cons (by simp [kind]) (by simp [ParseState.step, stage, ParseState.openFactor, kind])

theorem run_keyword {s : ParseState} {t : Token} {k : Keyword} {ts : List Token}
    (kind : t.kind = .keyword k) (stage : s.stage = .factor) :
    s.run (t :: ts) = { s with stage := .action t.position (.ofKeyword k) : ParseState }.run ts :=
  run_cons (by simp [kind]) (by simp [ParseState.step, stage, ParseState.openFactor, kind])

theorem IsName.argument {t : Token} (h : IsName t) : IsArgument t := .inl h

theorem equals_continues {t : Token} (h : t.kind = .equals) : t.kind.endsArguments = false := by
  simp [h, Kind.endsArguments]

/-- The parser reads every action of the grammar, token by token. -/
theorem run_phrase {s : ParseState} {t : Token} {ts us : List Token} {a : Action}
    (h : Phrase t ts a) (stage : s.stage = .factor) (stops : Stops us) :
    s.run (t :: ts ++ us) = (behind s (.action t.position a)).run us := by
  cases h with
  | run name args =>
    rw [List.cons_append, run_name name stage, run_arguments (extend_run t.lexeme) args rfl]
    exact run_settle rfl rfl stops
  | @assign e v name equals value =>
    have argument := (isArgument_iff v).mpr value
    have first : (Draft.run t.lexeme []).extend e = .ok (.assignValue t.lexeme) := by
      simp [Draft.extend, equals]
    have second : (Draft.assignValue t.lexeme).extend v =
        .ok (.complete (.assign t.lexeme v.lexeme)) := by
      simp [Draft.extend, argument]
    simp only [List.cons_append, List.nil_append, run_name name stage]
    rw [run_extend rfl (equals_continues equals) first, run_extend rfl value.continues second]
    exact run_settle rfl rfl stops
  | @define n e v key name equals value =>
    have named := (isName_iff n).mpr name
    have argument := (isArgument_iff v).mpr value
    have first : Draft.defineName.extend n = .ok (.defineEquals n.lexeme) := by
      simp [Draft.extend, named]
    have second : (Draft.defineEquals n.lexeme).extend e = .ok (.defineValue n.lexeme) := by
      simp [Draft.extend, equals]
    have third : (Draft.defineValue n.lexeme).extend v =
        .ok (.complete (.define n.lexeme v.lexeme)) := by
      simp [Draft.extend, argument]
    simp only [List.cons_append, List.nil_append, run_keyword key stage]
    rw [run_extend rfl name.argument.continues first,
      run_extend rfl (equals_continues equals) second, run_extend rfl value.continues third]
    exact run_settle rfl rfl stops
  | @share n key name =>
    have named := (isName_iff n).mpr name
    have extend : Draft.shareName.extend n = .ok (.complete (.share n.lexeme)) := by
      simp [Draft.extend, named]
    simp only [List.cons_append, List.nil_append, run_keyword key stage]
    rw [run_extend rfl name.argument.continues extend]
    exact run_settle rfl rfl stops
  | help key =>
    rw [List.cons_append, run_keyword key stage]
    exact run_settle rfl rfl stops
  | exit key =>
    rw [List.cons_append, run_keyword key stage]
    exact run_settle rfl rfl stops
  | @exitWith u n key integer code =>
    have value := Text.int32?_eq_some_iff.mpr code
    have argument : IsArgument u := .inr (.inl integer)
    have extend : Draft.exitCode.extend u = .ok (.complete (.exit (some n))) := by
      simp [Draft.extend, integer, value]
    simp only [List.cons_append, List.nil_append, run_keyword key stage]
    rw [run_extend rfl argument.continues extend]
    exact run_settle rfl rfl stops
  | echo key args =>
    rw [List.cons_append, run_keyword key stage, run_arguments extend_echo args rfl]
    refine run_settle rfl ?_ stops
    simp [Draft.action?, Draft.message, Function.comp_def]
  | goHome key =>
    rw [List.cons_append, run_keyword key stage]
    exact run_settle rfl rfl stops
  | @changeDir u key path =>
    have argument := (isArgument_iff u).mpr path
    have extend : Draft.directory.extend u = .ok (.complete (.changeDir u.lexeme)) := by
      simp [Draft.extend, argument]
    simp only [List.cons_append, List.nil_append, run_keyword key stage]
    rw [run_extend rfl path.continues extend]
    exact run_settle rfl rfl stops

theorem stops_cons {t : Token} {ts : List Token} (h : t.kind.endsArguments = true) :
    Stops (t :: ts) := by
  simpa [Stops] using h

theorem Connects.kind {t : Token} {op : Connective} (h : Connects t op) :
    t.kind = (match op with | .and => .and | .or => .or) := by
  cases op <;> exact h

theorem Connects.follow {t : Token} {op : Connective} (h : Connects t op) (s : ParseState)
    (x : Statement) :
    s.follow x t = .ok { s with chain := some ⟨t.position, op, x⟩, stage := .factor } := by
  cases op <;> simp [ParseState.follow, h.kind]

/-- The parser reads every factor and every statement of the grammar. -/
theorem run_derives {symbol : Symbol} {ts : List Token} {x : Statement}
    (h : Derives symbol ts x) {s : ParseState} {us : List Token} (stage : s.stage = .factor)
    (fresh : symbol = .statement → s.chain = none) (stops : Stops us) :
    s.run (ts ++ us) = (behind s x).run us := by
  induction h generalizing s us with
  | action phrase => exact run_phrase phrase stage stops
  | @group left right ts x opens _ closes ih =>
    have inner : s.run (left :: (ts ++ right :: us)) =
        (⟨s.finished, s.chain :: s.groups, none, .factor⟩ : ParseState).run (ts ++ right :: us) :=
      run_cons (by simp [opens])
        (by simp [ParseState.step, stage, ParseState.openFactor, opens])
    have ends : right.kind.endsArguments = true := by simp [closes, Kind.endsArguments]
    simp only [List.cons_append, List.append_assoc, List.nil_append]
    rw [inner, ih rfl (fun _ => rfl) (stops_cons ends)]
    exact run_cons (by simp [closes])
      (by simp [ParseState.step, behind, ParseState.follow, closes, Chain.close])
  | factor _ ih => exact ih stage (fun h => nomatch h) stops
  | @chain ts us' t op x y _ connects _ left right =>
    have ends : t.kind.endsArguments = true := by
      cases op <;> simp [connects.kind, Kind.endsArguments]
    have next : (behind s x).run (t :: (us' ++ us)) =
        (⟨s.finished, s.groups, some ⟨t.position, op, x⟩, .factor⟩ : ParseState).run
          (us' ++ us) := by
      apply run_cons
      · cases op <;> simp [connects.kind]
      · simp [ParseState.step, behind, fresh, Chain.close, connects.follow]
    simp only [List.cons_append, List.append_assoc]
    rw [left stage fresh (stops_cons ends), next, right rfl (fun h => nomatch h) stops]
    simp [behind, fresh rfl, Chain.close]

/-- The state between two statements. -/
def between (xs : List Statement) : ParseState :=
  ⟨xs, [], none, .factor⟩

theorem run_separators {seps us : List Token} (h : Separators seps) (xs : List Statement) :
    (between xs).run (seps ++ us) = (between xs).run us := by
  induction seps with
  | nil => rfl
  | cons t seps ih =>
    have separator := h t (by simp)
    rw [List.cons_append, ← ih (fun u hu => h u (by simp [hu]))]
    exact run_cons (by simp [separator]) (by
      simp [ParseState.step, between, ParseState.openFactor, separator, ParseState.atBoundary])

/-- Only such tokens may stand behind a statement outside parentheses. -/
def Breaks (ts : List Token) : Prop :=
  ∀ t ∈ ts.head?, t.kind = .separator ∨ t.kind = .eof

theorem Breaks.stops {ts : List Token} (h : Breaks ts) : Stops ts := by
  intro t ht
  rcases h t ht with kind | kind <;> simp [kind, Kind.endsArguments]

/-- Outside parentheses a statement counts as finished in front of a separator or the end. -/
theorem run_statement {ts us : List Token} {x : Statement} (h : Derives .statement ts x)
    (breaks : Breaks us) (xs : List Statement) :
    (between xs).run (ts ++ us) = (between (xs ++ [x])).run us := by
  rw [run_derives h rfl (fun _ => rfl) breaks.stops]
  cases us with
  | nil =>
    simp [ParseState.run, ParseState.finish, ParseState.close, ParseState.atBoundary, behind,
      between, Chain.close]
  | cons t us =>
    rcases breaks t rfl with kind | kind
    · simp [ParseState.run, ParseState.step, ParseState.follow, ParseState.openFactor,
        ParseState.atBoundary, behind, between, Chain.close, kind]
    · simp [ParseState.run, ParseState.finish, ParseState.close, ParseState.atBoundary, behind,
        between, Chain.close, kind]

theorem Separators.breaks_of_ne_nil {seps us : List Token} (h : Separators seps)
    (nonempty : seps ≠ []) : Breaks (seps ++ us) := by
  cases seps with
  | nil => exact absurd rfl nonempty
  | cons t seps => simpa [Breaks] using Or.inl (h t List.mem_cons_self)

theorem Separators.breaks {seps us : List Token} (h : Separators seps) (breaks : Breaks us) :
    Breaks (seps ++ us) := by
  by_cases empty : seps = []
  · rwa [empty]
  · exact h.breaks_of_ne_nil empty

theorem More.breaks {ts us : List Token} {ys : List Statement} (h : More ts ys)
    (breaks : Breaks us) : Breaks (ts ++ us) := by
  cases h with
  | nil => exact breaks
  | cons separators nonempty _ _ =>
    simp only [List.append_assoc]
    exact separators.breaks_of_ne_nil nonempty

theorem run_more {ts us : List Token} {ys : List Statement} (h : More ts ys) (breaks : Breaks us)
    (xs : List Statement) : (between xs).run (ts ++ us) = (between (xs ++ ys)).run us := by
  induction h generalizing xs with
  | nil => simp
  | cons separators _ statement rest ih =>
    simp only [List.append_assoc]
    rw [run_separators separators, run_statement statement (rest.breaks breaks), ih]
    simp

/-- The parser accepts every program, up to the end token or the end of the list. -/
theorem run_program {ts us : List Token} {xs : List Statement} (h : Program ts xs)
    (last : ∀ t ∈ us.head?, t.kind = .eof) : ParseState.start.run (ts ++ us) = .ok xs := by
  have breaks : Breaks us := fun t ht => .inr (last t ht)
  have accepts (xs : List Statement) : (between xs).run us = .ok xs := by
    cases us with
    | nil => rfl
    | cons t us =>
      simp [ParseState.run, last t rfl, ParseState.finish, between, ParseState.atBoundary]
  change (between []).run (ts ++ us) = .ok xs
  cases h with
  | empty separators => rw [run_separators separators, accepts]
  | statements before first more after =>
    simp only [List.append_assoc]
    rw [run_separators before, run_statement first (more.breaks (after.breaks breaks)),
      run_more more (after.breaks breaks), run_separators after, accepts]
    rfl

end Grammar

open Grammar in
/-- The parser accepts a token list exactly if the tokens before the first end token are a program,
and returns the statements that the program denotes. -/
theorem Statement.ofTokens_eq_ok_iff (ts : List Token) (xs : List Statement) :
    Statement.ofTokens ts = .ok xs ↔
      Grammar.Program (ts.takeWhile fun t => t.kind ≠ .eof) xs := by
  constructor
  · intro accepted
    exact Reads.start.run accepted
  · intro program
    have last : ∀ t ∈ (ts.dropWhile fun t => decide (t.kind ≠ .eof)).head?, t.kind = .eof := by
      intro t ht
      have stopped := List.head?_dropWhile_not (fun t : Token => decide (t.kind ≠ .eof)) ts
      rw [Option.mem_def.mp ht] at stopped
      simpa using stopped
    have accepted := run_program program last
    rwa [List.takeWhile_append_dropWhile] at accepted

end LineShell
