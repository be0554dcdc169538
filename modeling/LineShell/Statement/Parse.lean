import LineShell.Error
import LineShell.Statement
import LineShell.Text
import LineShell.Token.Scan

/-!
From tokens to statements. A program is a list of statements between separators; a statement is a
chain of factors joined by `&&` and `||`, which bind alike and to the left; a factor is an action
or a statement in parentheses.

The parser reads one token at a time. Its state says what has been read: the finished statements,
the groups that are open, the chain so far, and the action in progress. So a failure is always at
the token in hand, and it is the first one at which no program can go on.
-/

namespace LineShell

structure Waiting where
  position : Position
  op : Connective
  left : Statement
  deriving DecidableEq, Repr

abbrev Chain := Option Waiting

namespace Chain

def close (chain : Chain) (factor : Statement) : Statement :=
  match chain with
  | some w => .chain w.position w.op w.left factor
  | none => factor

end Chain

inductive Draft where
  | run (name : String) (args : List String)
  | assignValue (name : String)
  | defineName
  | defineEquals (name : String)
  | defineValue (name : String)
  | shareName
  | exitCode
  | echo (args : List String)
  | directory
  | complete (action : Action)
  deriving DecidableEq, Repr

namespace Draft

def ofKeyword : Keyword → Draft
  | .help => complete .help
  | .exit => exitCode
  | .echo => echo []
  | .changeDir => directory
  | .define => defineName
  | .share => shareName

def message (args : List String) : String :=
  String.join (args.map (· ++ " "))

def action? : Draft → Option Action
  | run name args => some (.run name args)
  | exitCode => some (.exit none)
  | echo args => some (.echo (message args))
  | directory => some (.changeDir "~/")
  | complete action => some action
  | assignValue _ | defineName | defineEquals _ | defineValue _ | shareName => none

end Draft

namespace Token

def reject (t : Token) (error : ParseError) : ShellError :=
  match t.kind with
  | .error e => ⟨t.position, .lex e⟩
  | _ => ⟨t.position, .parse error⟩

def unexpected (t : Token) : ShellError :=
  t.reject (.unexpected t.describe)

def expected (t : Token) (wanted : Kind) : ShellError :=
  t.reject (.expected wanted t.describe)

end Token

namespace Draft

def refuse (draft : Draft) (t : Token) : ShellError :=
  match draft with
  | run _ _ | echo _ => t.unexpected
  | assignValue _ | defineName | defineValue _ | shareName | directory => t.expected .word
  | defineEquals _ => t.expected .equals
  | exitCode => t.expected .integer
  | complete _ => t.expected .separator

def extend (draft : Draft) (t : Token) : Except ShellError Draft :=
  let accept (ok : Bool) (next : Draft) : Except ShellError Draft :=
    if ok then .ok next else .error (draft.refuse t)
  match draft with
  | run name args =>
    if args = [] ∧ t.kind = .equals then .ok (assignValue name)
    else accept t.kind.isArgument (run name (args ++ [t.lexeme]))
  | assignValue name => accept t.kind.isArgument (complete (.assign name t.lexeme))
  | defineName => accept t.kind.isName (defineEquals t.lexeme)
  | defineEquals name => accept (t.kind = .equals) (defineValue name)
  | defineValue name => accept t.kind.isArgument (complete (.define name t.lexeme))
  | shareName => accept t.kind.isName (complete (.share t.lexeme))
  | exitCode =>
    match t.kind, Text.int32? t.lexeme with
    | .integer, some code => .ok (complete (.exit (some code)))
    | .integer, none => .error ⟨t.position, .parse (.exitCodeRange t.lexeme)⟩
    | _, _ => .error (draft.refuse t)
  | echo args => accept t.kind.isArgument (echo (args ++ [t.lexeme]))
  | directory => accept t.kind.isArgument (complete (.changeDir t.lexeme))
  | complete _ => .error (draft.refuse t)

end Draft

inductive Stage where
  | factor
  | action (position : Position) (draft : Draft)
  | chained (statement : Statement)
  deriving DecidableEq, Repr

/-- `groups` holds the chains in front of the open parentheses, innermost first, and `chain` the one
inside them. -/
structure ParseState where
  finished : List Statement
  groups : List Chain
  chain : Chain
  stage : Stage
  deriving DecidableEq, Repr

namespace ParseState

def start : ParseState := ⟨[], [], none, .factor⟩

def atBoundary (s : ParseState) : Bool :=
  s.stage == .factor && s.groups == [] && s.chain == none

def openFactor (s : ParseState) (t : Token) : Except ShellError ParseState :=
  match t.kind with
  | .word | .bareWord => .ok { s with stage := .action t.position (.run t.lexeme []) }
  | .keyword k => .ok { s with stage := .action t.position (.ofKeyword k) }
  | .openParen => .ok { s with groups := s.chain :: s.groups, chain := none, stage := .factor }
  | .separator => if s.atBoundary then .ok s else .error t.unexpected
  | _ => .error t.unexpected

def follow (s : ParseState) (statement : Statement) (t : Token) : Except ShellError ParseState :=
  match t.kind, s.groups with
  | .and, _ => .ok { s with chain := some ⟨t.position, .and, statement⟩, stage := .factor }
  | .or, _ => .ok { s with chain := some ⟨t.position, .or, statement⟩, stage := .factor }
  | .closeParen, outer :: groups =>
    .ok { s with groups := groups, chain := none, stage := .chained (outer.close statement) }
  | .separator, [] =>
    .ok { s with finished := s.finished ++ [statement], chain := none, stage := .factor }
  | _, [] => .error (t.expected .separator)
  | _, _ :: _ => .error (t.expected .closeParen)

/-- Reads one token other than the end. An action ends where a token that ends arguments finds it
complete. -/
def step (s : ParseState) (t : Token) : Except ShellError ParseState :=
  match s.stage with
  | .factor => s.openFactor t
  | .action position draft =>
    match t.kind.endsArguments, draft.action? with
    | true, some action => s.follow (s.chain.close (.action position action)) t
    | _, _ => (draft.extend t).map fun draft => { s with stage := .action position draft }
  | .chained statement => s.follow statement t

def close (s : ParseState) (statement : Statement) (t : Token) :
    Except ShellError (List Statement) :=
  if s.groups = [] then .ok (s.finished ++ [statement]) else .error (t.expected .closeParen)

def finish (s : ParseState) (t : Token) : Except ShellError (List Statement) :=
  match s.stage with
  | .factor => if s.atBoundary then .ok s.finished else .error t.unexpected
  | .action position draft =>
    match draft.action? with
    | some action => s.close (s.chain.close (.action position action)) t
    | none => .error (draft.refuse t)
  | .chained statement => s.close statement t

def run (s : ParseState) : List Token → Except ShellError (List Statement)
  | [] => s.finish Token.missing
  | t :: ts =>
    if t.kind = .eof then s.finish t
    else
      match s.step t with
      | .ok next => next.run ts
      | .error e => .error e

end ParseState

namespace Statement

def ofTokens (tokens : List Token) : Except ShellError (List Statement) :=
  ParseState.start.run tokens

end Statement

namespace Token

def lexProblem? (t : Token) : Option ShellError :=
  match t.kind with
  | .error e => some ⟨t.position, .lex e⟩
  | _ => none

def checked (path source : String) : Except ShellError (List Token) :=
  let tokens := all path source
  match tokens.findSome? lexProblem? with
  | some e => .error e
  | none => .ok tokens

end Token

namespace Statement

/-- The statements of a source. A lexical failure anywhere comes before any other. -/
def parse (path source : String) : Except ShellError (List Statement) := do
  ofTokens (← Token.checked path source)

end Statement

end LineShell
