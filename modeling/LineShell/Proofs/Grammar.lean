import LineShell.Proofs.Number
import LineShell.Statement

/-!
The grammar of the command language, as relations between token lists and what they denote. The
relations do not mention the parser.

    program   := separator* [statement (separator+ statement)*] separator*
    statement := factor ((and | or) factor)*
    factor    := action | openParen statement closeParen
-/

namespace LineShell

namespace Grammar

def IsName (t : Token) : Prop :=
  t.kind = .word ∨ t.kind = .bareWord

def IsArgument (t : Token) : Prop :=
  IsName t ∨ t.kind = .integer ∨ ∃ k, t.kind = .keyword k

def Connects (t : Token) : Connective → Prop
  | .and => t.kind = .and
  | .or => t.kind = .or

/-- The actions, each with its first token apart from the others. -/
inductive Phrase : Token → List Token → Action → Prop where
  | run {name : Token} {args : List Token} :
      IsName name → (∀ a ∈ args, IsArgument a) →
      Phrase name args (.run name.lexeme (args.map Token.lexeme))
  | assign {name equals value : Token} :
      IsName name → equals.kind = .equals → IsArgument value →
      Phrase name [equals, value] (.assign name.lexeme value.lexeme)
  | define {key name equals value : Token} :
      key.kind = .keyword .define → IsName name → equals.kind = .equals → IsArgument value →
      Phrase key [name, equals, value] (.define name.lexeme value.lexeme)
  | share {key name : Token} :
      key.kind = .keyword .share → IsName name → Phrase key [name] (.share name.lexeme)
  | help {key : Token} :
      key.kind = .keyword .help → Phrase key [] .help
  | exit {key : Token} :
      key.kind = .keyword .exit → Phrase key [] (.exit none)
  | exitWith {key code : Token} {n : Int} :
      key.kind = .keyword .exit → code.kind = .integer → Text.Int32 code.lexeme n →
      Phrase key [code] (.exit (some n))
  | echo {key : Token} {args : List Token} :
      key.kind = .keyword .echo → (∀ a ∈ args, IsArgument a) →
      Phrase key args (.echo (String.join (args.map fun a => a.lexeme ++ " ")))
  | goHome {key : Token} :
      key.kind = .keyword .changeDir → Phrase key [] (.changeDir "~/")
  | changeDir {key path : Token} :
      key.kind = .keyword .changeDir → IsArgument path → Phrase key [path] (.changeDir path.lexeme)

inductive Symbol where
  | factor
  | statement

/-- Factors and statements. A chain takes one factor more on its right, so chains lean to the left,
and both operators bind alike. Parentheses leave no trace. -/
inductive Derives : Symbol → List Token → Statement → Prop where
  | action {t : Token} {ts : List Token} {a : Action} :
      Phrase t ts a → Derives .factor (t :: ts) (.action t.position a)
  | group {left right : Token} {ts : List Token} {x : Statement} :
      left.kind = .openParen → Derives .statement ts x → right.kind = .closeParen →
      Derives .factor (left :: ts ++ [right]) x
  | factor {ts : List Token} {x : Statement} :
      Derives .factor ts x → Derives .statement ts x
  | chain {ts us : List Token} {t : Token} {op : Connective} {x y : Statement} :
      Derives .statement ts x → Connects t op → Derives .factor us y →
      Derives .statement (ts ++ t :: us) (.chain t.position op x y)

def Separators (ts : List Token) : Prop :=
  ∀ t ∈ ts, t.kind = .separator

/-- Further statements, each behind its separators. -/
inductive More : List Token → List Statement → Prop where
  | nil : More [] []
  | cons {seps ts us : List Token} {x : Statement} {xs : List Statement} :
      Separators seps → seps ≠ [] → Derives .statement ts x → More us xs →
      More (seps ++ ts ++ us) (x :: xs)

inductive Program : List Token → List Statement → Prop where
  | empty {seps : List Token} : Separators seps → Program seps []
  | statements {before ts us after : List Token} {x : Statement} {xs : List Statement} :
      Separators before → Derives .statement ts x → More us xs → Separators after →
      Program (before ++ ts ++ us ++ after) (x :: xs)

end Grammar

end LineShell
