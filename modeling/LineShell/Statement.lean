import LineShell.Token

/-!
Statements of the command language.
-/

namespace LineShell

inductive Connective where
  | and
  | or
  deriving DecidableEq, Repr

namespace Connective

def continues : Connective → Int → Bool
  | and, status => status == 0
  | or, status => status != 0

end Connective

inductive Action where
  | run (name : String) (args : List String)
  | exit (code : Option Int)
  | echo (message : String)
  | changeDir (path : String)
  | help
  | define (name value : String)
  | assign (name value : String)
  | share (name : String)
  deriving DecidableEq, Repr

/-- An action stands at its first token, a chain at its operator. -/
inductive Statement where
  | action (position : Position) (action : Action)
  | chain (position : Position) (op : Connective) (left right : Statement)
  deriving DecidableEq, Repr

namespace Statement

def position : Statement → Position
  | action p _ => p
  | chain p _ _ _ => p

end Statement

end LineShell
