import LineShell.Ansi
import LineShell.Token

/-!
Failures of the command language, tied to the place in the source that they come from.
-/

namespace LineShell

open Text (quote)

inductive ParseError where
  | unexpected (found : String)
  | expected (wanted : Kind) (found : String)
  | exitCodeRange (code : String)
  deriving DecidableEq, Repr

namespace ParseError

def message : ParseError → String
  | unexpected found => "Unexpected " ++ found
  | expected wanted found => "Expected type \"" ++ wanted.label ++ "\", got " ++ found
  | exitCodeRange code => "Exit code " ++ quote code ++ " is out of range"

end ParseError

inductive EvalError where
  | commandNotFound (name : String)
  | fileNotFound (path : String)
  | homeNotSet (path : String)
  | variableNotFound (name : String)
  | invalidIdentifier (char : Char) (index : Nat)
  | emptyIdentifier
  | spawn (command reason : String)
  | output (reason : String)
  deriving DecidableEq, Repr

namespace EvalError

def message : EvalError → String
  | commandNotFound name => "Command " ++ quote name ++ " not found"
  | fileNotFound path => "File/directory " ++ quote path ++ " not found"
  | homeNotSet path => "Cannot expand \"~\" in " ++ quote path ++ ", $HOME is not set"
  | variableNotFound name => "Variable " ++ quote name ++ " not found"
  | invalidIdentifier c index =>
    "Unexpected character '" ++ c.toString ++ "' at " ++ toString index ++
      " in variable identifier"
  | emptyIdentifier => "Variable identifier cannot be empty"
  | spawn command reason => "Could not run " ++ quote command ++ ": " ++ reason
  | output reason => "Could not write output: " ++ reason

def exitStatus : EvalError → Int
  | commandNotFound _ => 127
  | _ => 1

end EvalError

inductive Cause where
  | lex (error : LexError)
  | parse (error : ParseError)
  | eval (error : EvalError)
  deriving DecidableEq, Repr

namespace Cause

def message : Cause → String
  | lex e => e.message
  | parse e => e.message
  | eval e => e.message

def exitStatus : Cause → Int
  | eval e => e.exitStatus
  | lex _ | parse _ => 1

end Cause

structure ShellError where
  position : Position
  cause : Cause
  deriving DecidableEq, Repr

namespace ShellError

def message (e : ShellError) : String :=
  e.position.render ++ ": " ++ e.cause.message

def exitStatus (e : ShellError) : Int :=
  e.cause.exitStatus

end ShellError

def report (message : String) : String :=
  Ansi.bold ++ Ansi.brightRed ++ "Error:" ++ Ansi.reset ++ " " ++ message ++ "\n"

end LineShell
