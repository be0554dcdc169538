import LineShell.Text

/-!
Tokens of the command language.
-/

namespace LineShell

open Text (quote)

/-- A token starts at a row, counted from one, and a column. A newline stands in column zero of the
row that it opens; the first character of a row is in column one. -/
structure Position where
  path : String
  row : Nat
  column : Nat
  deriving DecidableEq, Repr, Inhabited

namespace Position

def render (p : Position) : String :=
  p.path ++ ":" ++ toString p.row ++ ":" ++ toString p.column

def before (p q : Position) : Bool :=
  p.row < q.row || (p.row == q.row && p.column < q.column)

end Position

inductive LexError where
  | unterminatedString
  | stringExceedsLine
  | unknownEscape (char : Char)
  | unexpectedCharInNumber (char : Char)
  | loneOperator (char : Char)
  deriving DecidableEq, Repr

namespace LexError

def message : LexError → String
  | unterminatedString => "String not terminated"
  | stringExceedsLine => "String exceeds line"
  | unknownEscape c => "Unknown escape sequence '\\" ++ c.toString ++ "'"
  | unexpectedCharInNumber c => "Unexpected character '" ++ c.toString ++ "' in number"
  | loneOperator c =>
    "Unexpected character '" ++ c.toString ++ "', did you mean \"" ++ c.toString ++ c.toString ++
      "\"?"

end LexError

inductive Keyword where
  | help
  | exit
  | echo
  | changeDir
  | define
  | share
  deriving DecidableEq, Repr

namespace Keyword

def word : Keyword → String
  | help => "help"
  | exit => "exit"
  | echo => "echo"
  | changeDir => "cd"
  | define => "let"
  | share => "export"

def all : List Keyword :=
  [help, exit, echo, changeDir, define, share]

def ofWord? (text : String) : Option Keyword :=
  all.find? fun k => k.word == text

end Keyword

inductive Kind where
  | eof
  | separator
  | integer
  | word
  | bareWord
  | keyword (keyword : Keyword)
  | and
  | or
  | equals
  | openParen
  | closeParen
  | error (error : LexError)
  deriving DecidableEq, Repr

namespace Kind

def label : Kind → String
  | eof => "end of file"
  | separator => "separator"
  | integer => "integer"
  | word => "string"
  | bareWord => "word"
  | keyword k => "keyword " ++ k.word
  | and => "&&"
  | or => "||"
  | equals => "="
  | openParen => "("
  | closeParen => ")"
  | error _ => "error"

def isName : Kind → Bool
  | word | bareWord => true
  | _ => false

def isKeyword : Kind → Bool
  | keyword _ => true
  | _ => false

def isOperator : Kind → Bool
  | and | or | equals | openParen | closeParen => true
  | _ => false

/-- Keywords and numbers are ordinary text once a command has started. -/
def isArgument : Kind → Bool
  | word | bareWord | integer | keyword _ => true
  | _ => false

def endsArguments : Kind → Bool
  | separator | eof | and | or | closeParen => true
  | _ => false

end Kind

/-- `lexeme` is the text that the token stands for, with quotes and escapes resolved; `raw` is its
text in the source, which starts at byte `start`. -/
structure Token where
  kind : Kind
  lexeme : String
  raw : String
  start : Nat
  position : Position
  deriving DecidableEq, Repr

namespace Token

def stop (t : Token) : Nat :=
  t.start + t.raw.utf8ByteSize

def missing : Token where
  kind := .eof
  lexeme := ""
  raw := ""
  start := 0
  position := ⟨"", 0, 0⟩

def describe (t : Token) : String :=
  match t.kind with
  | .word | .bareWord | .integer => t.kind.label ++ " " ++ quote t.lexeme
  | .and | .or | .equals | .openParen | .closeParen => quote t.kind.label
  | _ => t.kind.label

end Token

end LineShell
