import LineShell.Host
import LineShell.Statement.Parse

/-!
Colouring of input while it is typed, and the first problem in it. Colouring never changes the text:
it only adds colour sequences.
-/

namespace LineShell

structure Highlighter where
  files : FileView
  searchPath : Option String

structure Highlighted where
  text : String
  diagnostic : Option ShellError

namespace Highlighter

def errorColour : String := Ansi.underline ++ Ansi.brightRed
def commentColour : String := Ansi.italics ++ Ansi.grey
def keywordColour : String := Ansi.bold ++ Ansi.brightBlue
def operatorColour : String := Ansi.bold ++ Ansi.magenta
def commandColour : String := Ansi.bold ++ Ansi.brightYellow
def pathColour : String := Ansi.underline ++ Ansi.brightGreen
def integerColour : String := Ansi.brightCyan
def stringColour : String := Ansi.brightGreen
def escapeColour : String := Ansi.brightMagenta

def paintGap (gap : String) : String :=
  let cs := gap.toList
  let comment := cs.dropWhile (· ≠ '#')
  if comment = [] then gap
  else
    String.ofList (cs.takeWhile (· ≠ '#')) ++ commentColour ++ String.ofList comment ++ Ansi.reset

/-- Colours the quoted parts of a word and the escapes inside them. A colour that is open at the end
is closed. -/
def paintWord : Option Quote → List Char → String
  | none, [] => ""
  | some _, [] => Ansi.reset
  | none, c :: cs =>
    match Quote.ofChar? c with
    | some q => stringColour ++ c.toString ++ paintWord (some q) cs
    | none => c.toString ++ paintWord none cs
  | some q, c :: cs =>
    if c = q.char then c.toString ++ Ansi.reset ++ paintWord none cs
    else if c = '\\' ∧ q.escapes then
      match cs with
      | [] => escapeColour ++ c.toString ++ Ansi.reset ++ stringColour ++ Ansi.reset
      | d :: cs =>
        escapeColour ++ c.toString ++ d.toString ++ Ansi.reset ++ stringColour ++
          paintWord (some q) cs
    else c.toString ++ paintWord (some q) cs

def isCommand (previous next : Option Kind) : Bool :=
  let starts :=
    match previous with
    | none | some .separator | some .and | some .or | some .openParen => true
    | _ => false
  starts && next != some .equals

def classify (h : Highlighter) (previous : Option Kind) (t : Token) (next : Option Kind) :
    Option String × Option ShellError :=
  match t.kind with
  | .error e => (some errorColour, some ⟨t.position, .lex e⟩)
  | .integer => (some integerColour, none)
  | .keyword _ => (some keywordColour, none)
  | .and | .or | .equals | .openParen | .closeParen => (some operatorColour, none)
  | .word | .bareWord =>
    if isCommand previous next then
      if (h.files.resolve t.lexeme h.searchPath).isSome then (some commandColour, none)
      else (some errorColour, some ⟨t.position, .eval (.commandNotFound t.lexeme)⟩)
    else if t.lexeme ≠ "" ∧ h.files.pathExists t.lexeme then (some pathColour, none)
    else (none, none)
  | .eof | .separator => (none, none)

def paintToken (t : Token) (colour : Option String) : String :=
  match colour with
  | some colour => colour ++ t.raw
  | none => if t.kind.isName then paintWord none t.raw.toList else t.raw

def paint (h : Highlighter) (previous : Option Kind) : List Segment → String
  | [] => ""
  | s :: rest =>
    let next := rest.head?.map fun r => r.token.kind
    paintGap s.gap ++ paintToken s.token (h.classify previous s.token next).1 ++ Ansi.reset ++
      h.paint (some s.token.kind) rest

def tokenProblem? (h : Highlighter) (previous : Option Kind) : List Segment → Option ShellError
  | [] => none
  | s :: rest =>
    let next := rest.head?.map fun r => r.token.kind
    (h.classify previous s.token next).2 <|> h.tokenProblem? (some s.token.kind) rest

def grammarProblem? (tokens : List Token) : Option ShellError :=
  match Statement.ofTokens tokens with
  | .ok _ => none
  | .error e => some e

/-- Of a problem in a token and one in the grammar the one that stands first counts, and the token's
if they stand together. -/
def firstProblem? (token grammar : Option ShellError) : Option ShellError :=
  match token, grammar with
  | some a, some b => some (if b.position.before a.position then b else a)
  | some a, none => some a
  | none, b => b

def highlight (h : Highlighter) (path source : String) : Highlighted :=
  let segments := Token.scan path source
  { text := h.paint none segments ++ Ansi.reset
    diagnostic :=
      firstProblem? (h.tokenProblem? none segments)
        (grammarProblem? (segments.map Segment.token)) }

end Highlighter

end LineShell
