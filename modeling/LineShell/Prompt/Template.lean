import LineShell.Environment
import LineShell.Prompt.Layout

/-!
Prompt templates. A backslash and the character behind it stand for a fact of the session, for a
control character or for themselves.
-/

namespace LineShell

namespace Environment

def shownDir (env : Environment) : String :=
  let dir := (env.get? "PWD").getD ""
  match env.get? "HOME" with
  | none | some "" => dir
  | some home =>
    if home.toList.isPrefixOf dir.toList then
      let rest := dir.toList.drop home.length
      if rest.head?.all (· = '/') then String.ofList ('~' :: rest) else dir
    else dir

end Environment

namespace Prompt

/-- Expands a template; what is put in is not expanded again. -/
def expandChars (env : Environment) : List Char → String
  | [] => ""
  | '\\' :: 'e' :: 'x' :: cs => toString env.lastStatus ++ expandChars env cs
  | ['\\'] => "\\"
  | '\\' :: c :: cs =>
    let text :=
      match c with
      | 'u' => (env.get? "USER").getD ""
      | 'h' => (env.get? "HOSTNAME").getD ""
      | 'w' => env.shownDir
      | 'e' => "\x1b"
      | '[' => hideMark.toString
      | ']' => showMark.toString
      | '\\' => "\\"
      | other => "\\" ++ other.toString
    text ++ expandChars env cs
  | c :: cs => c.toString ++ expandChars env cs

def expand (env : Environment) (template : String) : String :=
  expandChars env template.toList

end Prompt

end LineShell
