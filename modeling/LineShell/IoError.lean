/-!
Failures of files and terminals.
-/

namespace LineShell

inductive IoError where
  | notFound
  | permissionDenied
  | notADirectory
  | isADirectory
  | tooManyLinks
  | nameTooLong
  | nulInPath
  | invalidText
  | notATerminal
  | endOfInput (text : String)
  | other (text : String)
  deriving DecidableEq, Repr

namespace IoError

def message : IoError → String
  | notFound => "No such file or directory (os error 2)"
  | permissionDenied => "Permission denied (os error 13)"
  | notADirectory => "Not a directory (os error 20)"
  | isADirectory => "Is a directory (os error 21)"
  | tooManyLinks => "Too many levels of symbolic links (os error 40)"
  | nameTooLong => "File name too long (os error 36)"
  | nulInPath => "file name contained an unexpected NUL byte"
  | invalidText => "stream did not contain valid UTF-8"
  | notATerminal => "Inappropriate ioctl for device (os error 25)"
  | endOfInput text => text
  | other text => text

def isEnd : IoError → Bool
  | endOfInput _ => true
  | _ => false

end IoError

end LineShell
