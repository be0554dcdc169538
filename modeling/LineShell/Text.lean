/-!
Text as the shell reads and writes it: white space, lines, decimal numbers, and the quoted form in
which names and values stand inside messages.
-/

namespace LineShell.Text

/- White space is meant in the sense of the Unicode property White_Space. -/
section Blank

def isSpace (c : Char) : Bool :=
  let n := c.toNat
  (9 ≤ n && n ≤ 13) || n == 0x20 || n == 0x85 || n == 0xa0 || n == 0x1680 ||
    (0x2000 ≤ n && n ≤ 0x200a) || n == 0x2028 || n == 0x2029 || n == 0x202f ||
    n == 0x205f || n == 0x3000

def trimStartChars (cs : List Char) : List Char :=
  cs.dropWhile isSpace

def trimEndChars (cs : List Char) : List Char :=
  (cs.reverse.dropWhile isSpace).reverse

def trimChars (cs : List Char) : List Char :=
  trimEndChars (trimStartChars cs)

def trim (s : String) : String :=
  String.ofList (trimChars s.toList)

end Blank

/- A line ends at a newline; a carriage return directly before that newline belongs to the line end.
A last line without a newline counts if it is not empty. -/
section Lines

def splitLines {α : Type} [DecidableEq α] (newline ret : α) : List α → List (List α)
  | [] => []
  | x :: xs =>
    if x = newline then [] :: splitLines newline ret xs
    else if x = ret ∧ xs.head? = some newline then splitLines newline ret xs
    else
      match splitLines newline ret xs with
      | [] => [[x]]
      | line :: more => (x :: line) :: more

def lines (s : String) : List String :=
  (splitLines '\n' '\r' s.toList).map String.ofList

/-- The lines of a byte stream; a line that is not UTF-8 has no text. -/
def byteLines (bytes : ByteArray) : List (Option String) :=
  (splitLines 10 13 bytes.toList).map fun line => String.fromUTF8? ⟨line.toArray⟩

end Lines

/- Decimal numbers within the limits of a machine word. -/
section Number

def digitValue (c : Char) : Nat :=
  c.toNat - '0'.toNat

def digitsValue (cs : List Char) : Nat :=
  cs.foldl (fun n c => 10 * n + digitValue c) 0

def digits? (cs : List Char) : Option Nat :=
  if cs ≠ [] ∧ cs.all Char.isDigit then some (digitsValue cs) else none

def word64? (s : String) : Option Nat :=
  let digits :=
    match s.toList with
    | '+' :: rest => rest
    | cs => cs
  (digits? digits).filter (· < UInt64.size)

def int32? (s : String) : Option Int :=
  match s.toList with
  | '+' :: rest => ((digits? rest).filter (· < 2147483648)).map Int.ofNat
  | '-' :: rest => ((digits? rest).filter (· ≤ 2147483648)).map fun n => -(n : Int)
  | cs => ((digits? cs).filter (· < 2147483648)).map Int.ofNat

end Number

/- Double-quoted text. -/
section Quoted

def escapeLetter? (c : Char) : Option Char :=
  match c with
  | '\\' => some '\\'
  | '\x1b' => some 'e'
  | '\n' => some 'n'
  | '\r' => some 'r'
  | '\t' => some 't'
  | '\x0b' => some 'v'
  | '\x08' => some 'b'
  | '\x0c' => some 'f'
  | '\x22' => some '\x22'
  | _ => none

def escapeChar (c : Char) : List Char :=
  match escapeLetter? c with
  | some letter => ['\\', letter]
  | none => [c]

def quoteChars (cs : List Char) : List Char :=
  '\x22' :: cs.flatMap escapeChar ++ ['\x22']

def quote (s : String) : String :=
  String.ofList (quoteChars s.toList)

end Quoted

end LineShell.Text
